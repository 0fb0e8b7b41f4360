/-
# Kernel.Group -- the three kinds of groups and the ranks they report

A scope stands on a group: the single process, the processes of an MPI
communicator, or the threads of a process.  `qv_group_size` and `qv_group_rank`
hand the group's answer to the caller and report success.

`ScopeReachable` is every way to come by a scope; each member of its group holds
one too (`ScopeReachable.members`).  Process and MPI groups number their members
(`ranks_identify_iff`).  A thread group answers both questions with
`QV_ERR_NOT_SUPPORTED`, and that number reaches every thread as its rank.
-/
import QuoVadis.Kernel.Mpi

namespace QuoVadis.Kernel

set_option autoImplicit false

/-- `qvi_group_process`, `qvi_group_mpi` and `qvi_group_thread`, with their members. -/
inductive Group where
  | process (p : Nat)
  | mpi (comm : Comm)
  | thread (p nthreads : Nat)

namespace Group

/-- The members: processes, or the threads of one. -/
def members : Group → List Nat
  | process p => [p]
  | mpi comm => comm.members
  | thread _ nthreads => List.range nthreads

/-- `size`.  Error codes and sizes share one `int`. -/
def size : Group → Int
  | process _ => 1
  | mpi comm => comm.size
  | thread _ _ => Rc.errNotSupported.code

/-- `rank`, as a member sees it. -/
def rank : Group → Nat → Int
  | process _, _ => 0
  | mpi comm, p => comm.rank p
  | thread _ _, _ => Rc.errNotSupported.code

/-- `self`. -/
def self (node : Nat → Nat) (p : Nat) : Group → Qv Group
  | process _ => .ok (process p)
  | mpi _ => .ok (mpi (Comm.splitShared node (.self p) p))
  | thread _ _ => .error (.ret .errNotSupported)

/-- `split`.  An MPI group splits its communicator with the rank as key, and then
by node (`group_from_split`, `group_from_mpi_comm`). -/
def split (node color : Nat → Nat) (p : Nat) : Group → Qv Group
  | process q => self node p (process q)
  | mpi comm =>
      match comm.split (fun q => some (color q)) (fun q => comm.rank q) p with
      | none => .error (.ret .errMpi)
      | some splitComm => .ok (mpi (Comm.splitShared node splitComm p))
  | thread _ _ => .error (.ret .errNotSupported)

/-- `thread_split`. -/
def threadSplit (p nthreads : Nat) : Group → Qv Group
  | thread _ _ => .error (.ret .errNotSupported)
  | _ => .ok (thread p nthreads)

/-- `qvi_group_mpi::make_intrinsic` after the constructor for a communicator. -/
def makeIntrinsicMpi (node : Nat → Nat) (comm : Comm) (p : Nat) :
    EnumValue ScopeIntrinsic 4 → Qv Group
  | .enumerator .process => .ok (mpi (.self p))
  | .enumerator _ => .ok (mpi (mNodeComm node comm p))
  | .other _ _ => .error (.ret .errInvldArg)

end Group

/-- A scope as its holder sees it. -/
structure HeldScope where
  group : Group
  caller : Nat

/-- `qv_group_size`: the status and the value. -/
def qvGroupSize (scope : HeldScope) : Rc × Int := (.success, scope.group.size)

/-- `qv_group_rank`. -/
def qvGroupRank (scope : HeldScope) : Rc × Int := (.success, scope.group.rank scope.caller)

/-- The scopes a program can come by.  Colours are whatever the hardware split
hands to the group split. -/
inductive ScopeReachable (node : Nat → Nat) : HeldScope → Prop where
  | process (p : Nat) : ScopeReachable node ⟨.process p, p⟩
  | mpi (comm : Comm) (iscope : EnumValue ScopeIntrinsic 4) (p : Nat) (member : p ∈ comm.members)
      (g : Group) (run : Group.makeIntrinsicMpi node comm p iscope = .ok g) :
      ScopeReachable node ⟨g, p⟩
  | split (s : HeldScope) (held : ScopeReachable node s) (color : Nat → Nat) (g : Group)
      (run : s.group.split node color s.caller = .ok g) : ScopeReachable node ⟨g, s.caller⟩
  | create (s : HeldScope) (held : ScopeReachable node s) (g : Group)
      (run : s.group.self node s.caller = .ok g) : ScopeReachable node ⟨g, s.caller⟩
  | threadSplit (s : HeldScope) (held : ScopeReachable node s) (nthreads : Nat) (g : Group)
      (run : s.group.threadSplit s.caller nthreads = .ok g) (i : Nat) (thread : i < nthreads) :
      ScopeReachable node ⟨g, i⟩

/-! ## Every member holds the scope -/

section

variable {node : Nat → Nat}

/-- The members of a child communicator have split their parent into it. -/
theorem split_same {color : Nat → Nat} {comm child : Comm} {p q : Nat}
    (run : (Group.mpi comm).split node color p = .ok (.mpi child)) (member : q ∈ child.members) :
    q ∈ comm.members ∧ (Group.mpi comm).split node color q = .ok (.mpi child) := by
  simp only [Group.split, Comm.split] at run ⊢
  cases run
  obtain ⟨inSplit, sameNode⟩ := Comm.mem_splitShared.1 member
  obtain ⟨inComm, sameColor⟩ := Comm.mem_select.1 inSplit
  have color_eq : color q = color p := by simpa using sameColor
  refine ⟨inComm, ?_⟩
  rw [color_eq, Comm.splitShared_congr _ sameNode]

theorem self_members (p : Nat) : (Comm.splitShared node (.self p) p).members = [p] := by
  apply Comm.select_members_singleton (List.mem_singleton_self p)
  intro q member
  simp [List.mem_singleton.1 member]

/-- The caller is a member of the group, and every member holds a scope with it. -/
def HeldByMembers (node : Nat → Nat) (s : HeldScope) : Prop :=
  s.caller ∈ s.group.members ∧ ∀ m ∈ s.group.members, ScopeReachable node ⟨s.group, m⟩

/-- A group of the caller alone. -/
theorem heldByMembers_alone {g : Group} {p : Nat} (held : ScopeReachable node ⟨g, p⟩)
    (alone : g.members = [p]) : HeldByMembers node ⟨g, p⟩ := by
  unfold HeldByMembers
  simp only [alone]
  refine ⟨List.mem_singleton_self p, fun m member => ?_⟩
  rw [List.mem_singleton.1 member]
  exact held

theorem heldByMembers_node {comm : Comm} {p : Nat} (member : p ∈ comm.members) :
    HeldByMembers node ⟨.mpi (mNodeComm node comm p), p⟩ := by
  refine ⟨mem_mNodeComm member, fun m memM => ?_⟩
  obtain ⟨inComm, sameNode⟩ := Comm.mem_splitShared.1 memM
  apply ScopeReachable.mpi comm (.enumerator .user) m inComm
  show Except.ok (Group.mpi (mNodeComm node comm m)) = .ok (Group.mpi (mNodeComm node comm p))
  rw [mNodeComm, mNodeComm, Comm.splitShared_congr comm sameNode]

theorem heldByMembers_split {s : HeldScope} {color : Nat → Nat} {g : Group}
    (held : ScopeReachable node s) (run : s.group.split node color s.caller = .ok g)
    (parent : HeldByMembers node s) : HeldByMembers node ⟨g, s.caller⟩ := by
  have child := ScopeReachable.split s held color g run
  obtain ⟨⟨q⟩ | comm | ⟨q, k⟩, caller⟩ := s
  · cases run
    exact heldByMembers_alone child rfl
  · simp only [Group.split, Comm.split] at run
    cases run
    constructor
    · refine Comm.mem_splitShared.2 ⟨Comm.mem_select.2 ⟨parent.1, ?_⟩, rfl⟩
      simp
    · intro m memM
      have run : (Group.mpi comm).split node color caller = .ok (.mpi _) := rfl
      obtain ⟨inComm, same⟩ := split_same run memM
      exact .split ⟨.mpi comm, m⟩ (parent.2 m inComm) color _ same
  · cases run

theorem heldByMembers_create {s : HeldScope} {g : Group} (held : ScopeReachable node s)
    (run : s.group.self node s.caller = .ok g) : HeldByMembers node ⟨g, s.caller⟩ := by
  have child := ScopeReachable.create s held g run
  obtain ⟨⟨q⟩ | comm | ⟨q, k⟩, caller⟩ := s
  · cases run
    exact heldByMembers_alone child rfl
  · cases run
    exact heldByMembers_alone child (self_members caller)
  · cases run

theorem heldByMembers_threadSplit {s : HeldScope} {nthreads i : Nat} {g : Group}
    (held : ScopeReachable node s) (run : s.group.threadSplit s.caller nthreads = .ok g)
    (thread : i < nthreads) : HeldByMembers node ⟨g, i⟩ := by
  have members : g.members = List.range nthreads := by
    obtain ⟨⟨q⟩ | comm | ⟨q, k⟩, caller⟩ := s <;> cases run <;> rfl
  unfold HeldByMembers
  simp only [members]
  refine ⟨List.mem_range.2 thread, fun m memM => ?_⟩
  exact .threadSplit s held nthreads g run m (List.mem_range.1 memM)

/-- **The holders of a scope are the members of its group.** -/
theorem ScopeReachable.members {s : HeldScope} (held : ScopeReachable node s) :
    HeldByMembers node s := by
  induction held with
  | process p => exact heldByMembers_alone (.process p) rfl
  | mpi comm iscope p member g run =>
      have scope := ScopeReachable.mpi comm iscope p member g run
      cases iscope with
      | other code beyond => cases run
      | enumerator value =>
          cases value with
          | process =>
              cases run
              exact heldByMembers_alone scope rfl
          | system =>
              cases run
              exact heldByMembers_node member
          | user =>
              cases run
              exact heldByMembers_node member
          | job =>
              cases run
              exact heldByMembers_node member
  | split s held color g run ih => exact heldByMembers_split held run ih
  | create s held g run ih => exact heldByMembers_create held run
  | threadSplit s held nthreads g run i thread ih =>
      exact heldByMembers_threadSplit held run thread

end

/-! ## Ranks -/

/-- Whenever the two calls succeed, the members of the group report distinct ranks
in `[0, size)`. -/
def RanksIdentify (g : Group) : Prop :=
  (∀ m ∈ g.members, ∀ size rank, qvGroupSize ⟨g, m⟩ = (.success, size) →
    qvGroupRank ⟨g, m⟩ = (.success, rank) → 0 ≤ rank ∧ rank < size) ∧
  ∀ m ∈ g.members, ∀ m' ∈ g.members, m ≠ m' → ∀ rank rank',
    qvGroupRank ⟨g, m⟩ = (.success, rank) → qvGroupRank ⟨g, m'⟩ = (.success, rank') → rank ≠ rank'

/-- A group of threads. -/
def Group.IsThread : Group → Prop
  | thread _ _ => True
  | _ => False

theorem ranksIdentify_process (p : Nat) : RanksIdentify (.process p) := by
  constructor
  · intro m _ size rank sized ranked
    cases sized
    cases ranked
    exact ⟨le_refl 0, Int.zero_lt_one⟩
  · intro m member m' member' apart
    exact absurd ((List.mem_singleton.1 member).trans (List.mem_singleton.1 member').symm) apart

theorem ranksIdentify_mpi (comm : Comm) : RanksIdentify (.mpi comm) := by
  constructor
  · intro m member size rank sized ranked
    cases sized
    cases ranked
    have below : comm.rank m < comm.size := List.idxOf_lt_length_of_mem member
    simp only [Group.rank, Group.size]
    omega
  · intro m member m' member' apart rank rank' ranked ranked' same
    cases ranked
    cases ranked'
    simp only [Group.rank] at same
    have ranks : comm.rank m = comm.rank m' := by omega
    exact apart ((List.idxOf_inj member).1 ranks)

/-- **When ranks identify the members of a scope**, for every scope a program can
come by: exactly if it is not a scope of threads. -/
theorem ranks_identify_iff (node : Nat → Nat) (s : HeldScope) (held : ScopeReachable node s) :
    RanksIdentify s.group ↔ ¬ s.group.IsThread := by
  have caller := held.members.1
  obtain ⟨⟨p⟩ | comm | ⟨p, nthreads⟩, m⟩ := s
  · exact iff_of_true (ranksIdentify_process p) fun thread => thread
  · exact iff_of_true (ranksIdentify_mpi comm) fun thread => thread
  · refine iff_of_false ?_ fun not => not True.intro
    rintro ⟨inRange, -⟩
    have := inRange m caller _ _ rfl rfl
    exact absurd this.2 (lt_irrefl _)

/-- Three processes on a node split by colour: the two of colour 1 have ranks. -/
theorem ranks_identify_threeProcesses :
    ∃ s : HeldScope, ScopeReachable (fun _ => 0) s ∧ s.group.members = [0, 2] ∧
      RanksIdentify s.group := by
  have intrinsic : ScopeReachable (fun _ => 0) ⟨.mpi ⟨[0, 1, 2], by decide⟩, 0⟩ :=
    .mpi ⟨[0, 1, 2], by decide⟩ (.enumerator .user) 0 (by decide) _ rfl
  have held := intrinsic.split _ (fun p => if p = 1 then 0 else 1) _ rfl
  exact ⟨_, held, rfl, (ranks_identify_iff _ _ held).2 fun thread => thread⟩

/-- Two threads of a process: both are told that they have rank 12 of 12. -/
theorem threads_share_rank :
    ∃ s s' : HeldScope, ScopeReachable id s ∧ ScopeReachable id s' ∧ s.group = s'.group ∧
      s.caller ≠ s'.caller ∧ qvGroupRank s = (.success, 12) ∧ qvGroupRank s' = (.success, 12) ∧
      qvGroupSize s = (.success, 12) ∧ ¬ RanksIdentify s.group := by
  refine ⟨⟨.thread 0 2, 0⟩, ⟨.thread 0 2, 1⟩, ?_, ?_, rfl, by decide, rfl, rfl, rfl, ?_⟩
  · exact .threadSplit ⟨.process 0, 0⟩ (.process 0) 2 _ rfl 0 (by decide)
  · exact .threadSplit ⟨.process 0, 0⟩ (.process 0) 2 _ rfl 1 (by decide)
  · rintro ⟨inRange, -⟩
    exact absurd (inRange 0 (by decide) _ _ rfl rfl).2 (by decide)

end QuoVadis.Kernel
