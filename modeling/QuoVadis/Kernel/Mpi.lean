/-
# Kernel.Mpi -- communicators, and the port the nodes should agree on

A communicator is its members in rank order; `MPI_Comm_split` and
`MPI_Comm_split_type` make smaller ones of it.  From these the constructor of
`qvi_mpi` makes the node communicator of every process and, for the process with
node rank zero, the communicator of the node representatives, over which
`get_portno_from_env` lets the representatives exchange their `QV_PORT`.

The split that should bring the representatives of all nodes together splits the
node communicator, so every representative is alone in what it gets
(`mCreateAdminComms_rep`), and the exchange reaches nobody:
`portAgreement_iff` says that the nodes agree exactly if they did before.
-/
import QuoVadis.Kernel.Base

namespace QuoVadis.Kernel

set_option autoImplicit false

/-! ## Communicators -/

/-- An MPI communicator: the processes in it, in rank order. -/
structure Comm where
  members : List Nat
  nodup : members.Nodup

namespace Comm

/-- `MPI_Comm_size`. -/
def size (comm : Comm) : Nat := comm.members.length

/-- `MPI_Comm_rank`, as `p` sees it. -/
def rank (comm : Comm) (p : Nat) : Nat := comm.members.idxOf p

/-- `MPI_COMM_SELF` of a process. -/
def self (p : Nat) : Comm := ⟨[p], List.nodup_singleton p⟩

/-- The members that pass a test, ordered by key and, for equal keys, by rank. -/
def select (comm : Comm) (key : Nat → Int) (keep : Nat → Bool) : Comm where
  members := stdSort (fun a b => decide (key a < key b)) (comm.members.filter keep)
  nodup := (stdSort_perm _ _).nodup_iff.2 (comm.nodup.filter _)

/-- `MPI_Comm_split`, as `p` sees it.  No colour is `MPI_UNDEFINED`, no
communicator is `MPI_COMM_NULL`. -/
def split (comm : Comm) (color : Nat → Option Nat) (key : Nat → Int) (p : Nat) : Option Comm :=
  match color p with
  | none => none
  | some c => some (comm.select key fun q => color q = some c)

/-- `MPI_Comm_split_type` with `MPI_COMM_TYPE_SHARED` and key 0: the members on the
node of `p`. -/
def splitShared (node : Nat → Nat) (comm : Comm) (p : Nat) : Comm :=
  comm.select (fun _ => 0) fun q => node q = node p

theorem mem_select {comm : Comm} {key : Nat → Int} {keep : Nat → Bool} {p : Nat} :
    p ∈ (comm.select key keep).members ↔ p ∈ comm.members ∧ keep p = true := by
  simp only [select, mem_stdSort, List.mem_filter]

theorem mem_splitShared {node : Nat → Nat} {comm : Comm} {p q : Nat} :
    q ∈ (splitShared node comm p).members ↔ q ∈ comm.members ∧ node q = node p := by
  rw [splitShared, mem_select]
  simp

/-- The members of a node see one node communicator. -/
theorem splitShared_congr {node : Nat → Nat} (comm : Comm) {p q : Nat} (same : node q = node p) :
    splitShared node comm q = splitShared node comm p := by
  simp only [splitShared, same]

/-- Two members of rank zero are one. -/
theorem eq_of_rank_zero {comm : Comm} {p q : Nat} (memP : p ∈ comm.members)
    (zeroP : comm.rank p = 0) (zeroQ : comm.rank q = 0) : p = q :=
  (List.idxOf_inj memP).1 (zeroP.trans zeroQ.symm)

/-- A selection that only keeps one member is that member alone. -/
theorem select_members_singleton {comm : Comm} {key : Nat → Int} {keep : Nat → Bool} {p : Nat}
    (memP : p ∈ comm.members) (only : ∀ q ∈ comm.members, keep q = true ↔ q = p) :
    (comm.select key keep).members = [p] := by
  have perm : (comm.select key keep).members.Perm [p] := by
    refine (List.perm_ext_iff_of_nodup (comm.select key keep).nodup (List.nodup_singleton p)).2 ?_
    intro q
    rw [mem_select, List.mem_singleton]
    constructor
    · rintro ⟨member, kept⟩
      exact (only q member).1 kept
    · rintro rfl
      exact ⟨memP, (only q memP).2 rfl⟩
  exact List.perm_singleton.1 perm

end Comm

/-! ## The communicators of `qvi_mpi` -/

section Port

variable (node : Nat → Nat) (world : Comm) (env : Nat → Option Nat)

/-- `m_node_comm` of a process. -/
def mNodeComm (p : Nat) : Comm := Comm.splitShared node world p

/-- The colour of a process in `m_create_admin_comms`. -/
def repColor (p : Nat) : Option Nat :=
  if (mNodeComm node world p).rank p = 0 then some 0 else none

/-- `m_create_admin_comms`: `m_node_rep_comm` of a process. -/
def mCreateAdminComms (p : Nat) : Option Comm :=
  (mNodeComm node world p).split (repColor node world) (fun q => world.rank q) p

/-- `qvi_port_from_env` with `QV_PORT` unset or a number. -/
def qviPortFromEnv (p : Nat) : Int :=
  match env p with
  | none => portUnset
  | some port => port

/-- `get_portno_from_env` over a communicator; all its members get the same.
`MPI_Allreduce` and `MPI_Allgather` run over the members in rank order. -/
def getPortnoFromEnv (comm : Comm) (portno : Int) : Int :=
  let anyset := comm.members.any fun q => (env q).isSome
  if anyset then
    let portnos := comm.members.map (qviPortFromEnv env)
    -- pick one from the group
    portnos.foldl (fun portno pn => if pn = portUnset then portno else pn) portno
  else portno

/-- The `portno` of `m_start_daemons` after `get_portno_from_env`; processes that
represent no node have none. -/
def repPortno (p : Nat) : Option Int :=
  (mCreateAdminComms node world p).map fun rep => getPortnoFromEnv env rep portUnset

/-- A node representative: node rank zero. -/
def IsRep (p : Nat) : Prop :=
  p ∈ world.members ∧ (mNodeComm node world p).rank p = 0

/-- All representatives hold the same port, and it is a port that is set at one of
them if one of them has it set. -/
def PortAgreement : Prop :=
  (∀ p q, IsRep node world p → IsRep node world q →
    repPortno node world env p = repPortno node world env q) ∧
  ∀ p, IsRep node world p → (env p).isSome →
    ∀ q, IsRep node world q →
      ∃ r port, IsRep node world r ∧ env r = some port ∧
        repPortno node world env q = some (port : Int)

variable {node world env}

theorem mem_mNodeComm {p : Nat} (member : p ∈ world.members) :
    p ∈ (mNodeComm node world p).members :=
  Comm.mem_splitShared.2 ⟨member, rfl⟩

/-- **A representative is alone in the communicator of the representatives.** -/
theorem mCreateAdminComms_rep {p : Nat} (rep : IsRep node world p) :
    ∃ comm, mCreateAdminComms node world p = some comm ∧ comm.members = [p] := by
  obtain ⟨member, zero⟩ := rep
  have colored : repColor node world p = some 0 := if_pos zero
  unfold mCreateAdminComms Comm.split
  rw [colored]
  refine ⟨_, rfl, ?_⟩
  apply Comm.select_members_singleton (mem_mNodeComm member)
  intro q inNode
  rw [decide_eq_true_iff]
  constructor
  · intro chosen
    have sameNode : mNodeComm node world q = mNodeComm node world p :=
      Comm.splitShared_congr world (Comm.mem_splitShared.1 inNode).2
    have zeroQ : (mNodeComm node world p).rank q = 0 := by
      by_contra other
      rw [← sameNode] at other
      simp [repColor, other] at chosen
    exact Comm.eq_of_rank_zero inNode zeroQ zero
  · rintro rfl
    exact colored

/-- Alone, a representative finds its own setting. -/
theorem repPortno_rep {p : Nat} (rep : IsRep node world p) :
    repPortno node world env p = some (qviPortFromEnv env p) := by
  obtain ⟨comm, made, alone⟩ := mCreateAdminComms_rep rep
  rw [repPortno, made, Option.map_some, getPortnoFromEnv, alone]
  cases set : env p with
  | none => simp [set, qviPortFromEnv]
  | some port =>
      have notUnset : (port : Int) ≠ portUnset := by
        unfold portUnset
        omega
      simp [set, qviPortFromEnv, notUnset]

theorem qviPortFromEnv_inj {p q : Nat} :
    qviPortFromEnv env p = qviPortFromEnv env q ↔ env p = env q := by
  unfold qviPortFromEnv portUnset
  cases env p with
  | none => cases env q <;> simp
  | some port =>
      cases env q with
      | none => simp
      | some port' =>
          rw [Option.some.injEq]
          exact Int.ofNat_inj

/-- **When the nodes agree on a port**: exactly if all representatives have the
same setting to begin with, which one node always has. -/
theorem portAgreement_iff (node : Nat → Nat) (world : Comm) (env : Nat → Option Nat) :
    PortAgreement node world env ↔
      ∀ p q, IsRep node world p → IsRep node world q → env p = env q := by
  constructor
  · rintro ⟨same, -⟩ p q repP repQ
    have ports := same p q repP repQ
    rw [repPortno_rep repP, repPortno_rep repQ, Option.some.injEq] at ports
    exact qviPortFromEnv_inj.1 ports
  · intro same
    constructor
    · intro p q repP repQ
      rw [repPortno_rep repP, repPortno_rep repQ, qviPortFromEnv_inj.2 (same p q repP repQ)]
    · intro p repP set q repQ
      obtain ⟨port, isPort⟩ := Option.isSome_iff_exists.1 set
      have there : env q = some port := (same p q repP repQ).symm.trans isPort
      refine ⟨q, port, repQ, there, ?_⟩
      rw [repPortno_rep repQ, qviPortFromEnv, there]

end Port

/-- Two processes on two nodes; the port is set at the first. -/
theorem portAgreement_twoNodes :
    ¬ PortAgreement id ⟨[0, 1], by decide⟩ (fun p => if p = 0 then some 55995 else none) := by
  rintro ⟨same, -⟩
  have ports := same 0 1 ⟨by decide, by decide⟩ ⟨by decide, by decide⟩
  exact absurd ports (by decide)

end QuoVadis.Kernel
