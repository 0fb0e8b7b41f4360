/-
# Kernel.Coll -- the collective operations and the collective split

`qvi_coll` moves typed values over a group: `gather` to the root, `scatter` from
it, `bcast` as a scatter of copies.  A group here has `k + 1` members and the
root is member 0.  What an operation waits for at least is documented by MPI and
carried by `Sync`; an implementation may wait for more.

`split` is `qvi_hwsplit::split` as one member runs it.  `split_agrees_iff` says
when its members stay together: exactly when nobody's bind stack is empty, so that
all of them get as far as the first gather, and the root's computation neither
throws nor stops, nor succeeds with fewer colours than members.

`collSplit` is what the members get when they do stay together.  A fault of it that
is no error code is the fault of one member, and the others wait for it.
-/
import QuoVadis.Kernel.SplitOutcome
import QuoVadis.Theory.Collective

namespace QuoVadis.Kernel

open QuoVadis.Theory.Collective

set_option autoImplicit false

/-- The types `qvi_hwsplit` moves. -/
inductive Payload where
  | tid
  | affinity
  | color
  | hwpool
  | rc
  deriving DecidableEq

/-- Their values. -/
abbrev Payload.Val : Payload → Type
  | .tid => Nat
  | .affinity => Bitmap
  | .color => Int
  | .hwpool => Hwpool
  | .rc => Rc

/-- The operations of a group. -/
inductive CollOp where
  | gather (type : Payload)
  | barrier
  | scatter (type : Payload)
  deriving DecidableEq

/-- What a member hands in: its value, nothing, or (the root) a value for everybody. -/
abbrev CollOp.Send : CollOp → Type
  | .gather type => type.Val
  | .barrier => Unit
  | .scatter type => List type.Val

/-- What a member gets: everybody's values (the root), nothing, or its value. -/
abbrev CollOp.Recv : CollOp → Type
  | .gather type => List type.Val
  | .barrier => Unit
  | .scatter type => Option type.Val

/-- Who waits for whom: at least what the data flow asks for. -/
structure Sync (k : Nat) where
  needs : CollOp → Fin (k + 1) → Fin (k + 1) → Bool
  gather : ∀ type j, needs (.gather type) 0 j = true
  barrier : ∀ i j, needs .barrier i j = true
  scatter : ∀ type i, needs (.scatter type) i 0 = true

/-- Everybody waits for everybody. -/
def Sync.full (k : Nat) : Sync k where
  needs := fun _ _ _ => true
  gather := fun _ _ => rfl
  barrier := fun _ _ => rfl
  scatter := fun _ _ => rfl

/-- The member that gathers and scatters. -/
abbrev rootRank {k : Nat} : Fin (k + 1) := 0

/-- The group's operations. -/
abbrev coll {k : Nat} (sync : Sync k) : Interface (Fin (k + 1)) where
  Op := CollOp
  Send := CollOp.Send
  Recv := CollOp.Recv
  deliver
    | .gather _, rank, values => if rank = 0 then (List.finRange (k + 1)).filterMap values else []
    | .barrier, _, _ => ()
    | .scatter _, rank, values => (values 0).bind fun send => send[rank.val]?
  needs := sync.needs

section Operations

variable {k : Nat} {sync : Sync k}

theorem receive_gather (type : Payload) (send : Fin (k + 1) → type.Val) :
    receive (coll sync) (CollOp.gather type) send 0 = List.ofFn send := by
  simp only [receive, coll, sync.gather, if_true]
  rw [List.filterMap_eq_map', List.ofFn_eq_map]

theorem receive_scatter (type : Payload) (send : Fin (k + 1) → List type.Val)
    (rank : Fin (k + 1)) :
    receive (coll sync) (CollOp.scatter type) send rank = (send 0)[rank.val]? := by
  simp only [receive, coll, sync.scatter, if_true]
  rfl

variable (sync) in
/-- `qvi_coll::gather`.  The received vector is only filled on the root. -/
def qviCollGather (type : Payload) (send : type.Val) : Prog (coll sync) (List type.Val) :=
  .perform (coll sync) (CollOp.gather type) send

/-- `qvi_bbuff::unpack` of what the group's scatter delivered. -/
def unpack {type : Payload} : Option type.Val → Prog (coll sync) type.Val
  | some recv => pure recv
  | none => .halt

variable (sync) in
/-- `qvi_coll::scatter`.  The root packs `send[i]` for every `i` below the group
size, whatever the length of the vector. -/
def qviCollScatter (type : Payload) (rank : Fin (k + 1)) (send : List type.Val) :
    Prog (coll sync) type.Val := do
  let txbuffs ←
    if rank = 0 then
      if k + 1 ≤ send.length then pure (send.take (k + 1)) else .halt
    else pure []
  let rxbuff ← Prog.perform (coll sync) (CollOp.scatter type) txbuffs
  unpack rxbuff

variable (sync) in
/-- `qvi_coll::bcast`. -/
def qviCollBcast (type : Payload) (rank : Fin (k + 1)) (value : type.Val) :
    Prog (coll sync) type.Val :=
  qviCollScatter sync type rank (if rank = 0 then List.replicate (k + 1) value else [])

/-- `qvi_group::barrier`. -/
def qviBarrier (sync : Sync k) : Prog (coll sync) Unit :=
  .perform (coll sync) CollOp.barrier ()

end Operations

/-! ## The collective split -/

/-- What a member brings to a split: its ID, the task of its scope's group, its
colour, its scope's pool, and the arguments of the call. -/
structure SplitArgs where
  tid : Nat
  task : Task
  color : Int
  hwpool : Hwpool
  npieces : Nat
  objType : HwObjType

namespace SplitArgs

/-- The member's bind stack has a top. -/
def Bound (args : SplitArgs) : Prop := args.task.stack ≠ []

instance (args : SplitArgs) : Decidable args.Bound := inferInstanceAs (Decidable (_ ≠ _))

/-- The top of the member's bind stack. -/
def affinity (args : SplitArgs) : Bitmap := args.task.stack.head?.getD ∅

theorem Bound.construct {args : SplitArgs} (bound : args.Bound) :
    Hwsplit.construct args.task = .ok args.affinity := by
  obtain ⟨top, rest, stack⟩ := List.exists_cons_of_ne_nil bound
  rw [Hwsplit.construct_ok_iff, affinity, stack]
  rfl

end SplitArgs

section Split

variable {k : Nat} (sync : Sync k) (hwloc : Hwloc)

/-- The `qvi_hwsplit` of a member after `m_gather_split_data`. -/
def gathered (rank : Fin (k + 1)) (args : SplitArgs) (taskAffinities : List Bitmap)
    (colors : List Int) (hwpools : List Hwpool) : Hwsplit where
  hwloc := hwloc
  groupSize := k + 1
  splitSize := args.npieces
  splitAtType := args.objType
  baseHwpool := if rank = 0 then .setUnion hwpools else default
  hwpools := if rank = 0 then List.replicate (k + 1) default else []
  colors := colors
  splitCpusets := []
  taskAffinities := taskAffinities

/-- `m_scatter_split_results`. -/
def mScatterSplitResults (rank : Fin (k + 1)) (hwsplit : Hwsplit) :
    Prog (coll sync) (Int × Hwpool) := do
  let colorp ← qviCollScatter sync .color rank hwsplit.colors
  let result ← qviCollScatter sync .hwpool rank hwsplit.hwpools
  return (colorp, result)

/-- `split` from the barrier on. -/
def shareResults (rank : Fin (k + 1)) (hwsplit : Hwsplit) (rc2 : Rc) :
    Prog (coll sync) (Qv (Int × Hwpool)) := do
  qviBarrier sync
  let rc2 ← qviCollBcast sync .rc rank rc2
  if rc2 ≠ .success then
    return .error (.ret rc2)
  let results ← mScatterSplitResults sync rank hwsplit
  return .ok results

/-- `qvi_hwsplit::split`, as member `rank` runs it.  The exception of the constructor
leaves the function before anything is sent, and one from `m_split` leaves it on the
root. -/
def split (rank : Fin (k + 1)) (args : SplitArgs) : Prog (coll sync) (Qv (Int × Hwpool)) :=
  match Hwsplit.construct args.task with
  | .error fault => return .error fault
  | .ok affinity => do
      let _ ← qviCollGather sync .tid args.tid
      let taskAffinities ← qviCollGather sync .affinity affinity
      let colors ← qviCollGather sync .color args.color
      let hwpools ← qviCollGather sync .hwpool args.hwpool
      let hwsplit := gathered hwloc rank args taskAffinities colors hwpools
      if rank = 0 then
        match hwsplit.mSplit with
        | .ok hwsplit => shareResults sync rank hwsplit .success
        | .error (.ret rc2) => shareResults sync rank hwsplit rc2
        | .error (.thrown rc) => return .error (.thrown rc)
        | .error .trap => .halt
      else shareResults sync rank hwsplit .success

/-! ## One operation of a family of members -/

variable {sync}

theorem through_gather {α : Type} {type : Payload} {send : Fin (k + 1) → type.Val}
    {f : Fin (k + 1) → List type.Val → Prog (coll sync) α} {ops : List CollOp}
    {last : Fin (k + 1) → Prog (coll sync) α}
    (more : Through (fun i => f i (receive (coll sync) (CollOp.gather type) send i)) ops last) :
    Through (fun i => (qviCollGather sync type (send i)).bind (f i)) (CollOp.gather type :: ops) last :=
  .call (fun _ => rfl) more

theorem qviCollScatter_eq {type : Payload} {rank : Fin (k + 1)} {send : List type.Val}
    (enough : rank = 0 → k + 1 ≤ send.length) :
    qviCollScatter sync type rank send =
      .call (CollOp.scatter type) (if rank = 0 then send.take (k + 1) else []) unpack := by
  unfold qviCollScatter
  by_cases root : rank = 0
  · rw [if_pos root, if_pos (enough root), if_pos root]
    rfl
  · rw [if_neg root, if_neg root]
    rfl

/-- Members other than the root scatter nothing. -/
theorem qviCollScatter_other (type : Payload) {rank : Fin (k + 1)} (other : rank ≠ 0)
    (send send' : List type.Val) :
    qviCollScatter sync type rank send = qviCollScatter sync type rank send' := by
  unfold qviCollScatter
  rw [if_neg other, if_neg other]

/-- A scatter of a vector that is long enough. -/
theorem scatter_call {α : Type} {type : Payload} {send : Fin (k + 1) → List type.Val}
    {f : Fin (k + 1) → type.Val → Prog (coll sync) α} (long : k + 1 ≤ (send 0).length) (i : Fin (k + 1)) :
    (qviCollScatter sync type i (send i)).bind (f i) =
      .call (CollOp.scatter type) (if i = 0 then (send i).take (k + 1) else [])
        fun recv => (unpack recv).bind (f i) := by
  rw [qviCollScatter_eq (by rintro rfl; exact long)]
  rfl

theorem receive_scatter_take {type : Payload} {send : Fin (k + 1) → List type.Val}
    {value : Fin (k + 1) → type.Val} (sent : ∀ i : Fin (k + 1), (send 0)[i.val]? = some (value i))
    (i : Fin (k + 1)) :
    receive (coll sync) (CollOp.scatter type)
      (fun i => if i = 0 then (send i).take (k + 1) else []) i = some (value i) := by
  rw [receive_scatter, if_pos rfl, List.getElem?_take, if_pos i.isLt, sent]

theorem through_scatter {α : Type} (type : Payload) (send : Fin (k + 1) → List type.Val)
    (value : Fin (k + 1) → type.Val) {f : Fin (k + 1) → type.Val → Prog (coll sync) α}
    {ops : List CollOp} {last : Fin (k + 1) → Prog (coll sync) α}
    (long : k + 1 ≤ (send 0).length) (sent : ∀ i : Fin (k + 1), (send 0)[i.val]? = some (value i))
    (more : Through (fun i => f i (value i)) ops last) :
    Through (fun i => (qviCollScatter sync type i (send i)).bind (f i))
      (CollOp.scatter type :: ops) last := by
  refine .call (scatter_call long) ?_
  simp only [receive_scatter_take sent]
  exact more

/-! ## The rounds of a split -/

variable {hwloc} (args : Fin (k + 1) → SplitArgs)

variable (hwloc) in
/-- The root's object when it calls `m_split`. -/
def rootSplit : Hwsplit :=
  .prepared hwloc (args 0).npieces (args 0).objType
    (.setUnion (List.ofFn fun i => (args i).hwpool)) (List.ofFn fun i => (args i).color)
    (List.ofFn fun i => (args i).affinity)

theorem rootSplit_ready : (rootSplit hwloc args).Ready := by
  apply Hwsplit.prepared_ready
  · rw [← List.length_pos_iff, List.length_ofFn]
    omega
  · rw [List.length_ofFn, List.length_ofFn]

theorem gathered_root :
    gathered hwloc (0 : Fin (k + 1)) (args 0) (List.ofFn fun i => (args i).affinity)
      (List.ofFn fun i => (args i).color) (List.ofFn fun i => (args i).hwpool) =
        rootSplit hwloc args := by
  simp [gathered, rootSplit, Hwsplit.prepared]

/-- The gathers of the split data. -/
def gatherOps : List CollOp :=
  [.gather .tid, .gather .affinity, .gather .color, .gather .hwpool]

/-- What every member does: the gathers, the barrier, the broadcast of the status. -/
def statusOps : List CollOp := gatherOps ++ [.barrier, .scatter .rc]

/-- The scatters of the results. -/
def resultOps : List CollOp := [.scatter .color, .scatter .hwpool]

/-- Members other than the root do not look at their object. -/
theorem shareResults_other {rank : Fin (k + 1)} (other : rank ≠ 0) (hs hs' : Hwsplit) (rc rc' : Rc) :
    shareResults sync rank hs rc = shareResults sync rank hs' rc' := by
  simp only [shareResults, mScatterSplitResults, qviCollBcast, other, if_false,
    qviCollScatter_other .color other hs.colors hs'.colors,
    qviCollScatter_other .hwpool other hs.hwpools hs'.hwpools]

/-- Where an exception or a stop leaves the root. -/
def abandoned : Fault → Prog (coll sync) (Qv (Int × Hwpool))
  | .thrown rc => .done (.error (.thrown rc))
  | _ => .halt

variable (sync hwloc) in
/-- How a member goes on after the gathers. -/
def afterGathers (rank : Fin (k + 1)) : Prog (coll sync) (Qv (Int × Hwpool)) :=
  if rank = 0 then
    match (rootSplit hwloc args).mSplit with
    | .ok hwsplit => shareResults sync 0 hwsplit .success
    | .error (.ret rc2) => shareResults sync 0 (rootSplit hwloc args) rc2
    | .error fault => abandoned fault
  else shareResults sync rank (rootSplit hwloc args) .success

variable (sync hwloc) in
/-- What the members have gathered is the root's object. -/
theorem split_gathered :
    (fun i : Fin (k + 1) =>
      let hwsplit := gathered hwloc i (args i)
        (receive (coll sync) (CollOp.gather .affinity) (fun i => (args i).affinity) i)
        (receive (coll sync) (CollOp.gather .color) (fun i => (args i).color) i)
        (receive (coll sync) (CollOp.gather .hwpool) (fun i => (args i).hwpool) i)
      if i = 0 then
        match hwsplit.mSplit with
        | .ok hwsplit => shareResults sync i hwsplit .success
        | .error (.ret rc2) => shareResults sync i hwsplit rc2
        | .error (.thrown rc) => Prog.done (.error (.thrown rc))
        | .error .trap => .halt
      else shareResults sync i hwsplit .success) = afterGathers sync hwloc args := by
  funext i
  by_cases here : i = 0
  · subst here
    simp only [receive_gather, gathered_root, afterGathers, if_true]
    cases (rootSplit hwloc args).mSplit with
    | ok hs => rfl
    | error fault => cases fault <;> rfl
  · simp only [afterGathers, here, if_false]
    exact shareResults_other here _ _ _ _

/-- A split after the gathers. -/
theorem through_gathers (bound : ∀ i, (args i).Bound) {ops : List CollOp}
    {last : Fin (k + 1) → Prog (coll sync) (Qv (Int × Hwpool))}
    (more : Through (afterGathers sync hwloc args) ops last) :
    Through (fun i => split sync hwloc i (args i)) (gatherOps ++ ops) last := by
  simp only [split, (bound _).construct]
  refine through_gather (through_gather (through_gather (through_gather ?_)))
  rw [← split_gathered] at more
  exact more

/-- The root has results for everybody. -/
theorem afterGathers_ok {hs : Hwsplit} (run : (rootSplit hwloc args).mSplit = .ok hs) :
    afterGathers sync hwloc args = fun i => shareResults sync i hs .success := by
  funext i
  by_cases here : i = 0
  · subst here
    rw [afterGathers, if_pos rfl, run]
  · rw [afterGathers, if_neg here]
    exact shareResults_other here _ _ _ _

/-- The root has an error code for everybody. -/
theorem afterGathers_ret {rc : Rc} (run : (rootSplit hwloc args).mSplit = .error (.ret rc)) :
    afterGathers sync hwloc args = fun i => shareResults sync i (rootSplit hwloc args) rc := by
  funext i
  by_cases here : i = 0
  · subst here
    rw [afterGathers, if_pos rfl, run]
  · rw [afterGathers, if_neg here]
    exact shareResults_other here _ _ _ _

/-- The barrier and the broadcast: afterwards everybody knows the root's status. -/
theorem through_status (hs : Hwsplit) (rc : Rc) :
    Through (fun i => shareResults sync i hs rc) [CollOp.barrier, CollOp.scatter .rc]
      fun i => if rc ≠ .success then .done (.error (.ret rc))
        else (mScatterSplitResults sync i hs).bind fun results => .done (.ok results) := by
  refine .call (fun _ => rfl) ?_
  refine through_scatter .rc (fun i => if i = 0 then List.replicate (k + 1) rc else [])
    (fun _ => rc) (by simp) (fun i => ?_) ?_
  · rw [if_pos rfl]
    exact List.getElem?_replicate_of_lt i.isLt
  · exact .nil _

theorem scatterResults_eq (rank : Fin (k + 1)) (hs : Hwsplit) :
    (mScatterSplitResults sync rank hs).bind (fun results => .done (.ok results)) =
      (qviCollScatter sync .color rank hs.colors).bind fun colorp =>
        (qviCollScatter sync .hwpool rank hs.hwpools).bind fun result =>
          (.done (.ok (colorp, result)) : Prog (coll sync) (Qv (Int × Hwpool))) := by
  show ((qviCollScatter sync .color rank hs.colors).bind _).bind _ = _
  rw [Prog.bind_assoc]
  congr 1
  funext colorp
  show ((qviCollScatter sync .hwpool rank hs.hwpools).bind _).bind _ = _
  rw [Prog.bind_assoc]
  rfl

theorem through_results {hs : Hwsplit} (colors : hs.colors.length = k + 1)
    (hwpools : hs.hwpools.length = k + 1) :
    Through (fun i => (mScatterSplitResults sync i hs).bind fun results => .done (.ok results))
      resultOps fun i => (.done (.ok (hs.colors[i.val], hs.hwpools[i.val])) :
        Prog (coll sync) (Qv (Int × Hwpool))) := by
  simp only [scatterResults_eq]
  refine through_scatter .color (fun _ => hs.colors) (fun i => hs.colors[i.val]) (by omega)
    (fun i => List.getElem?_eq_getElem _) ?_
  refine through_scatter .hwpool (fun _ => hs.hwpools) (fun i => hs.hwpools[i.val]) (by omega)
    (fun i => List.getElem?_eq_getElem _) ?_
  exact .nil _

/-! ## How a split can go -/

/-- The root has a colour and a pool for everybody: everybody gets theirs. -/
theorem through_split_ok (bound : ∀ i, (args i).Bound) {hs : Hwsplit}
    (run : (rootSplit hwloc args).mSplit = .ok hs)
    (colors : hs.colors.length = k + 1) (hwpools : hs.hwpools.length = k + 1) :
    Through (fun i => split sync hwloc i (args i)) (statusOps ++ resultOps)
      fun i => .done (.ok (hs.colors[i.val], hs.hwpools[i.val])) := by
  refine through_gathers args bound ?_
  rw [afterGathers_ok args run]
  exact (through_status hs .success).append (through_results colors hwpools)

/-- The root's computation returns an error code: everybody returns it. -/
theorem through_split_ret (bound : ∀ i, (args i).Bound) {rc : Rc}
    (run : (rootSplit hwloc args).mSplit = .error (.ret rc))
    (failure : rc ≠ .success) :
    Through (fun i => split sync hwloc i (args i)) statusOps fun _ => .done (.error (.ret rc)) := by
  refine through_gathers args bound ?_
  rw [afterGathers_ret args run]
  have status : Through (fun i => shareResults sync i (rootSplit hwloc args) rc) _ _ :=
    through_status (rootSplit hwloc args) rc
  simpa only [failure, ne_eq, not_false_eq_true, if_true] using status

end Split

/-! ## The split as a function -/

/-- The object the root of a list of members splits. -/
def splitObject (hwloc : Hwloc) (root : SplitArgs) (others : List SplitArgs) : Hwsplit :=
  .prepared hwloc root.npieces root.objType
    (.setUnion ((root :: others).map fun a => a.hwpool)) ((root :: others).map fun a => a.color)
    ((root :: others).map fun a => a.affinity)

/-- What the members of a group get from a collective split, in rank order.  The
first is the root, whose number of pieces and type count; it packs a colour and a
pool for everybody.  A result or an error code is for all members.  An exception is the
constructor's on a member whose bind stack is empty, or `m_split`'s on the root, and a
stop is the root's: there the other members wait for ever. -/
def collSplit (hwloc : Hwloc) : List SplitArgs → Qv (List (Int × Hwpool))
  | [] => .error .trap
  | root :: others =>
      if ∀ member ∈ root :: others, member.Bound then do
        let hs ← (splitObject hwloc root others).mSplit
        if others.length + 1 ≤ hs.colors.length ∧ others.length + 1 ≤ hs.hwpools.length then
          return hs.colors.zip hs.hwpools
        else .error .trap
      else .error (.thrown .err)

theorem splitObject_ready (hwloc : Hwloc) (root : SplitArgs) (others : List SplitArgs) :
    (splitObject hwloc root others).Ready :=
  Hwsplit.prepared_ready _ _ _ _ _ _ (by simp) (by simp)

theorem splitObject_groupSize (hwloc : Hwloc) (root : SplitArgs) (others : List SplitArgs) :
    (splitObject hwloc root others).groupSize = others.length + 1 := by
  simp [splitObject, Hwsplit.prepared]

/-- Members that get a result, or an error code, have all constructed their objects. -/
theorem collSplit_bound {hwloc : Hwloc} {members : List SplitArgs} :
    (∀ {results}, collSplit hwloc members = .ok results → ∀ member ∈ members, member.Bound) ∧
      ∀ {rc}, collSplit hwloc members = .error (.ret rc) → ∀ member ∈ members, member.Bound := by
  cases members with
  | nil => exact ⟨fun run => (by cases run), fun run => (by cases run)⟩
  | cons root others =>
      by_cases bound : ∀ member ∈ root :: others, member.Bound
      · exact ⟨fun _ => bound, fun _ => bound⟩
      · rw [collSplit, if_neg bound]
        exact ⟨fun run => (by cases run), fun run => (by cases run)⟩

/-- **A split that succeeds has divided the pieces.** -/
theorem collSplit_ok {hwloc : Hwloc} {root : SplitArgs} {others : List SplitArgs}
    {results : List (Int × Hwpool)} (run : collSplit hwloc (root :: others) = .ok results) :
    ∃ hs f, (splitObject hwloc root others).mSplit = .ok hs ∧
      Hwsplit.Divided (splitObject hwloc root others) hs f ∧ results = hs.colors.zip hs.hwpools := by
  have bound := collSplit_bound.1 run
  rw [collSplit, if_pos bound] at run
  obtain ⟨hs, ran, run⟩ := bind_ok run
  split at run
  · rename_i long
    cases run
    rcases Hwsplit.mSplit_ok_cases (splitObject_ready hwloc root others) ran with
      ⟨f, shape⟩ | ⟨shape, -⟩
    · exact ⟨hs, f, ran, shape, rfl⟩
    · -- without colours the scatter is refused
      rw [shape.colors, List.length_nil] at long
      omega
  · cases run

/-- Conversely, a root that divides its pieces has results for everybody. -/
theorem collSplit_of_divided {hwloc : Hwloc} {root : SplitArgs} {others : List SplitArgs}
    (bound : ∀ member ∈ root :: others, member.Bound) {hs : Hwsplit} {f : Nat → Nat}
    (ran : (splitObject hwloc root others).mSplit = .ok hs)
    (shape : Hwsplit.Divided (splitObject hwloc root others) hs f) :
    collSplit hwloc (root :: others) = .ok (hs.colors.zip hs.hwpools) := by
  have group := splitObject_groupSize hwloc root others
  rw [collSplit, if_pos bound]
  simp only [bind, Except.bind, ran]
  rw [if_pos ⟨by simp [shape.colors, group], by simp [shape.length, group]⟩]
  rfl

section Members

variable {k : Nat} {hwloc : Hwloc} {args : Fin (k + 1) → SplitArgs}

theorem splitObject_ofFn :
    splitObject hwloc (args 0) (List.ofFn fun i => args i.succ) = rootSplit hwloc args := by
  simp [splitObject, rootSplit, List.map_ofFn, Function.comp_def]

/-- The root's results when the function succeeds. -/
theorem rootSplit_of_collSplit {results : List (Int × Hwpool)}
    (run : collSplit hwloc (List.ofFn args) = .ok results) :
    ∃ hs, (rootSplit hwloc args).mSplit = .ok hs ∧ hs.colors.length = k + 1 ∧
      hs.hwpools.length = k + 1 ∧ results = hs.colors.zip hs.hwpools := by
  rw [List.ofFn_succ] at run
  obtain ⟨hs, f, ran, shape, rfl⟩ := collSplit_ok run
  have group : (splitObject hwloc (args 0) (List.ofFn fun i => args i.succ)).groupSize = k + 1 := by
    simp [splitObject_groupSize]
  rw [splitObject_ofFn] at ran
  exact ⟨hs, ran, by simp [shape.colors, group], by rw [shape.length, group], rfl⟩

/-- The root's return code is the function's. -/
theorem rootSplit_of_collSplit_ret {rc : Rc}
    (run : collSplit hwloc (List.ofFn args) = .error (.ret rc)) :
    (rootSplit hwloc args).mSplit = .error (.ret rc) ∧ rc ≠ .success := by
  have bound := collSplit_bound.2 run
  rw [List.ofFn_succ] at run bound
  rw [collSplit, if_pos bound, splitObject_ofFn] at run
  have ran : (rootSplit hwloc args).mSplit = .error (.ret rc) := by
    cases root : (rootSplit hwloc args).mSplit with
    | ok hs =>
        simp only [root, bind, Except.bind] at run
        split at run <;> cases run
    | error fault =>
        rw [root] at run
        cases run
        rfl
  refine ⟨ran, ?_⟩
  have ready : (rootSplit hwloc args).Ready := rootSplit_ready args
  cases Hwsplit.mSplit_cases ready with
  | rejected rc' failure root when =>
      obtain rfl : rc = rc' := by simpa using ran.symm.trans root
      exact failure
  | divided hs f root shape when => cases ran.symm.trans root
  | emptyClose root none_ when => cases ran.symm.trans root
  | emptyPacked hs root shape none_ when => cases ran.symm.trans root
  | emptySpread root none_ when => cases ran.symm.trans root
  | mixed root when => cases ran.symm.trans root

end Members

/-- **The protocol computes the function**: whenever the function succeeds, every
run of the members' programs ends with its results. -/
theorem collSplit_agrees {k : Nat} (sync : Sync k) (hwloc : Hwloc) (args : Fin (k + 1) → SplitArgs)
    {results : List (Int × Hwpool)} (run : collSplit hwloc (List.ofFn args) = .ok results) :
    results.length = k + 1 ∧
      Agrees (fun i => split sync hwloc i (args i)) (statusOps ++ resultOps)
        fun i => .ok (results[i.val]?.getD default) := by
  have bound : ∀ i, (args i).Bound := fun i => collSplit_bound.1 run _ (List.mem_ofFn.2 ⟨i, rfl⟩)
  obtain ⟨hs, ran, colors, hwpools, rfl⟩ := rootSplit_of_collSplit run
  refine ⟨by simp [colors, hwpools], ?_⟩
  have through : Through (fun i => split sync hwloc i (args i)) _ _ :=
    through_split_ok args bound ran colors hwpools
  convert through.agrees using 3 with i
  rw [List.getElem?_eq_getElem (by rw [List.length_zip]; omega), Option.getD_some, List.getElem_zip]

end QuoVadis.Kernel
