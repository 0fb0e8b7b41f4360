/-
# Kernel.MpiLifetime -- who frees the communicators of MPI scopes

`qv_mpi_scope` makes a context (`qvi_mpi`) with a table of communicators.  Every
scope made from it by `split` or `create` adds a communicator to that table and
keeps a copy of the handle and a pointer to the context.  The group of the first
scope owns the context: when that scope is freed, the destructor of the context
frees every communicator of the table.

The model is what one process sees: handles are numbers that are never used
again, `freed` is the log of the calls of `MPI_Comm_free`.

* `run_tables`: in any order every communicator is freed, in the table of one
  context, or in nobody's hands, so none is freed twice;
* `run_backed`: scopes find their communicator in their context as long as a first
  scope is only freed after the scopes made from it;
* `lifetime_iff`: this order is exactly what keeps the communicators of live scopes
  alive.
-/
import QuoVadis.Kernel.Base
import Mathlib.Logic.Function.Basic

namespace QuoVadis.Kernel.MpiLifetime

open QuoVadis.Kernel

set_option autoImplicit false

/-! ## The state of a process -/

/-- An entry of `m_group_tab`: group ID and communicator. -/
abbrev GroupTab := List (Nat × Nat)

/-- A scope with a `qvi_group_mpi`: the context it points to, whether its group
created the context, and its copy of the communicator. -/
structure MpiScope where
  ctx : Nat
  createdMpiCtx : Bool
  comm : Nat

structure St where
  /-- The next communicator MPI hands out. -/
  nextComm : Nat
  /-- The communicators given to `MPI_Comm_free`, in order. -/
  freed : List Nat
  /-- `group_id` of `qvi_group::next_id`. -/
  nextGid : Nat
  /-- The contexts that exist, with their tables. -/
  ctxs : Nat → Option GroupTab
  nextCtx : Nat
  /-- The scopes not yet freed. -/
  scopes : Nat → Option MpiScope
  nextScope : Nat

def St.initial : St where
  nextComm := 0
  freed := []
  nextGid := 64
  ctxs := fun _ => none
  nextCtx := 0
  scopes := fun _ => none
  nextScope := 0

/-! ## The operations -/

/-- `QVI_MPI_GROUP_SELF`, `QVI_MPI_GROUP_NODE` and `QVI_MPI_GROUP_WORLD`. -/
def groupSelf : Nat := 1
def groupNode : Nat := 2
def groupWorld : Nat := 3

/-- A communicator from MPI. -/
def newComm (st : St) : Nat × St :=
  (st.nextComm, { st with nextComm := st.nextComm + 1 })

/-- `MPI_Comm_free`. -/
def commFree (comm : Nat) (st : St) : St :=
  { st with freed := st.freed ++ [comm] }

/-- `qvi_group::next_id`; `none` when the ID space is exhausted. -/
def nextId (st : St) : Option (Nat × St) :=
  if st.nextGid = 2 ^ 64 - 1 then none
  else some (st.nextGid, { st with nextGid := st.nextGid + 1 })

/-- `m_group_tab.insert`: an ID that is there keeps its entry. -/
def insertGroup (gid comm : Nat) (tab : GroupTab) : GroupTab :=
  if tab.any fun entry => entry.1 = gid then tab else tab ++ [(gid, comm)]

/-- A new scope. -/
def addScope (scope : MpiScope) (st : St) : St :=
  { st with
    scopes := Function.update st.scopes st.nextScope (some scope)
    nextScope := st.nextScope + 1 }

/-- `group_from_mpi_comm` in a context: the communicator of the new group, if there
is one. -/
def groupFromMpiComm (ctx : Nat) (tab : GroupTab) (st : St) : Option Nat × St :=
  let (nodeComm, st) := newComm st
  match nextId st with
  | some (gid, st) =>
      (some nodeComm, { st with
        ctxs := Function.update st.ctxs ctx (some (insertGroup gid nodeComm tab)) })
  | none => (none, commFree nodeComm st)

/-- `group_from_split` in a context. -/
def groupFromSplit (ctx : Nat) (tab : GroupTab) (st : St) : Option Nat × St :=
  let (splitComm, st) := newComm st
  let (child, st) := groupFromMpiComm ctx tab st
  (child, commFree splitComm st)

/-- The table the constructor of `qvi_mpi` starts with: `m_create_intrinsic_comms`
and `m_create_intrinsic_groups`. -/
def intrinsicGroups (self node world : Nat) : GroupTab :=
  insertGroup groupWorld world (insertGroup groupNode node (insertGroup groupSelf self []))

/-- The constructor of `qvi_mpi`, with `m_create_admin_comms` for a node
representative: the new context, or nothing when it throws. -/
def newMpi (isRep : Bool) (st : St) : Option Nat × St :=
  let (node, st) := newComm st
  let (self, st) := newComm st
  let (world, st) := newComm st
  let tab := intrinsicGroups self node world
  let ctx := st.nextCtx
  if isRep then
    let (rep, st) := newComm st
    match nextId st with
    | some (gid, st) =>
        (some ctx, { st with
          ctxs := Function.update st.ctxs ctx (some (insertGroup gid rep tab))
          nextCtx := ctx + 1 })
    -- the exception leaves the constructor: the destructor does not run
    | none => (none, st)
  else
    (some ctx, { st with
      ctxs := Function.update st.ctxs ctx (some tab)
      nextCtx := ctx + 1 })

/-- The group ID that `qvi_group_mpi::make_intrinsic` looks up. -/
def intrinsicGroupId : EnumValue ScopeIntrinsic 4 → Option Nat
  | .enumerator .process => some groupSelf
  | .enumerator _ => some groupNode
  | .other _ _ => none

/-- `group_from_group_id`. -/
def groupFromGroupId (gid : Nat) (tab : GroupTab) : Option Nat :=
  (tab.find? fun entry => entry.1 = gid).map Prod.snd

/-- `qv_mpi_scope`.  `served` says whether the server had a hardware pool for the
scope; without one, or for a scope value there is not, the group stays behind. -/
def qvMpiScope (iscope : EnumValue ScopeIntrinsic 4) (isRep served : Bool) (st : St) : St :=
  match newMpi isRep st with
  | (none, st) => st
  | (some ctx, st) =>
      match (intrinsicGroupId iscope).bind fun gid => (st.ctxs ctx).bind (groupFromGroupId gid) with
      | some comm => if served then addScope ⟨ctx, true, comm⟩ st else st
      | none => st

/-- The end of `qv_scope::split` and `create`: a scope for the group there is.  A
child points to the context of its parent. -/
def addChild (ctx : Nat) (served : Bool) : Option Nat × St → St
  | (some comm, st) => if served then addScope ⟨ctx, false, comm⟩ st else st
  | (none, st) => st

/-- `~qvi_mpi`: every communicator of the table is freed. -/
def deleteMpi (ctx : Nat) (tab : GroupTab) (st : St) : St :=
  { st with
    freed := st.freed ++ tab.map Prod.snd
    ctxs := Function.update st.ctxs ctx none }

/-- What a program can do with MPI scopes.  `served` is the answer of the server
where the operation asks it. -/
inductive Op where
  | mpiScope (iscope : EnumValue ScopeIntrinsic 4) (isRep served : Bool)
  | split (scope : Nat)
  | create (scope : Nat) (served : Bool)
  | free (scope : Nat)

/-- One operation; `none` when it is given a freed scope or runs into a deleted
context. -/
def step (st : St) : Op → Option St
  | .mpiScope iscope isRep served => some (qvMpiScope iscope isRep served st)
  | .split s => do
      let scope ← st.scopes s
      let tab ← st.ctxs scope.ctx
      return addChild scope.ctx true (groupFromSplit scope.ctx tab st)
  | .create s served => do
      let scope ← st.scopes s
      let tab ← st.ctxs scope.ctx
      return addChild scope.ctx served (groupFromMpiComm scope.ctx tab st)
  -- the group has one reference, so its destructor runs
  | .free s => do
      let scope ← st.scopes s
      let st := { st with scopes := Function.update st.scopes s none }
      if scope.createdMpiCtx then
        let tab ← st.ctxs scope.ctx
        return deleteMpi scope.ctx tab st
      else return st

/-- A run from the start. -/
def run (ops : List Op) : Option St := ops.foldlM step .initial

/-! ## What is kept -/

/-- The communicators of a table. -/
def comms (tab : GroupTab) : List Nat := tab.map Prod.snd

/-- The communicators of live scopes are alive, and none is freed twice. -/
def Safe (st : St) : Prop :=
  (∀ s scope, st.scopes s = some scope → scope.comm ∉ st.freed) ∧ st.freed.Nodup

/-- Every communicator is freed, in the table of one context, or in nobody's hands. -/
structure Tables (st : St) : Prop where
  alive : ∀ c tab, st.ctxs c = some tab → ∀ x ∈ comms tab, x < st.nextComm ∧ x ∉ st.freed
  nodup : ∀ c tab, st.ctxs c = some tab → (comms tab).Nodup
  apart : ∀ c tab c' tab', st.ctxs c = some tab → st.ctxs c' = some tab' →
    ∀ x ∈ comms tab, x ∈ comms tab' → c = c'
  gids : ∀ c tab, st.ctxs c = some tab → ∀ entry ∈ tab, entry.1 < st.nextGid
  gidPad : 64 ≤ st.nextGid
  freedNodup : st.freed.Nodup
  freedLt : ∀ x ∈ st.freed, x < st.nextComm
  freshCtx : ∀ c, st.nextCtx ≤ c → st.ctxs c = none

/-- The scopes point into contexts that exist, which hold their communicators. -/
structure Backed (st : St) : Prop where
  backed : ∀ s scope, st.scopes s = some scope →
    ∃ tab, st.ctxs scope.ctx = some tab ∧ scope.comm ∈ comms tab
  freshScope : ∀ s, st.nextScope ≤ s → st.scopes s = none

theorem tables_initial : Tables .initial where
  alive := by simp [St.initial]
  nodup := by simp [St.initial]
  apart := by simp [St.initial]
  gids := by simp [St.initial]
  gidPad := by simp [St.initial]
  freedNodup := by simp [St.initial]
  freedLt := by simp [St.initial]
  freshCtx := by simp [St.initial]

theorem backed_initial : Backed .initial where
  backed := by simp [St.initial]
  freshScope := by simp [St.initial]

theorem safe_of_backed {st : St} (tables : Tables st) (backed : Backed st) : Safe st := by
  refine ⟨fun s scope live => ?_, tables.freedNodup⟩
  obtain ⟨tab, exists_, member⟩ := backed.backed s scope live
  exact (tables.alive _ _ exists_ _ member).2

/-- A communicator that is alive and in nobody's hands. -/
structure Loose (st : St) (comm : Nat) : Prop where
  lt : comm < st.nextComm
  notFreed : comm ∉ st.freed
  notHeld : ∀ c tab, st.ctxs c = some tab → comm ∉ comms tab

/-- Nothing a scope relies on goes away. -/
structure Grows (st st' : St) : Prop where
  scopes : st'.scopes = st.scopes
  nextScope : st'.nextScope = st.nextScope
  tables : ∀ c tab, st.ctxs c = some tab →
    ∃ tab', st'.ctxs c = some tab' ∧ ∀ x ∈ comms tab, x ∈ comms tab'

theorem Grows.refl (st : St) : Grows st st where
  scopes := rfl
  nextScope := rfl
  tables := fun _ tab found => ⟨tab, found, fun _ member => member⟩

theorem Grows.trans {a b c : St} (first : Grows a b) (second : Grows b c) : Grows a c where
  scopes := second.scopes.trans first.scopes
  nextScope := second.nextScope.trans first.nextScope
  tables := by
    intro ctx tab found
    obtain ⟨tab', found', sub⟩ := first.tables ctx tab found
    obtain ⟨tab'', found'', sub'⟩ := second.tables ctx tab' found'
    exact ⟨tab'', found'', fun x member => sub' x (sub x member)⟩

theorem Grows.backed {st st' : St} (grows : Grows st st') (backed : Backed st) : Backed st' where
  backed := by
    intro s scope live
    rw [grows.scopes] at live
    obtain ⟨tab, found, member⟩ := backed.backed s scope live
    obtain ⟨tab', found', sub⟩ := grows.tables _ tab found
    exact ⟨tab', found', sub _ member⟩
  freshScope := by
    rw [grows.scopes, grows.nextScope]
    exact backed.freshScope

/-- An entry of an updated map is the new one or an old one. -/
theorem update_cases {α : Type} {f : Nat → Option α} {i j : Nat} {value : Option α} {a : α}
    (found : Function.update f i value j = some a) :
    (j = i ∧ value = some a) ∨ (j ≠ i ∧ f j = some a) := by
  by_cases here : j = i
  · subst here
    rw [Function.update_self] at found
    exact Or.inl ⟨rfl, found⟩
  · rw [Function.update_of_ne here] at found
    exact Or.inr ⟨here, found⟩

/-! ## The pieces -/

section Pieces

variable {st : St} {comm ctx : Nat} {tab : GroupTab}

theorem tables_newComm (tables : Tables st) : Tables (newComm st).2 where
  alive := by
    intro c tab found x member
    obtain ⟨below, notFreed⟩ := tables.alive c tab found x member
    exact ⟨Nat.lt_succ_of_lt below, notFreed⟩
  nodup := tables.nodup
  apart := tables.apart
  gids := tables.gids
  gidPad := tables.gidPad
  freedNodup := tables.freedNodup
  freedLt := fun x member => Nat.lt_succ_of_lt (tables.freedLt x member)
  freshCtx := tables.freshCtx

theorem grows_newComm (st : St) : Grows st (newComm st).2 :=
  ⟨rfl, rfl, fun _ tab found => ⟨tab, found, fun _ member => member⟩⟩

/-- A new communicator is in nobody's hands. -/
theorem loose_newComm (tables : Tables st) : Loose (newComm st).2 (newComm st).1 where
  lt := Nat.lt_succ_self _
  notFreed := fun member => Nat.lt_irrefl _ (tables.freedLt _ member)
  notHeld := fun c tab found member => Nat.lt_irrefl _ (tables.alive c tab found _ member).1

theorem Loose.newComm (loose : Loose st comm) : Loose (newComm st).2 comm where
  lt := Nat.lt_succ_of_lt loose.lt
  notFreed := loose.notFreed
  notHeld := loose.notHeld

theorem Loose.ne_newComm (loose : Loose st comm) : comm ≠ (MpiLifetime.newComm st).1 :=
  Nat.ne_of_lt loose.lt

theorem tables_commFree (tables : Tables st) (loose : Loose st comm) :
    Tables (commFree comm st) where
  alive := by
    intro c tab found x member
    obtain ⟨below, notFreed⟩ := tables.alive c tab found x member
    refine ⟨below, fun freed => ?_⟩
    rcases List.mem_append.1 freed with old | new
    · exact notFreed old
    · rw [List.mem_singleton.1 new] at member
      exact loose.notHeld c tab found member
  nodup := tables.nodup
  apart := tables.apart
  gids := tables.gids
  gidPad := tables.gidPad
  freedNodup := by
    apply tables.freedNodup.append (List.nodup_singleton comm)
    intro x old new
    rw [List.mem_singleton.1 new] at old
    exact loose.notFreed old
  freedLt := by
    intro x member
    rcases List.mem_append.1 member with old | new
    · exact tables.freedLt x old
    · rw [List.mem_singleton.1 new]
      exact loose.lt
  freshCtx := tables.freshCtx

theorem grows_commFree (comm : Nat) (st : St) : Grows st (commFree comm st) :=
  ⟨rfl, rfl, fun _ tab found => ⟨tab, found, fun _ member => member⟩⟩

theorem nextId_some {gid : Nat} {st' : St} (next : nextId st = some (gid, st')) :
    gid = st.nextGid ∧ st' = { st with nextGid := st.nextGid + 1 } := by
  unfold nextId at next
  split at next
  · simp at next
  · simp only [Option.some.injEq, Prod.mk.injEq] at next
    exact ⟨next.1.symm, next.2.symm⟩

/-- An ID that no entry has is added at the end. -/
theorem comms_insertGroup {gid : Nat} (fresh : ∀ entry ∈ tab, entry.1 < gid) :
    insertGroup gid comm tab = tab ++ [(gid, comm)] := by
  unfold insertGroup
  rw [if_neg]
  intro found
  obtain ⟨entry, member, same⟩ := List.any_eq_true.1 found
  have := fresh entry member
  simp only [decide_eq_true_eq] at same
  omega

/-- A table, new or grown by one communicator that was in nobody's hands. -/
theorem tables_update (tables : Tables st) {tab' : GroupTab} {nextGid nextCtx : Nat}
    (nodup : (comms tab').Nodup)
    (alive : ∀ x ∈ comms tab', x < st.nextComm ∧ x ∉ st.freed)
    (mine : ∀ c, c ≠ ctx → ∀ other, st.ctxs c = some other → ∀ x ∈ comms tab', x ∉ comms other)
    (more : st.nextGid ≤ nextGid) (gids : ∀ entry ∈ tab', entry.1 < nextGid)
    (later : st.nextCtx ≤ nextCtx) (known : ctx < nextCtx) :
    Tables { st with ctxs := Function.update st.ctxs ctx (some tab'), nextGid, nextCtx } where
  alive := by
    intro c tab found
    obtain ⟨-, new⟩ | ⟨-, old⟩ := update_cases found
    · cases new
      exact alive
    · exact tables.alive c tab old
  nodup := by
    intro c tab found
    obtain ⟨-, new⟩ | ⟨-, old⟩ := update_cases found
    · cases new
      exact nodup
    · exact tables.nodup c tab old
  apart := by
    intro c tab c' other found found' x member member'
    obtain ⟨here, new⟩ | ⟨there, old⟩ := update_cases found <;>
      obtain ⟨here', new'⟩ | ⟨there', old'⟩ := update_cases found'
    · rw [here, here']
    · cases new
      exact absurd member' (mine c' there' other old' x member)
    · cases new'
      exact absurd member (mine c there tab old x member')
    · exact tables.apart c tab c' other old old' x member member'
  gids := by
    intro c tab found
    obtain ⟨-, new⟩ | ⟨-, old⟩ := update_cases found
    · cases new
      exact gids
    · intro entry member
      exact Nat.lt_of_lt_of_le (tables.gids c tab old entry member) more
  gidPad := Nat.le_trans tables.gidPad more
  freedNodup := tables.freedNodup
  freedLt := tables.freedLt
  freshCtx := by
    intro c beyond
    have other : c ≠ ctx := by
      rintro rfl
      exact Nat.lt_irrefl _ (Nat.lt_of_lt_of_le known beyond)
    simp only [Function.update_apply, other, if_false]
    exact tables.freshCtx c (Nat.le_trans later beyond)

theorem tables_addScope (tables : Tables st) (scope : MpiScope) : Tables (addScope scope st) :=
  ⟨tables.alive, tables.nodup, tables.apart, tables.gids, tables.gidPad, tables.freedNodup,
    tables.freedLt, tables.freshCtx⟩

/-- A new scope may point into any context that holds its communicator. -/
theorem backed_addScope (backed : Backed st) {scope : MpiScope} (found : st.ctxs scope.ctx = some tab)
    (member : scope.comm ∈ comms tab) : Backed (addScope scope st) where
  backed := by
    intro s other live
    obtain ⟨-, new⟩ | ⟨-, old⟩ := update_cases live
    · cases new
      exact ⟨tab, found, member⟩
    · exact backed.backed s other old
  freshScope := by
    intro s beyond
    simp only [addScope] at beyond ⊢
    have other : s ≠ st.nextScope := by omega
    simp only [Function.update_apply, other, if_false]
    exact backed.freshScope s (by omega)

/-! ## The operations keep the tables -/

theorem groupFromMpiComm_eq :
    groupFromMpiComm ctx tab st =
      match nextId (newComm st).2 with
      | some (gid, st') =>
          (some (newComm st).1,
            { st' with
              ctxs := Function.update st'.ctxs ctx (some (insertGroup gid (newComm st).1 tab)) })
      | none => (none, commFree (newComm st).1 (newComm st).2) := rfl

/-- A context takes a communicator under the next group ID. -/
def adopt (ctx comm : Nat) (tab : GroupTab) (st : St) : St :=
  { st with
    ctxs := Function.update st.ctxs ctx (some (tab ++ [(st.nextGid, comm)]))
    nextGid := st.nextGid + 1 }

theorem mem_comms_concat {gid x : Nat} :
    x ∈ comms (tab ++ [(gid, comm)]) ↔ x ∈ comms tab ∨ x = comm := by
  simp [comms]

theorem tables_adopt (tables : Tables st) (found : st.ctxs ctx = some tab)
    (loose : Loose st comm) : Tables (adopt ctx comm tab st) := by
  have known : ctx < st.nextCtx := by
    by_contra beyond
    rw [tables.freshCtx ctx (Nat.le_of_not_lt beyond)] at found
    simp at found
  apply tables_update tables _ _ _ (Nat.le_succ _) _ (Nat.le_refl _) known
  · have members : comms (tab ++ [(st.nextGid, comm)]) = comms tab ++ [comm] := by
      simp [comms]
    rw [members]
    apply (tables.nodup ctx tab found).append (List.nodup_singleton _)
    intro x old new
    rw [List.mem_singleton.1 new] at old
    exact loose.notHeld ctx tab found old
  · intro x member
    obtain old | rfl := mem_comms_concat.1 member
    · exact tables.alive ctx tab found x old
    · exact ⟨loose.lt, loose.notFreed⟩
  · intro c other tab' found' x member inOther
    obtain old | rfl := mem_comms_concat.1 member
    · exact other (tables.apart c tab' ctx tab found' found x inOther old)
    · exact loose.notHeld c tab' found' inOther
  · intro entry member
    rcases List.mem_append.1 member with old | new
    · exact Nat.lt_succ_of_lt (tables.gids ctx tab found entry old)
    · rw [List.mem_singleton.1 new]
      exact Nat.lt_succ_self _

theorem grows_adopt (found : st.ctxs ctx = some tab) : Grows st (adopt ctx comm tab st) where
  scopes := rfl
  nextScope := rfl
  tables := by
    intro c tab' found'
    by_cases here : c = ctx
    · subst here
      rw [found] at found'
      cases found'
      exact ⟨_, Function.update_self _ _ _, fun x member => mem_comms_concat.2 (Or.inl member)⟩
    · refine ⟨tab', ?_, fun _ member => member⟩
      exact (Function.update_of_ne here _ _).trans found'

theorem Loose.adopt {x : Nat} (loose : Loose st x) (found : st.ctxs ctx = some tab)
    (other : x ≠ comm) : Loose (adopt ctx comm tab st) x where
  lt := loose.lt
  notFreed := loose.notFreed
  notHeld := by
    intro c tab' found' member
    obtain ⟨-, new⟩ | ⟨-, old⟩ := update_cases found'
    · cases new
      obtain old | same := mem_comms_concat.1 member
      · exact loose.notHeld ctx tab found old
      · exact other same
    · exact loose.notHeld c tab' old member

theorem Loose.commFree {x : Nat} (loose : Loose st x) (other : x ≠ comm) :
    Loose (commFree comm st) x where
  lt := loose.lt
  notFreed := by
    intro freed
    rcases List.mem_append.1 freed with old | new
    · exact loose.notFreed old
    · exact other (List.mem_singleton.1 new)
  notHeld := loose.notHeld

/-- The new communicator ends up in the context, or freed when there is no group ID left. -/
theorem groupFromMpiComm_cases (tables : Tables st) (found : st.ctxs ctx = some tab) :
    groupFromMpiComm ctx tab st =
        (some (newComm st).1, adopt ctx (newComm st).1 tab (newComm st).2) ∨
      groupFromMpiComm ctx tab st = (none, commFree (newComm st).1 (newComm st).2) := by
  rw [groupFromMpiComm_eq]
  cases next : nextId (newComm st).2 with
  | none => exact Or.inr rfl
  | some answer =>
      obtain ⟨gid, st'⟩ := answer
      obtain ⟨rfl, rfl⟩ := nextId_some next
      have grown : insertGroup (newComm st).2.nextGid (newComm st).1 tab =
          tab ++ [((newComm st).2.nextGid, (newComm st).1)] :=
        comms_insertGroup (tables.gids ctx tab found)
      simp only [grown]
      exact Or.inl rfl

/-- All `group_from_mpi_comm` does: the context gets one more communicator. -/
theorem groupFromMpiComm_spec (tables : Tables st) (found : st.ctxs ctx = some tab) :
    Tables (groupFromMpiComm ctx tab st).2 ∧ Grows st (groupFromMpiComm ctx tab st).2 ∧
      (∀ x, Loose st x → Loose (groupFromMpiComm ctx tab st).2 x) ∧
      ∀ x, (groupFromMpiComm ctx tab st).1 = some x →
        ∃ tab', (groupFromMpiComm ctx tab st).2.ctxs ctx = some tab' ∧ x ∈ comms tab' := by
  have tables' := tables_newComm tables
  have loose := loose_newComm tables
  have grows := grows_newComm st
  obtain taken | freed := groupFromMpiComm_cases tables found
  · rw [taken]
    refine ⟨tables_adopt tables' found loose, grows.trans (grows_adopt found), ?_, ?_⟩
    · intro x looseX
      exact looseX.newComm.adopt found looseX.ne_newComm
    · intro x same
      cases same
      exact ⟨_, Function.update_self _ _ _, mem_comms_concat.2 (Or.inr rfl)⟩
  · rw [freed]
    refine ⟨tables_commFree tables' loose, grows.trans (grows_commFree _ _), ?_, ?_⟩
    · intro x looseX
      exact looseX.newComm.commFree looseX.ne_newComm
    · intro x none_
      cases none_

/-- `group_from_split` does the same; the communicator in between is freed. -/
theorem groupFromSplit_spec (tables : Tables st) (found : st.ctxs ctx = some tab) :
    Tables (groupFromSplit ctx tab st).2 ∧ Grows st (groupFromSplit ctx tab st).2 ∧
      ∀ x, (groupFromSplit ctx tab st).1 = some x →
        ∃ tab', (groupFromSplit ctx tab st).2.ctxs ctx = some tab' ∧ x ∈ comms tab' := by
  have loose := loose_newComm tables
  obtain ⟨tables', grows, keeps, result⟩ :=
    groupFromMpiComm_spec (tables_newComm tables) (found : (newComm st).2.ctxs ctx = some tab)
  unfold groupFromSplit
  refine ⟨tables_commFree tables' (keeps _ loose), ?_, result⟩
  exact ((grows_newComm st).trans grows).trans (grows_commFree _ _)

theorem gid_intrinsicGroups {self node world : Nat} :
    ∀ entry ∈ intrinsicGroups self node world, entry.1 < 64 := by
  intro entry member
  have shape : intrinsicGroups self node world =
      [(groupSelf, self), (groupNode, node), (groupWorld, world)] := rfl
  rw [shape] at member
  simp only [List.mem_cons, List.not_mem_nil, or_false] at member
  rcases member with rfl | rfl | rfl
  · exact (by decide : groupSelf < 64)
  · exact (by decide : groupNode < 64)
  · exact (by decide : groupWorld < 64)

/-- A context whose table holds new communicators only. -/
theorem tables_newCtx (tables : Tables st) {tab : GroupTab} {nextComm nextGid : Nat}
    (nodup : (comms tab).Nodup) (new : ∀ x ∈ comms tab, st.nextComm ≤ x ∧ x < nextComm)
    (later : st.nextComm ≤ nextComm) (more : st.nextGid ≤ nextGid)
    (gids : ∀ entry ∈ tab, entry.1 < nextGid) :
    Tables { st with
      nextComm, nextGid
      ctxs := Function.update st.ctxs st.nextCtx (some tab)
      nextCtx := st.nextCtx + 1 } := by
  have moved : Tables { st with nextComm } :=
    ⟨fun c tab found x member =>
        ⟨Nat.lt_of_lt_of_le (tables.alive c tab found x member).1 later,
          (tables.alive c tab found x member).2⟩,
      tables.nodup, tables.apart, tables.gids, tables.gidPad, tables.freedNodup,
      fun x member => Nat.lt_of_lt_of_le (tables.freedLt x member) later, tables.freshCtx⟩
  apply tables_update moved nodup _ _ more gids (Nat.le_succ _) (Nat.lt_succ_self _)
  · intro x member
    refine ⟨(new x member).2, fun freed => ?_⟩
    exact Nat.not_lt_of_le (new x member).1 (tables.freedLt x freed)
  · intro c _ other found x member inOther
    exact Nat.not_lt_of_le (new x member).1 (tables.alive c other found x inOther).1

theorem grows_newCtx (tables : Tables st) (tab : GroupTab) (nextComm nextGid : Nat) :
    Grows st { st with
      nextComm, nextGid
      ctxs := Function.update st.ctxs st.nextCtx (some tab)
      nextCtx := st.nextCtx + 1 } where
  scopes := rfl
  nextScope := rfl
  tables := by
    intro c tab found
    have other : c ≠ st.nextCtx := by
      rintro rfl
      rw [tables.freshCtx _ (Nat.le_refl _)] at found
      simp at found
    exact ⟨tab, (Function.update_of_ne other _ _).trans found, fun _ member => member⟩

/-- The constructor of a node representative. -/
theorem newMpi_rep_eq :
    newMpi true st =
      match nextId { st with nextComm := st.nextComm + 4 } with
      | some (gid, st') =>
          (some st.nextCtx, { st' with
            ctxs := Function.update st'.ctxs st.nextCtx (some (insertGroup gid (st.nextComm + 3)
              (intrinsicGroups (st.nextComm + 1) st.nextComm (st.nextComm + 2))))
            nextCtx := st.nextCtx + 1 })
      | none => (none, { st with nextComm := st.nextComm + 4 }) := rfl

theorem newMpi_rep_spec (tables : Tables st) :
    Tables (newMpi true st).2 ∧ Grows st (newMpi true st).2 := by
  have pad := tables.gidPad
  rw [newMpi_rep_eq]
  cases next : nextId { st with nextComm := st.nextComm + 4 } with
  | none =>
      have four := tables_newComm (tables_newComm (tables_newComm (tables_newComm tables)))
      exact ⟨four, rfl, rfl, fun _ tab found => ⟨tab, found, fun _ member => member⟩⟩
  | some answer =>
      obtain ⟨gid, st'⟩ := answer
      obtain ⟨rfl, rfl⟩ := nextId_some next
      have grown : insertGroup st.nextGid (st.nextComm + 3)
          (intrinsicGroups (st.nextComm + 1) st.nextComm (st.nextComm + 2)) =
          intrinsicGroups (st.nextComm + 1) st.nextComm (st.nextComm + 2) ++
            [(st.nextGid, st.nextComm + 3)] :=
        comms_insertGroup fun entry member =>
          Nat.lt_of_lt_of_le (gid_intrinsicGroups entry member) pad
      simp only [grown]
      constructor
      · apply tables_newCtx tables _ _ (by omega : st.nextComm ≤ st.nextComm + 4) (Nat.le_succ _)
        · intro entry member
          rcases List.mem_append.1 member with old | new
          · have := gid_intrinsicGroups entry old
            omega
          · rw [List.mem_singleton.1 new]
            exact Nat.lt_succ_self _
        · show [st.nextComm + 1, st.nextComm, st.nextComm + 2, st.nextComm + 3].Nodup
          simp
        · show ∀ x ∈ [st.nextComm + 1, st.nextComm, st.nextComm + 2, st.nextComm + 3], _
          simp
      · exact grows_newCtx tables _ _ _

/-- The constructor of the context. -/
theorem newMpi_spec (tables : Tables st) (isRep : Bool) :
    Tables (newMpi isRep st).2 ∧ Grows st (newMpi isRep st).2 := by
  cases isRep with
  | true => exact newMpi_rep_spec tables
  | false =>
      constructor
      · apply tables_newCtx tables _ _ (by omega : st.nextComm ≤ st.nextComm + 3) (Nat.le_refl _)
        · intro entry member
          exact Nat.lt_of_lt_of_le (gid_intrinsicGroups entry member) tables.gidPad
        · show [st.nextComm + 1, st.nextComm, st.nextComm + 2].Nodup
          simp
        · show ∀ x ∈ [st.nextComm + 1, st.nextComm, st.nextComm + 2], _
          simp
      · exact grows_newCtx tables _ _ _

theorem mem_groupFromGroupId {gid : Nat} (found : groupFromGroupId gid tab = some comm) :
    comm ∈ comms tab := by
  obtain ⟨entry, inTab, rfl⟩ := Option.map_eq_some_iff.1 found
  exact List.mem_map.2 ⟨entry, List.mem_of_find?_eq_some inTab, rfl⟩

/-- A scope from `qv_mpi_scope` has a communicator of its context. -/
theorem qvMpiScope_spec (tables : Tables st) (iscope : EnumValue ScopeIntrinsic 4)
    (isRep served : Bool) :
    Tables (qvMpiScope iscope isRep served st) ∧
      (Backed st → Backed (qvMpiScope iscope isRep served st)) := by
  obtain ⟨tables', grows⟩ := newMpi_spec tables isRep
  unfold qvMpiScope
  cases made : newMpi isRep st with
  | mk result st' =>
      rw [made] at tables' grows
      cases result with
      | none => exact ⟨tables', grows.backed⟩
      | some ctx =>
          simp only
          split
          · rename_i comm lookup
            obtain ⟨gid, -, inCtx⟩ := Option.bind_eq_some_iff.1 lookup
            obtain ⟨tab, found, inTab⟩ := Option.bind_eq_some_iff.1 inCtx
            cases served with
            | false => exact ⟨tables', grows.backed⟩
            | true =>
                refine ⟨tables_addScope tables' _, fun backed => ?_⟩
                exact backed_addScope (grows.backed backed) found (mem_groupFromGroupId inTab)
          · exact ⟨tables', grows.backed⟩

/-- A scope from `split` or `create` has a communicator of its parent's context. -/
theorem addChild_spec {result : Option Nat × St} (tables : Tables result.2)
    (grows : Grows st result.2)
    (child : ∀ x, result.1 = some x → ∃ tab, result.2.ctxs ctx = some tab ∧ x ∈ comms tab)
    (served : Bool) :
    Tables (addChild ctx served result) ∧ (Backed st → Backed (addChild ctx served result)) := by
  obtain ⟨_ | comm, st'⟩ := result
  · exact ⟨tables, grows.backed⟩
  · cases served with
    | false => exact ⟨tables, grows.backed⟩
    | true =>
        obtain ⟨tab, found, member⟩ := child comm rfl
        exact ⟨tables_addScope tables _, fun backed =>
          backed_addScope (grows.backed backed) found member⟩

/-- Deleting a context frees what it holds, each communicator once. -/
theorem tables_deleteMpi (tables : Tables st) (found : st.ctxs ctx = some tab) :
    Tables (deleteMpi ctx tab st) := by
  have others : ∀ {c other}, (deleteMpi ctx tab st).ctxs c = some other →
      c ≠ ctx ∧ st.ctxs c = some other := by
    intro c other exists_
    obtain ⟨-, new⟩ | old := update_cases exists_
    · cases new
    · exact old
  constructor
  · intro c other exists_ x member
    obtain ⟨apart, exists_⟩ := others exists_
    obtain ⟨below, notFreed⟩ := tables.alive c other exists_ x member
    refine ⟨below, fun freed => ?_⟩
    rcases List.mem_append.1 freed with old | new
    · exact notFreed old
    · exact apart (tables.apart c other ctx tab exists_ found x member new)
  · intro c other exists_
    exact tables.nodup c other (others exists_).2
  · intro c other c' other' exists_ exists'
    exact tables.apart c other c' other' (others exists_).2 (others exists').2
  · intro c other exists_
    exact tables.gids c other (others exists_).2
  · exact tables.gidPad
  · apply tables.freedNodup.append (tables.nodup ctx tab found)
    intro x old new
    exact (tables.alive ctx tab found x new).2 old
  · intro x member
    rcases List.mem_append.1 member with old | new
    · exact tables.freedLt x old
    · exact (tables.alive ctx tab found x new).1
  · intro c beyond
    simp only [deleteMpi, Function.update_apply]
    split
    · rfl
    · exact tables.freshCtx c beyond

end Pieces

/-! ## Runs -/

/-- A first scope is freed only when no other scope of its context is left. -/
def LastOfContext (st : St) : Op → Prop
  | .free s => ∀ scope, st.scopes s = some scope → scope.createdMpiCtx = true →
      ∀ s' scope', st.scopes s' = some scope' → scope'.ctx = scope.ctx → s' = s
  | _ => True

section Runs

variable {st st' : St} {op : Op}

theorem tables_removeScope (tables : Tables st) (s : Nat) :
    Tables { st with scopes := Function.update st.scopes s none } :=
  ⟨tables.alive, tables.nodup, tables.apart, tables.gids, tables.gidPad, tables.freedNodup,
    tables.freedLt, tables.freshCtx⟩

theorem live_of_removed {s s' : Nat} {scope : MpiScope}
    (live : Function.update st.scopes s none s' = some scope) :
    s' ≠ s ∧ st.scopes s' = some scope := by
  obtain ⟨-, new⟩ | old := update_cases live
  · cases new
  · exact old

theorem backed_removeScope (backed : Backed st) (s : Nat) :
    Backed { st with scopes := Function.update st.scopes s none } where
  backed := fun s' scope live => backed.backed s' scope (live_of_removed live).2
  freshScope := by
    intro s' beyond
    simp only [Function.update_apply]
    split
    · rfl
    · exact backed.freshScope s' beyond

/-- All that freeing a scope can do. -/
theorem step_free_cases {s : Nat} (ran : step st (.free s) = some st') :
    ∃ scope, st.scopes s = some scope ∧
      ((scope.createdMpiCtx = false ∧
          st' = { st with scopes := Function.update st.scopes s none }) ∨
        (scope.createdMpiCtx = true ∧ ∃ tab, st.ctxs scope.ctx = some tab ∧
          st' = deleteMpi scope.ctx tab { st with scopes := Function.update st.scopes s none })) := by
  obtain ⟨scope, live, ran⟩ := Option.bind_eq_some_iff.1 ran
  refine ⟨scope, live, ?_⟩
  cases created : scope.createdMpiCtx with
  | false =>
      rw [created] at ran
      cases ran
      exact Or.inl ⟨rfl, rfl⟩
  | true =>
      rw [created] at ran
      obtain ⟨tab, found, ran⟩ := Option.bind_eq_some_iff.1 ran
      cases ran
      exact Or.inr ⟨rfl, tab, found, rfl⟩

/-- An operation that frees nothing keeps the tables in order and the scopes backed. -/
theorem step_keeps (tables : Tables st) (keeps : ∀ s, op ≠ .free s) (ran : step st op = some st') :
    Tables st' ∧ (Backed st → Backed st') := by
  cases op with
  | mpiScope iscope isRep served =>
      cases ran
      exact qvMpiScope_spec tables iscope isRep served
  | split s =>
      obtain ⟨scope, live, ran⟩ := Option.bind_eq_some_iff.1 ran
      obtain ⟨tab, found, ran⟩ := Option.bind_eq_some_iff.1 ran
      cases ran
      obtain ⟨tables', grows, child⟩ := groupFromSplit_spec tables found
      exact addChild_spec tables' grows child true
  | create s served =>
      obtain ⟨scope, live, ran⟩ := Option.bind_eq_some_iff.1 ran
      obtain ⟨tab, found, ran⟩ := Option.bind_eq_some_iff.1 ran
      cases ran
      obtain ⟨tables', grows, -, child⟩ := groupFromMpiComm_spec tables found
      exact addChild_spec tables' grows child served
  | free s => exact absurd rfl (keeps s)

/-- Every operation, in any order, keeps the tables in order. -/
theorem step_tables (tables : Tables st) (ran : step st op = some st') : Tables st' := by
  cases op with
  | mpiScope iscope isRep served => exact (step_keeps tables (by simp) ran).1
  | split s => exact (step_keeps tables (by simp) ran).1
  | create s served => exact (step_keeps tables (by simp) ran).1
  | free s =>
      obtain ⟨scope, live, ⟨-, rfl⟩ | ⟨-, tab, found, rfl⟩⟩ := step_free_cases ran
      · exact tables_removeScope tables s
      · exact tables_deleteMpi (tables_removeScope tables s) found

/-- An operation that keeps the order keeps the scopes backed. -/
theorem step_backed (tables : Tables st) (backed : Backed st) (last : LastOfContext st op)
    (ran : step st op = some st') : Backed st' := by
  cases op with
  | mpiScope iscope isRep served => exact (step_keeps tables (by simp) ran).2 backed
  | split s => exact (step_keeps tables (by simp) ran).2 backed
  | create s served => exact (step_keeps tables (by simp) ran).2 backed
  | free s =>
      have rest := backed_removeScope backed s
      obtain ⟨scope, live, ⟨-, rfl⟩ | ⟨created, tab, found, rfl⟩⟩ := step_free_cases ran
      · exact rest
      · refine ⟨fun s' scope' live' => ?_, rest.freshScope⟩
        obtain ⟨other, wasLive⟩ := live_of_removed live'
        -- a scope that is left belongs to another context
        have apart : scope'.ctx ≠ scope.ctx := fun same =>
          other (last scope live created s' scope' wasLive same)
        obtain ⟨tab', found', member⟩ := backed.backed s' scope' wasLive
        exact ⟨tab', (Function.update_of_ne apart _ _).trans found', member⟩

/-- A first scope that is freed too early takes the communicators of the others
with it. -/
theorem step_unsafe (backed : Backed st) (early : ¬ LastOfContext st op) :
    ∃ st', step st op = some st' ∧ ¬ Safe st' := by
  cases op with
  | free s =>
      simp only [LastOfContext, not_forall] at early
      obtain ⟨scope, live, created, s', scope', live', same, other⟩ := early
      obtain ⟨tab, found, -⟩ := backed.backed s scope live
      obtain ⟨tab', found', member⟩ := backed.backed s' scope' live'
      rw [same, found] at found'
      cases found'
      refine ⟨deleteMpi scope.ctx tab { st with scopes := Function.update st.scopes s none }, ?_, ?_⟩
      · simp only [step, live, Option.bind_eq_bind, Option.bind_some, created, if_true, found,
          Option.pure_def]
      · rintro ⟨alive, -⟩
        refine alive s' scope' ?_ (List.mem_append_right _ member)
        exact (Function.update_of_ne other _ _).trans live'
  | mpiScope iscope isRep served => exact absurd True.intro early
  | split s => exact absurd True.intro early
  | create s served => exact absurd True.intro early

theorem run_append (ops : List Op) (op : Op) :
    run (ops ++ [op]) = (run ops).bind fun st => step st op := by
  simp only [run, List.foldlM_append, List.foldlM_cons, List.foldlM_nil, Option.bind_eq_bind,
    Option.pure_def]
  cases ops.foldlM step St.initial <;> simp

/-- No run frees a communicator twice. -/
theorem run_tables : ∀ (ops : List Op) {st : St}, run ops = some st → Tables st := by
  intro ops
  induction ops using List.reverseRecOn with
  | nil =>
      intro st ran
      cases ran
      exact tables_initial
  | append_singleton ops op ih =>
      intro st ran
      rw [run_append] at ran
      obtain ⟨before, ranBefore, ran⟩ := Option.bind_eq_some_iff.1 ran
      exact step_tables (ih ranBefore) ran

/-- A run in order keeps the scopes backed. -/
theorem run_backed (ops : List Op)
    (ordered : ∀ pre op post, ops = pre ++ op :: post → ∀ st, run pre = some st →
      LastOfContext st op) : ∀ {st : St}, run ops = some st → Backed st := by
  induction ops using List.reverseRecOn with
  | nil =>
      intro st ran
      cases ran
      exact backed_initial
  | append_singleton ops op ih =>
      intro st ran
      rw [run_append] at ran
      obtain ⟨before, ranBefore, ran⟩ := Option.bind_eq_some_iff.1 ran
      have inOrder : ∀ pre op' post, ops = pre ++ op' :: post → ∀ st, run pre = some st →
          LastOfContext st op' := by
        intro pre op' post split
        exact ordered pre op' (post ++ [op]) (by rw [split]; simp)
      exact step_backed (run_tables ops ranBefore) (ih inOrder ranBefore)
        (ordered ops op [] rfl before ranBefore) ran

end Runs

/-- **When the communicators of live scopes stay alive**, in runs of any length:
the states reached are all safe exactly if every first scope was freed after all
other scopes of its context. -/
theorem lifetime_iff (ops : List Op) :
    (∀ pre post, ops = pre ++ post → ∀ st, run pre = some st → Safe st) ↔
      ∀ pre op post, ops = pre ++ op :: post → ∀ st, run pre = some st → LastOfContext st op := by
  constructor
  · intro safe
    -- the order holds up to every operation, and with it what makes the next one unsafe
    induction ops using List.reverseRecOn with
    | nil =>
        intro pre op post split
        simp at split
    | append_singleton ops last ih =>
        have before := ih fun pre post split => safe pre (post ++ [last]) (by rw [split]; simp)
        intro pre op post split st ran
        rcases List.eq_nil_or_concat post with rfl | ⟨post', last', rfl⟩
        · obtain ⟨rfl, same⟩ := List.append_inj' split rfl
          obtain rfl : last = op := by simpa using same
          by_contra early
          obtain ⟨st', ran', notSafe⟩ := step_unsafe (run_backed ops before ran) early
          refine notSafe (safe (ops ++ [last]) [] (by simp) st' ?_)
          rw [run_append, ran]
          exact ran'
        · rw [List.concat_eq_append, ← List.cons_append, ← List.append_assoc] at split
          obtain ⟨rfl, -⟩ := List.append_inj' split rfl
          exact before pre op post' rfl st ran
  · intro ordered pre post split st ran
    refine safe_of_backed (run_tables pre ran) (run_backed pre ?_ ran)
    intro pre' op post' split'
    exact ordered pre' op (post' ++ post) (by rw [split, split']; simp)

/-- A scope, its child, and the scope is freed first: the child's communicator is
gone. -/
theorem parent_freed_first :
    ∃ st, run [.mpiScope (.enumerator .user) false true, .split 0, .free 0] = some st ∧
      (∃ scope, st.scopes 1 = some scope ∧ scope.comm ∈ st.freed) ∧ ¬ Safe st := by
  refine ⟨_, rfl, ⟨_, rfl, by decide⟩, ?_⟩
  rintro ⟨alive, -⟩
  exact alive 1 _ rfl (by decide)

end QuoVadis.Kernel.MpiLifetime
