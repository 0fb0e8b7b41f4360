/-
# Kernel.ThreadScopes -- the reference count behind the scopes of threads

`qv_scope::thread_split` makes one thread group and `k` scopes that share it.  The
group is counted (`qvi_refc`): it starts with one reference, every child adds one, and
when all children are there the first one is given back; the destructor of a scope
releases the group.

`destroyed` is the log of the destructors that have run.  Objects are numbered and a
number is not used again.  The array the children are put into is not initialised;
what it contains before is a parameter.

* `freeAll_spec`: scopes that hold the only references destroy their group with the
  last of them, in any order;
* `balanced_iff`: `thread_split` is balanced exactly if no child fails to be made.  If
  one does, the destroy loop also visits the entries that were never written, and the
  group keeps its first reference.
-/
import QuoVadis.Kernel.Scope
import Mathlib.Data.List.TakeWhile

namespace QuoVadis.Kernel.ThreadScopes

open QuoVadis.Kernel

set_option autoImplicit false

/-! ## Objects -/

inductive Object where
  | group (g : Nat)
  | scope (s : Nat)
  deriving DecidableEq

/-- `qv_scope`. -/
structure Scope where
  group : Nat
  hwpool : Hwpool

structure Heap where
  /-- The reference counts of the groups there are. -/
  refc : Nat → Option Nat
  scopes : Nat → Option Scope
  /-- The number of the next object. -/
  next : Nat
  destroyed : List Object

/-- A new group; the count of a `qvi_refc` starts at one. -/
def newGroup (h : Heap) : Nat × Heap :=
  (h.next, { h with refc := Function.update h.refc h.next (some 1), next := h.next + 1 })

/-- `qvi_refc::retain`. -/
def retain (g : Nat) (h : Heap) : Qv Heap :=
  match h.refc g with
  | none => .error .trap
  | some refc => .ok { h with refc := Function.update h.refc g (some (refc + 1)) }

/-- `qvi_refc::release`. -/
def release (g : Nat) (h : Heap) : Qv Heap :=
  match h.refc g with
  | none => .error .trap
  -- the assertion of the source
  | some 0 => .error .trap
  | some 1 => .ok { h with refc := Function.update h.refc g none
                           destroyed := h.destroyed ++ [.group g] }
  | some (refc + 2) => .ok { h with refc := Function.update h.refc g (some (refc + 1)) }

/-- `qvi_new` of a scope, where it succeeds. -/
def newScope (scope : Scope) (h : Heap) : Nat × Heap :=
  (h.next, { h with scopes := Function.update h.scopes h.next (some scope), next := h.next + 1 })

/-- `qvi_delete` of a scope, with `~qv_scope`.  A pointer to no scope is `delete` on
anything. -/
def qviDelete (h : Heap) : Option Nat → Qv Heap
  | none => .ok h
  | some s =>
      match h.scopes s with
      | none => .error .trap
      | some scope => do
          let h ← release scope.group { h with destroyed := h.destroyed ++ [.scope s] }
          return { h with scopes := Function.update h.scopes s none }

/-- `thread_destroy`. -/
def threadDestroy (ikscopes : List (Option Nat)) (h : Heap) : Qv Heap :=
  ikscopes.foldlM qviDelete h

/-- The loop of `thread_split` that makes the children.  `created` has the status of
`qvi_new` for each of them. -/
def makeChildren (thgroup : Nat) : List Rc → List Hwpool → Heap → Qv (Rc × List Nat × Heap)
  | [], _, h => .ok (.success, [], h)
  | _ :: _, [], _ => .error .trap
  | rc :: created, hwpool :: hwpools, h =>
      if rc ≠ .success then .ok (rc, [], h)
      else do
        let (child, h) := newScope ⟨thgroup, hwpool⟩ h
        let h ← retain thgroup h
        let (rc, children, h) ← makeChildren thgroup created hwpools h
        return (rc, child :: children, h)

/-- `qv_scope::thread_split`: the status, the children, and what is left.  `created`
are the outcomes of making the group's `k` children, `garbage` what is in their array
before. -/
def threadSplit (hwloc : Hwloc) (parent : Hwpool) (request : SplitRequest) (task : Task)
    (kcolors : List Int) (groupRc : Rc) (created : List Rc) (garbage : Nat → Option Nat) (h : Heap) :
    Qv (Rc × List Nat × Heap) := do
  let hwpools ← Kernel.threadSplit hwloc parent request task kcolors
  if groupRc ≠ .success then .error (.ret groupRc)
  else
    let (thgroup, h) := newGroup h
    let (rc, children, h) ← makeChildren thgroup created hwpools h
    if rc ≠ .success then do
      let unwritten := (List.range' children.length (created.length - children.length)).map garbage
      let h ← threadDestroy (children.map some ++ unwritten) h
      return (rc, [], h)
    else do
      let h ← release thgroup h
      return (rc, children, h)

/-! ## Making the children -/

/-- How many children are made: as many as there are before the first that fails. -/
def successes (created : List Rc) : List Rc := created.takeWhile (· = .success)

/-- The status the loop ends with. -/
def status (created : List Rc) : Rc := (created.find? (· ≠ .success)).getD .success

/-- The scopes of a list that exist and belong to the group. -/
def Live (h : Heap) (g : Nat) (scopes : List Nat) : Prop :=
  ∀ s ∈ scopes, ∃ hwpool, h.scopes s = some ⟨g, hwpool⟩

theorem makeChildren_spec (g : Nat) (created : List Rc) :
    ∀ (hwpools : List Hwpool) (h : Heap) (n : Nat), created.length ≤ hwpools.length →
      h.refc g = some n → g < h.next →
      ∃ h', makeChildren g created hwpools h =
          .ok (status created, List.range' h.next (successes created).length, h') ∧
        h'.refc g = some (n + (successes created).length) ∧ h'.destroyed = h.destroyed ∧
        (∀ s < h.next, h'.scopes s = h.scopes s) ∧
        Live h' g (List.range' h.next (successes created).length) := by
  induction created with
  | nil =>
      intro hwpools h n _ counted _
      exact ⟨h, rfl, counted, rfl, fun _ _ => rfl, by simp [Live, successes]⟩
  | cons rc created ih =>
      intro hwpools h n enough counted below
      obtain ⟨hwpool, hwpools, rfl⟩ : ∃ p ps, hwpools = p :: ps := by
        cases hwpools with
        | nil => simp at enough
        | cons p ps => exact ⟨p, ps, rfl⟩
      by_cases ok : rc = .success
      · subst ok
        let h₁ : Heap := { (newScope ⟨g, hwpool⟩ h).2 with
          refc := Function.update h.refc g (some (n + 1)) }
        have retained : retain g (newScope ⟨g, hwpool⟩ h).2 = .ok h₁ := by
          simp only [retain, newScope, counted, h₁]
        obtain ⟨h', run, counted', kept, old, live⟩ := ih hwpools h₁ (n + 1)
          (by simpa using enough) (Function.update_self ..) (Nat.lt_succ_of_lt below)
        refine ⟨h', ?_, ?_, kept, ?_, ?_⟩
        · simp only [makeChildren, ne_eq, not_true, if_false, retained, bind, Except.bind, run]
          rfl
        · rw [counted']
          simp only [successes, List.takeWhile_cons, decide_true, if_true, List.length_cons]
          congr 1
          omega
        · intro s before
          rw [old s (Nat.lt_succ_of_lt before)]
          exact Function.update_of_ne (Nat.ne_of_lt before) _ _
        · intro s member
          simp only [successes, List.takeWhile_cons, decide_true, if_true, List.length_cons,
            List.range'_succ, List.mem_cons] at member
          rcases member with rfl | later
          · refine ⟨hwpool, ?_⟩
            rw [old _ (Nat.lt_succ_self _)]
            exact Function.update_self ..
          · exact live s later
      · refine ⟨h, ?_, ?_, rfl, fun _ _ => rfl, ?_⟩
        · simp [makeChildren, ok, status, successes]
        · simpa [successes, ok] using counted
        · simp [Live, successes, ok]

/-! ## Freeing scopes -/

/-- One scope is freed: its group loses a reference, and goes with the last. -/
theorem qviDelete_spec {h : Heap} {g s n : Nat} {hwpool : Hwpool}
    (found : h.scopes s = some ⟨g, hwpool⟩) (counted : h.refc g = some (n + 1)) :
    ∃ h', qviDelete h (some s) = .ok h' ∧ h'.refc g = (if n = 0 then none else some n) ∧
      h'.destroyed = h.destroyed ++ .scope s :: (if n = 0 then [.group g] else []) ∧
      ∀ s', s' ≠ s → h'.scopes s' = h.scopes s' := by
  cases n with
  | zero =>
      refine ⟨_, by simp only [qviDelete, found, release, counted, bind, Except.bind]; rfl, ?_, ?_, ?_⟩
      · exact Function.update_self ..
      · simp
      · exact fun s' other => Function.update_of_ne other _ _
  | succ n =>
      refine ⟨_, by simp only [qviDelete, found, release, counted, bind, Except.bind]; rfl, ?_, ?_, ?_⟩
      · exact Function.update_self ..
      · simp
      · exact fun s' other => Function.update_of_ne other _ _

/-- **Any number of the scopes, in any order.**  With `held` references from elsewhere
the group is destroyed exactly if `held` is zero and no scope is left, and then after
the last one. -/
theorem freeAll_spec {g : Nat} (held : Nat) (freed : List Nat) :
    ∀ (rest : List Nat) (h : Heap), (freed ++ rest).Nodup → Live h g (freed ++ rest) →
      h.refc g = some (held + (freed ++ rest).length) → 0 < held + (freed ++ rest).length →
      ∃ h', threadDestroy (freed.map some) h = .ok h' ∧
        h'.destroyed = h.destroyed ++ freed.map Object.scope ++
          (if held + rest.length = 0 then [.group g] else []) := by
  induction freed with
  | nil =>
      intro rest h _ _ _ some_
      refine ⟨h, rfl, ?_⟩
      rw [List.nil_append] at some_
      rw [if_neg (by omega)]
      simp
  | cons s freed ih =>
      intro rest h distinct live counted _
      rw [List.cons_append, List.nodup_cons] at distinct
      obtain ⟨fresh, distinct⟩ := distinct
      obtain ⟨hwpool, found⟩ := live s (by simp)
      have counted' : h.refc g = some (held + (freed ++ rest).length + 1) := by
        rw [counted]
        simp
        omega
      obtain ⟨h₁, run, left, log, others⟩ := qviDelete_spec found counted'
      have still : Live h₁ g (freed ++ rest) := by
        intro s' member
        obtain ⟨hwpool', found'⟩ := live s' (by simpa using Or.inr (List.mem_append.1 member))
        refine ⟨hwpool', ?_⟩
        rw [others s' fun same => ?_, found']
        exact fresh (same ▸ member)
      by_cases last : held + (freed ++ rest).length = 0
      · -- nothing is left to be freed
        have none_ : freed = [] := List.length_eq_zero_iff.1 (by
          rw [List.length_append] at last
          omega)
        subst none_
        refine ⟨h₁, ?_, ?_⟩
        · rw [threadDestroy, List.map_cons, List.foldlM_cons, run]
          rfl
        · rw [log, if_pos last]
          simp only [List.nil_append] at last
          simp [last]
      · rw [if_neg last] at left log
        obtain ⟨h', rest_, done⟩ := ih rest h₁ distinct still left (by omega)
        refine ⟨h', ?_, ?_⟩
        · rw [threadDestroy, List.map_cons, List.foldlM_cons, run]
          exact rest_
        · rw [done, log]
          simp

theorem release_destroyed {g : Nat} {h h' : Heap} (run : release g h = .ok h') :
    ∃ more, h'.destroyed = h.destroyed ++ more := by
  unfold release at run
  split at run
  · cases run
  · cases run
  · cases run
    exact ⟨_, rfl⟩
  · cases run
    exact ⟨[], by simp⟩

/-- Whatever is in an array, the first thing its deletion destroys is a scope. -/
theorem destroyed_first (entries : List (Option Nat)) :
    ∀ {h h' : Heap}, threadDestroy entries h = .ok h' →
      ∃ more, h'.destroyed = h.destroyed ++ more ∧
        (more = [] ∨ ∃ s later, more = .scope s :: later) := by
  induction entries with
  | nil =>
      intro h h' run
      cases run
      exact ⟨[], by simp⟩
  | cons entry entries ih =>
      intro h h' run
      rw [threadDestroy, List.foldlM_cons] at run
      obtain ⟨h₁, first, run⟩ := bind_ok run
      obtain ⟨more, log, shape⟩ := ih run
      cases entry with
      | none =>
          cases first
          exact ⟨more, log, shape⟩
      | some s =>
          simp only [qviDelete] at first
          split at first
          · cases first
          · obtain ⟨h₂, released, first⟩ := bind_ok first
            cases first
            obtain ⟨more', log'⟩ := release_destroyed released
            refine ⟨.scope s :: more' ++ more, ?_, Or.inr ⟨s, more' ++ more, rfl⟩⟩
            rw [log]
            show h₂.destroyed ++ more = _
            rw [log']
            simp

/-! ## The whole split -/

/-- What should come of making the children.  If all of them are made, the group is
destroyed with the last one freed, whatever the order.  If one is not, those made
before it are destroyed, once each, and nothing else but the group. -/
def Balanced (h : Heap) (created : List Rc) (outcome : Qv (Rc × List Nat × Heap)) : Prop :=
  if ∀ rc ∈ created, rc = .success then
    ∃ children h', outcome = .ok (.success, children, h') ∧ children.length = created.length ∧
      children.Nodup ∧ Live h' h.next children ∧
      ∀ freed rest, (freed ++ rest).Perm children →
        ∃ h'', threadDestroy (freed.map some) h' = .ok h'' ∧
          h''.destroyed = h.destroyed ++ freed.map Object.scope ++
            (if rest = [] then [.group h.next] else [])
  else
    ∃ h', outcome = .ok (status created, [], h') ∧
      h'.destroyed.Perm (h.destroyed ++
        (List.range' (h.next + 1) (successes created).length).map Object.scope ++ [.group h.next])

theorem status_eq_success_iff (created : List Rc) :
    status created = .success ↔ ∀ rc ∈ created, rc = .success := by
  unfold status
  cases found : created.find? (· ≠ .success) with
  | none =>
      have all := List.find?_eq_none.1 found
      simpa using all
  | some rc =>
      have bad : rc ≠ .success := by simpa using List.find?_some found
      refine ⟨fun same => absurd same bad, fun all => absurd (all rc (List.mem_of_find?_eq_some found)) bad⟩

theorem successes_eq_self {created : List Rc} (all : ∀ rc ∈ created, rc = .success) :
    successes created = created := by
  rw [successes, List.takeWhile_eq_self_iff]
  intro rc member
  simpa using all rc member

section Split

variable {hwloc : Hwloc} {parent : Hwpool} {request : SplitRequest} {task : Task}
  {kcolors : List Int} {hwpools : List Hwpool} {created : List Rc} {garbage : Nat → Option Nat}
  {h : Heap}

variable (garbage h) in
/-- The children are made, and the group has a reference of each and its first one. -/
theorem threadSplit_children
    (run : Kernel.threadSplit hwloc parent request task kcolors = .ok hwpools)
    (each : created.length = kcolors.length) :
    ∃ h', h'.refc h.next = some (1 + (successes created).length) ∧ h'.destroyed = h.destroyed ∧
      Live h' h.next (List.range' (h.next + 1) (successes created).length) ∧
      threadSplit hwloc parent request task kcolors .success created garbage h =
        if status created ≠ .success then do
          let unwritten := (List.range' (successes created).length
            (created.length - (successes created).length)).map garbage
          let h ← threadDestroy
            ((List.range' (h.next + 1) (successes created).length).map some ++ unwritten) h'
          return (status created, [], h)
        else do
          let h' ← release h.next h'
          return (status created, List.range' (h.next + 1) (successes created).length, h') := by
  have enough : created.length ≤ hwpools.length := by
    rw [each, length_threadSplit run]
  obtain ⟨h', made, counted, log, -, live⟩ :=
    makeChildren_spec h.next created hwpools (newGroup h).2 1 enough (Function.update_self ..)
      (Nat.lt_succ_self _)
  refine ⟨h', counted, log, live, ?_⟩
  have started : (newGroup h).2.next = h.next + 1 := rfl
  have named : (newGroup h).1 = h.next := rfl
  simp only [threadSplit, run, bind, Except.bind, ne_eq, not_true, if_false, named, made, started,
    List.length_range']

/-- All children are made. -/
theorem balanced_of_success
    (run : Kernel.threadSplit hwloc parent request task kcolors = .ok hwpools)
    (each : created.length = kcolors.length) (all : ∀ rc ∈ created, rc = .success) :
    Balanced h created
      (threadSplit hwloc parent request task kcolors .success created garbage h) := by
  obtain ⟨-, -, -, -, tasks, -⟩ := threadSplit_ok run
  obtain ⟨h', counted, log, live, whole⟩ := threadSplit_children garbage h run each
  have ok := (status_eq_success_iff created).2 all
  rw [successes_eq_self all] at counted live whole
  obtain ⟨k, some_⟩ : ∃ k, created.length = k + 1 := by
    have : kcolors.length ≠ 0 := fun zero => tasks (List.length_eq_zero_iff.1 zero)
    exact ⟨created.length - 1, by omega⟩
  let h₁ : Heap := { h' with refc := Function.update h'.refc h.next (some created.length) }
  have released : release h.next h' = .ok h₁ := by
    have two : h'.refc h.next = some (k + 2) := by
      rw [counted]
      congr 1
      omega
    simp only [release, two, h₁, some_]
  rw [Balanced, if_pos all]
  refine ⟨List.range' (h.next + 1) created.length, h₁, ?_, List.length_range', List.nodup_range',
    live, ?_⟩
  · rw [whole, ok]
    simp only [ne_eq, not_true, if_false, released, bind, Except.bind]
    rfl
  · intro freed rest everyone
    have still : Live h₁ h.next (freed ++ rest) := fun s member => live s (everyone.mem_iff.1 member)
    have long : (freed ++ rest).length = created.length := by
      rw [everyone.length_eq, List.length_range']
    obtain ⟨h'', freedAll, done⟩ := freeAll_spec 0 freed rest h₁
      (everyone.nodup_iff.2 List.nodup_range') still
      (by rw [long, Nat.zero_add]; exact Function.update_self ..) (by omega)
    refine ⟨h'', freedAll, ?_⟩
    rw [done]
    show h'.destroyed ++ _ ++ _ = _
    rw [log]
    by_cases empty : rest = []
    · simp [empty]
    · simp [empty]

/-- A child is not made. -/
theorem not_balanced_of_failure
    (run : Kernel.threadSplit hwloc parent request task kcolors = .ok hwpools)
    (each : created.length = kcolors.length) (fails : ¬ ∀ rc ∈ created, rc = .success) :
    ¬ Balanced h created
      (threadSplit hwloc parent request task kcolors .success created garbage h) := by
  obtain ⟨h', counted, log, live, whole⟩ := threadSplit_children garbage h run each
  have bad := fun same => fails ((status_eq_success_iff created).1 same)
  rw [Balanced, if_neg fails, whole, if_pos bad]
  rintro ⟨h'', outcome, everything⟩
  obtain ⟨h₂, loop, outcome⟩ := bind_ok outcome
  cases outcome
  rw [threadDestroy, List.foldlM_append] at loop
  obtain ⟨h₁, written, loop⟩ := bind_ok loop
  -- the children that were made leave the group its first reference
  obtain ⟨h₁', written', made⟩ := freeAll_spec 1
    (List.range' (h.next + 1) (successes created).length) [] h'
    (by simpa using List.nodup_range') (by simpa using live) (by simpa using counted) (by simp)
  cases written.symm.trans written'
  obtain ⟨more, rest, shape⟩ := destroyed_first _ loop
  rw [rest, made, log] at everything
  simp only [List.length_nil, Nat.add_zero, Nat.one_ne_zero, if_false, List.append_nil] at everything
  have only : more = [.group h.next] :=
    List.perm_singleton.1 ((List.perm_append_left_iff _).1 everything)
  rcases shape with rfl | ⟨s, later, rfl⟩
  · cases only
  · cases only

/-- **When a split over threads is balanced**: exactly if no child fails to be made. -/
theorem balanced_iff (hwloc : Hwloc) (parent : Hwpool) (request : SplitRequest) (task : Task)
    (kcolors : List Int) (hwpools : List Hwpool)
    (run : Kernel.threadSplit hwloc parent request task kcolors = .ok hwpools)
    (created : List Rc) (each : created.length = kcolors.length) (garbage : Nat → Option Nat)
    (h : Heap) :
    Balanced h created
        (threadSplit hwloc parent request task kcolors .success created garbage h) ↔
      ∀ rc ∈ created, rc = .success := by
  constructor
  · intro balanced
    by_contra fails
    exact not_balanced_of_failure run each fails balanced
  · exact balanced_of_success run each

end Split

/-- No objects yet. -/
def emptyHeap : Heap := ⟨fun _ => none, fun _ => none, 0, []⟩

/-- Two threads share a machine with two PUs. -/
theorem twoThreads_split :
    ∃ hwpools, Kernel.threadSplit twoPusOneGpu (.populate twoPusOneGpu {0, 1}) (.split 2) ⟨[{0, 1}]⟩
      [splitPacked, splitPacked] = .ok hwpools := by
  have run : (Kernel.threadSplit twoPusOneGpu (.populate twoPusOneGpu {0, 1}) (.split 2) ⟨[{0, 1}]⟩
      [splitPacked, splitPacked]).isOk = true := by decide +kernel
  cases split : Kernel.threadSplit twoPusOneGpu (.populate twoPusOneGpu {0, 1}) (.split 2) ⟨[{0, 1}]⟩
      [splitPacked, splitPacked] with
  | error fault =>
      rw [split] at run
      cases run
  | ok hwpools => exact ⟨hwpools, rfl⟩

theorem balanced_twoThreads :
    Balanced emptyHeap [.success, .success]
      (threadSplit twoPusOneGpu (.populate twoPusOneGpu {0, 1}) (.split 2) ⟨[{0, 1}]⟩
        [splitPacked, splitPacked] .success [.success, .success] (fun _ => none) emptyHeap) := by
  obtain ⟨hwpools, run⟩ := twoThreads_split
  exact (balanced_iff _ _ _ _ _ hwpools run _ rfl _ _).2 (by decide)

/-- The second of two children is not made: even if its entry happens to be null, only the
first child is destroyed, and the group keeps its first reference. -/
theorem unbalanced_secondFails :
    (∃ h, threadSplit twoPusOneGpu (.populate twoPusOneGpu {0, 1}) (.split 2) ⟨[{0, 1}]⟩
        [splitPacked, splitPacked] .success [.success, .errOor] (fun _ => none) emptyHeap =
          .ok (.errOor, [], h) ∧ h.destroyed = [.scope 1] ∧ h.refc 0 = some 1) ∧
      ¬ Balanced emptyHeap [.success, .errOor]
        (threadSplit twoPusOneGpu (.populate twoPusOneGpu {0, 1}) (.split 2) ⟨[{0, 1}]⟩
          [splitPacked, splitPacked] .success [.success, .errOor] (fun _ => none) emptyHeap) := by
  obtain ⟨hwpools, run⟩ := twoThreads_split
  have fails : ¬ ∀ rc ∈ [Rc.success, .errOor], rc = .success := by decide
  refine ⟨?_, not_balanced_of_failure run rfl fails⟩
  have long : hwpools.length = 2 := length_threadSplit run
  obtain ⟨p, q, rfl⟩ := List.length_eq_two.1 long
  rw [threadSplit, run]
  exact ⟨_, rfl, rfl, rfl⟩

end QuoVadis.Kernel.ThreadScopes
