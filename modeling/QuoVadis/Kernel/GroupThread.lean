/-
# Kernel.GroupThread -- which task a thread of a group gets

`qvi_group_thread` has one task per thread and hands them out by thread ID: the
first call of a thread draws an index and the group's cache remembers it.  The
counter the index is drawn from is a static local of `task`, so all groups of the
process draw from it.

A call holds the mutex of its group from the lookup to the store, and what it
shares with other groups it takes in one atomic step.  So an interleaving of calls
is a list of whole calls.

The cache never evicts while no more threads call than the group has tasks
(`Remembers.task`), so a thread keeps the index of its first call.  Whether two
threads share a task is then decided by the counter at their first calls alone
(`assigned_iff`), and calls on other groups move it (`twoGroups_shareTask`).  In groups
that are called on from their making on, the first calls can be counted
(`assigned_iff_drawnBefore`): a group that is called on alone is safe (`assigned_alone`).
-/
import QuoVadis.Kernel.Base
import QuoVadis.Kernel.LruCache
import Mathlib.Data.Finset.Card
import Mathlib.Data.List.TakeWhile
import Mathlib.Data.Nat.ModEq

namespace QuoVadis.Kernel

set_option autoImplicit false

/-- The number of values of a `size_t`. -/
def sizeTRange : Nat := 2 ^ 64

/-- `qvi_group_thread`. -/
structure ThreadGroup where
  ntasks : Nat
  tid2index : LruCache Nat Nat

/-- The constructor.  Connecting the tasks to the server is left out. -/
def ThreadGroup.ofThreads (nthreads : Nat) : ThreadGroup :=
  ⟨nthreads, .ofCapacity (nthreads * 8)⟩

/-- What the calls share: the static counter and the groups, by address. -/
structure ThreadProcess where
  nextIndex : Nat
  groups : Nat → Option ThreadGroup

/-- A call of `task`: who called, the counter before it, the index of the task returned. -/
structure TaskCall where
  group : Nat
  tid : Nat
  counter : Nat
  index : Nat
  deriving DecidableEq

/-- What happens in a process.  A group may be made at the address of a destroyed one. -/
inductive ThreadEvent where
  | construct (group nthreads : Nat)
  | task (group tid : Nat)
  deriving DecidableEq

namespace ThreadProcess

/-- Nothing has happened yet. -/
def start : ThreadProcess := ⟨0, fun _ => none⟩

/-- `task`, in the thread `mytid`: the index, and what the call leaves. -/
def task (p : ThreadProcess) (group mytid : Nat) : Qv (Nat × ThreadProcess) :=
  match p.groups group with
  | none => .error .trap
  | some g =>
      match g.tid2index.get mytid with
      | (some myindex, tid2index) =>
          -- `m_tasks.at`
          if myindex < g.ntasks then
            .ok (myindex, { p with groups := Function.update p.groups group
                                     (some { g with tid2index := tid2index }) })
          else .error (.thrown .err)
      | (none, tid2index) =>
          if g.ntasks = 0 then .error .trap
          else
            let myindex := p.nextIndex % g.ntasks
            .ok (myindex, ⟨(p.nextIndex + 1) % sizeTRange, Function.update p.groups group
                            (some { g with tid2index := tid2index.put mytid myindex })⟩)

def step (p : ThreadProcess) : ThreadEvent → Qv (ThreadProcess × List TaskCall)
  | .construct group nthreads =>
      .ok (⟨p.nextIndex, Function.update p.groups group (some (.ofThreads nthreads))⟩, [])
  | .task group tid => do
      let (index, q) ← p.task group tid
      return (q, [⟨group, tid, p.nextIndex, index⟩])

/-- The calls of a run, in order. -/
def exec : List ThreadEvent → ThreadProcess → Qv (ThreadProcess × List TaskCall)
  | [], p => .ok (p, [])
  | e :: es, p => do
      let (q, now) ← p.step e
      let (r, later) ← exec es q
      return (r, now ++ later)

end ThreadProcess

/-! ## The history of a group -/

/-- The threads that called `task` on a group. -/
def callers (group : Nat) (calls : List TaskCall) : Finset Nat :=
  ((calls.filter fun call => call.group = group).map fun call => call.tid).toFinset

/-- The counter when a thread called `task` on a group for the first time. -/
def firstCounter (group tid : Nat) (calls : List TaskCall) : Option Nat :=
  (calls.find? fun call => call.group = group ∧ call.tid = tid).map fun call => call.counter

/-- Distinct threads of the group get distinct tasks, and a thread gets one task. -/
def Assigned (group : Nat) (calls : List TaskCall) : Prop :=
  ∀ a ∈ calls, ∀ b ∈ calls, a.group = group → b.group = group →
    (a.tid ≠ b.tid → a.index ≠ b.index) ∧ (a.tid = b.tid → a.index = b.index)

/-- The counter at the first calls of distinct threads differs modulo the group's size. -/
def Spaced (group ntasks : Nat) (calls : List TaskCall) : Prop :=
  ∀ s t x y, s ≠ t → firstCounter group s calls = some x → firstCounter group t calls = some y →
    ¬ x ≡ y [MOD ntasks]

instance (group : Nat) (calls : List TaskCall) : Decidable (Assigned group calls) :=
  inferInstanceAs (Decidable (∀ a ∈ calls, ∀ b ∈ calls, a.group = group → b.group = group →
    (a.tid ≠ b.tid → a.index ≠ b.index) ∧ (a.tid = b.tid → a.index = b.index)))

section History

variable {group tid : Nat} {calls more : List TaskCall}

theorem mem_callers : tid ∈ callers group calls ↔
    ∃ call ∈ calls, call.group = group ∧ call.tid = tid := by
  simp [callers, and_assoc]

theorem callers_append : callers group (calls ++ more) = callers group calls ∪ callers group more := by
  ext tid
  simp only [Finset.mem_union, mem_callers, List.mem_append, or_and_right, exists_or]

/-- Threads that called have a first call. -/
theorem firstCounter_isSome : (firstCounter group tid calls).isSome ↔ tid ∈ callers group calls := by
  rw [firstCounter, Option.isSome_map, List.find?_isSome, mem_callers]
  simp

theorem firstCounter_none : firstCounter group tid calls = none ↔ tid ∉ callers group calls := by
  rw [← firstCounter_isSome, Option.not_isSome_iff_eq_none]

/-- Later calls do not change a first call. -/
theorem firstCounter_append {x : Nat} (first : firstCounter group tid calls = some x) :
    firstCounter group tid (calls ++ more) = some x := by
  rw [firstCounter, List.find?_append]
  cases found : calls.find? fun call => call.group = group ∧ call.tid = tid with
  | none =>
      rw [firstCounter, found] at first
      cases first
  | some call =>
      rw [firstCounter, found] at first
      exact first

/-- A new caller's call is its first. -/
theorem firstCounter_concat_new (new : tid ∉ callers group calls) (counter index : Nat) :
    firstCounter group tid (calls ++ [⟨group, tid, counter, index⟩]) = some counter := by
  have absent := firstCounter_none.2 new
  rw [firstCounter, Option.map_eq_none_iff] at absent
  rw [firstCounter, List.find?_append, absent]
  simp

/-- A call by another thread, or on another group, changes no first call. -/
theorem firstCounter_concat_other {call : TaskCall}
    (other : ¬ (call.group = group ∧ call.tid = tid)) :
    firstCounter group tid (calls ++ [call]) = firstCounter group tid calls := by
  rw [firstCounter, List.find?_append, firstCounter, List.find?_cons_of_neg (by simpa using other)]
  simp

/-- Only the threads that called matter. -/
theorem spaced_iff_callers {ntasks : Nat} : Spaced group ntasks calls ↔
    ∀ s ∈ callers group calls, ∀ t ∈ callers group calls, s ≠ t →
      ¬ (firstCounter group s calls).getD 0 ≡ (firstCounter group t calls).getD 0 [MOD ntasks] := by
  constructor
  · intro spaced s inS t inT apart
    obtain ⟨x, firstS⟩ := Option.isSome_iff_exists.1 (firstCounter_isSome.2 inS)
    obtain ⟨y, firstT⟩ := Option.isSome_iff_exists.1 (firstCounter_isSome.2 inT)
    rw [firstS, firstT]
    exact spaced s t x y apart firstS firstT
  · intro spaced s t x y apart firstS firstT
    have inS : s ∈ callers group calls := firstCounter_isSome.1 (by rw [firstS]; rfl)
    have inT : t ∈ callers group calls := firstCounter_isSome.1 (by rw [firstT]; rfl)
    have := spaced s inS t inT apart
    rw [firstS, firstT] at this
    exact this

instance (ntasks : Nat) : Decidable (Spaced group ntasks calls) :=
  decidable_of_iff _ spaced_iff_callers.symm

end History

/-! ## The cache remembers every first call -/

/-- The index a thread of a group of `ntasks` got with its first call. -/
def FirstIndex (group ntasks tid : Nat) (calls : List TaskCall) (index : Nat) : Prop :=
  ∃ x, firstCounter group tid calls = some x ∧ index = x % ntasks

/-- After the calls `past`, the group's cache has exactly the indexes of the first calls. -/
def Remembers (group ntasks : Nat) (past : List TaskCall) (p : ThreadProcess) : Prop :=
  ∃ cache : LruCache Nat Nat, p.groups group = some ⟨ntasks, cache⟩ ∧ cache.Linked ∧
    cache.capacity = ntasks * 8 ∧
    ∀ tid index, (tid, index) ∈ cache.entries ↔ FirstIndex group ntasks tid past index

section Run

variable {group ntasks : Nat} {past : List TaskCall} {p q : ThreadProcess}

theorem remembers_ofThreads (made : p.groups group = some (.ofThreads ntasks)) :
    Remembers group ntasks [] p := by
  refine ⟨.ofCapacity (ntasks * 8), made, LruCache.linked_ofCapacity _, rfl, fun tid index => ?_⟩
  constructor
  · intro stored
    cases stored
  · rintro ⟨x, first, -⟩
    cases first

/-- The threads in the cache are the threads that called. -/
theorem length_entries_le {cache : LruCache Nat Nat} (linked : cache.Linked)
    (entries : ∀ tid index, (tid, index) ∈ cache.entries ↔ FirstIndex group ntasks tid past index) :
    cache.entries.length ≤ (callers group past).card := by
  have length : cache.entries.length = (cache.cacheList.map fun node => node.key).length := by
    simp [LruCache.entries]
  rw [length, ← List.toFinset_card_of_nodup linked.keys]
  apply Finset.card_le_card
  intro tid inKeys
  obtain ⟨node, member, rfl⟩ := List.mem_map.1 (List.mem_toFinset.1 inKeys)
  obtain ⟨x, first, -⟩ := (entries node.key node.value).1 (List.mem_map.2 ⟨node, member, rfl⟩)
  rw [← firstCounter_isSome, first]
  rfl

/-- A call of a thread that called before gets the index of its first call. -/
theorem Remembers.task_again (rem : Remembers group ntasks past p) (pos : 1 ≤ ntasks) {tid index : Nat}
    (first : FirstIndex group ntasks tid past index) :
    ∃ q, p.task group tid = .ok (index, q) ∧ Remembers group ntasks past q := by
  obtain ⟨cache, here, linked, capacity, entries⟩ := rem
  have stored := (entries tid index).2 first
  obtain ⟨value, linked', capacity', entries'⟩ := linked.get_hit stored
  have small : index < ntasks := by
    obtain ⟨x, -, rfl⟩ := first
    exact Nat.mod_lt x pos
  generalize hit : cache.get tid = got at value linked' capacity' entries'
  obtain ⟨found, cache'⟩ := got
  cases value
  refine ⟨{ p with groups := Function.update p.groups group (some ⟨ntasks, cache'⟩) }, ?_,
    cache', Function.update_self _ _ _, linked', capacity'.trans capacity, fun t i => ?_⟩
  · simp only [ThreadProcess.task, here, hit, if_pos small]
  · rw [← entries t i]
    show (t, i) ∈ cache'.entries ↔ _
    rw [entries', List.mem_cons, List.mem_filter]
    constructor
    · rintro (same | ⟨stored', -⟩)
      · rw [same]
        exact stored
      · exact stored'
    · intro stored'
      by_cases same : t = tid
      · subst same
        rw [linked.entry_unique stored' stored]
        exact .inl rfl
      · exact .inr ⟨stored', by simpa using same⟩

/-- A call of a new thread draws from the counter.  The cache has room for it. -/
theorem Remembers.task_new (rem : Remembers group ntasks past p) (pos : 1 ≤ ntasks) {tid : Nat}
    (new : tid ∉ callers group past) (few : (callers group past).card ≤ ntasks) :
    ∃ q, p.task group tid = .ok (p.nextIndex % ntasks, q) ∧
      Remembers group ntasks (past ++ [⟨group, tid, p.nextIndex, p.nextIndex % ntasks⟩]) q := by
  obtain ⟨cache, here, linked, capacity, entries⟩ := rem
  have missing : cache.cacheMap tid = none := by
    refine (linked.map_none_iff tid).2 fun index stored => ?_
    obtain ⟨x, first, -⟩ := (entries tid index).1 stored
    rw [firstCounter_none.2 new] at first
    cases first
  obtain ⟨linked', capacity', entries'⟩ := linked.put_miss missing (p.nextIndex % ntasks)
  have room : cache.entries.length ≠ cache.capacity := by
    have := length_entries_le linked entries
    omega
  rw [if_neg room] at entries'
  refine ⟨⟨(p.nextIndex + 1) % sizeTRange, Function.update p.groups group
      (some ⟨ntasks, cache.put tid (p.nextIndex % ntasks)⟩)⟩, ?_,
    _, Function.update_self _ _ _, linked', capacity'.trans capacity, fun t i => ?_⟩
  · have nonzero : ntasks ≠ 0 := by omega
    simp only [ThreadProcess.task, here, LruCache.get_miss missing, if_neg nonzero]
  · rw [entries', List.mem_cons, entries t i, FirstIndex, FirstIndex]
    by_cases same : t = tid
    · subst same
      rw [firstCounter_concat_new new, firstCounter_none.2 new]
      simp
    · rw [firstCounter_concat_other fun both => same both.2.symm]
      simp [same]

/-- What one call on the group does. -/
theorem Remembers.task (rem : Remembers group ntasks past p) (pos : 1 ≤ ntasks) (tid : Nat)
    (few : (callers group past).card ≤ ntasks) :
    ∃ index q, p.task group tid = .ok (index, q) ∧
      Remembers group ntasks (past ++ [⟨group, tid, p.nextIndex, index⟩]) q ∧
      FirstIndex group ntasks tid (past ++ [⟨group, tid, p.nextIndex, index⟩]) index := by
  cases first : firstCounter group tid past with
  | none =>
      have new := firstCounter_none.1 first
      obtain ⟨q, called, rem'⟩ := rem.task_new pos new few
      exact ⟨_, q, called, rem', _, firstCounter_concat_new new _ _, rfl⟩
  | some x =>
      obtain ⟨q, called, cache, here, linked, capacity, entries⟩ := rem.task_again pos ⟨x, first, rfl⟩
      refine ⟨x % ntasks, q, called, ⟨cache, here, linked, capacity, fun t i => ?_⟩,
        x, firstCounter_append first, rfl⟩
      rw [entries t i, FirstIndex, FirstIndex]
      by_cases same : t = tid
      · rw [same, first, firstCounter_append first]
      · rw [firstCounter_concat_other fun both => same both.2.symm]

/-- Calls on other groups, and the construction of other groups, leave the group alone. -/
theorem Remembers.of_other (rem : Remembers group ntasks past p)
    (same : q.groups group = p.groups group) {now : List TaskCall}
    (elsewhere : ∀ call ∈ now, call.group ≠ group) :
    Remembers group ntasks (past ++ now) q := by
  obtain ⟨cache, here, linked, capacity, entries⟩ := rem
  refine ⟨cache, same.trans here, linked, capacity, fun tid index => ?_⟩
  have first : firstCounter group tid (past ++ now) = firstCounter group tid past := by
    cases before : firstCounter group tid past with
    | some x => exact firstCounter_append before
    | none =>
        rw [firstCounter_none, callers_append, Finset.mem_union, not_or]
        refine ⟨firstCounter_none.1 before, fun called => ?_⟩
        obtain ⟨call, inNow, here', -⟩ := mem_callers.1 called
        exact elsewhere call inNow here'
  rw [entries tid index, FirstIndex, FirstIndex, first]

end Run

namespace ThreadProcess

variable {group ntasks : Nat} {past : List TaskCall} {p q : ThreadProcess}

/-- A call changes its own group and the counter only. -/
theorem task_other {other tid index : Nat} (called : p.task other tid = .ok (index, q))
    (apart : group ≠ other) : q.groups group = p.groups group := by
  unfold task at called
  cases here : p.groups other with
  | none =>
      rw [here] at called
      cases called
  | some g =>
      rw [here] at called
      dsimp only at called
      split at called
      · split at called
        · cases called
          exact Function.update_of_ne apart _ _
        · cases called
      · split at called
        · cases called
        · cases called
          exact Function.update_of_ne apart _ _

/-- Every step keeps what the group remembers, and a call on it gets the index of its
thread's first call. -/
theorem step_remembers (rem : Remembers group ntasks past p) (pos : 1 ≤ ntasks) {e : ThreadEvent}
    (own : ∀ m, e ≠ .construct group m) {now : List TaskCall} (ran : p.step e = .ok (q, now))
    (few : (callers group past).card ≤ ntasks) :
    Remembers group ntasks (past ++ now) q ∧ ∀ call ∈ now, call.group = group →
      FirstIndex group ntasks call.tid (past ++ now) call.index := by
  cases e with
  | construct other nthreads =>
      cases ran
      have apart : group ≠ other := fun same => own nthreads (by rw [same])
      refine ⟨rem.of_other (Function.update_of_ne apart _ _) fun call inNow => ?_, fun call inNow => ?_⟩
      · cases inNow
      · cases inNow
  | task other tid =>
      by_cases here : other = group
      · subst here
        obtain ⟨index, r, called, rem', first⟩ := rem.task pos tid few
        rw [step, called] at ran
        cases ran
        refine ⟨rem', fun call inNow _ => ?_⟩
        rw [List.mem_singleton.1 inNow]
        exact first
      · obtain ⟨left, called, ran⟩ := bind_ok ran
        cases ran
        have elsewhere : ∀ call ∈ [(⟨other, tid, p.nextIndex, left.1⟩ : TaskCall)],
            call.group ≠ group := by
          intro call inNow
          rw [List.mem_singleton.1 inNow]
          exact here
        exact ⟨rem.of_other (task_other called (Ne.symm here)) elsewhere,
          fun call inNow same => absurd same (elsewhere call inNow)⟩

/-- A run is a step and the rest of the run. -/
theorem exec_cons {e : ThreadEvent} {es : List ThreadEvent} {calls : List TaskCall}
    (ran : exec (e :: es) p = .ok (q, calls)) :
    ∃ r now later, p.step e = .ok (r, now) ∧ exec es r = .ok (q, later) ∧ calls = now ++ later := by
  obtain ⟨left, first, ran⟩ := bind_ok ran
  obtain ⟨left', rest, ran⟩ := bind_ok ran
  cases ran
  exact ⟨left.1, left.2, left'.2, first, rest, rfl⟩

/-- Every call of a run on the group gets the index of its thread's first call. -/
theorem exec_firstIndex (pos : 1 ≤ ntasks) {events : List ThreadEvent} {calls : List TaskCall}
    (rem : Remembers group ntasks past p) (own : ∀ m, .construct group m ∉ events)
    (ran : exec events p = .ok (q, calls)) (few : (callers group (past ++ calls)).card ≤ ntasks) :
    ∀ call ∈ calls, call.group = group →
      FirstIndex group ntasks call.tid (past ++ calls) call.index := by
  induction events generalizing past p calls with
  | nil =>
      cases ran
      intro call inCalls
      cases inCalls
  | cons e es ih =>
      obtain ⟨r, now, later, first, rest, rfl⟩ := exec_cons ran
      have fewPast : (callers group past).card ≤ ntasks := by
        refine le_trans (Finset.card_le_card ?_) few
        rw [callers_append]
        exact Finset.subset_union_left
      have ownFirst : ∀ m, e ≠ .construct group m := fun m eq =>
        own m (by rw [eq]; exact List.mem_cons_self)
      obtain ⟨rem', gotNow⟩ := step_remembers rem pos ownFirst first fewPast
      rw [← List.append_assoc] at few ⊢
      intro call inCalls same
      cases List.mem_append.1 inCalls with
      | inl inNow =>
          obtain ⟨x, counter, index⟩ := gotNow call inNow same
          exact ⟨x, firstCounter_append counter, index⟩
      | inr inLater =>
          exact ih rem' (fun m inEs => own m (List.mem_cons_of_mem e inEs)) rest few call inLater same

/-- The same from the construction of the group on. -/
theorem exec_construct_firstIndex {after : List ThreadEvent} {calls : List TaskCall}
    (pos : 1 ≤ ntasks) (own : ∀ m, .construct group m ∉ after)
    (ran : exec (.construct group ntasks :: after) p = .ok (q, calls))
    (few : (callers group calls).card ≤ ntasks) :
    ∀ call ∈ calls, call.group = group → FirstIndex group ntasks call.tid calls call.index := by
  obtain ⟨r, now, later, made, rest, rfl⟩ := exec_cons ran
  cases made
  exact exec_firstIndex pos (remembers_ofThreads (Function.update_self _ _ _)) own rest few

/-! ## Distinct threads, distinct tasks -/

/-- Threads that get the indexes of their first calls get distinct tasks if and only if the
counter at these calls differs modulo `ntasks`. -/
theorem assigned_iff_spaced {calls : List TaskCall} (got : ∀ call ∈ calls, call.group = group →
    FirstIndex group ntasks call.tid calls call.index) :
    Assigned group calls ↔ Spaced group ntasks calls := by
  constructor
  · intro assigned s t x y apart firstS firstT congruent
    obtain ⟨a, inA, groupA, tidA⟩ := mem_callers.1 (firstCounter_isSome.1 (by rw [firstS]; rfl))
    obtain ⟨b, inB, groupB, tidB⟩ := mem_callers.1 (firstCounter_isSome.1 (by rw [firstT]; rfl))
    obtain ⟨x', firstA, indexA⟩ := got a inA groupA
    obtain ⟨y', firstB, indexB⟩ := got b inB groupB
    rw [tidA, firstS] at firstA
    rw [tidB, firstT] at firstB
    cases firstA
    cases firstB
    refine (assigned a inA b inB groupA groupB).1 ?_ ?_
    · rw [tidA, tidB]
      exact apart
    · rw [indexA, indexB]
      exact congruent
  · intro spaced a inA b inB groupA groupB
    obtain ⟨x, firstA, indexA⟩ := got a inA groupA
    obtain ⟨y, firstB, indexB⟩ := got b inB groupB
    constructor
    · intro apart same
      apply spaced a.tid b.tid x y apart firstA firstB
      show x % ntasks = y % ntasks
      rw [← indexA, ← indexB, same]
    · intro same
      rw [← same, firstA] at firstB
      cases firstB
      rw [indexA, indexB]

/-- A group of `ntasks` tasks is made in any state of the process and no more than
`ntasks` threads call `task` on it, in any interleaving with calls on other groups.  Each
thread then gets one task, and distinct threads distinct tasks, if and only if the
counter at their first calls differs modulo `ntasks`. -/
theorem assigned_iff {after : List ThreadEvent} {calls : List TaskCall}
    (pos : 1 ≤ ntasks) (own : ∀ m, .construct group m ∉ after)
    (ran : exec (.construct group ntasks :: after) p = .ok (q, calls))
    (few : (callers group calls).card ≤ ntasks) :
    Assigned group calls ↔ Spaced group ntasks calls :=
  assigned_iff_spaced (exec_construct_firstIndex pos own ran few)

/-- Two groups of two tasks.  Two calls on the second group between the first calls on
the first one leave the counter where it has to be. -/
theorem assigned_twoGroups :
    ∃ q calls, exec [.construct 0 2, .construct 1 2, .task 0 101, .task 1 201, .task 1 202,
        .task 0 102, .task 0 101] start = .ok (q, calls) ∧
      (callers 0 calls).card = 2 ∧ Assigned 0 calls := by
  have run : ∃ q, exec [.construct 0 2, .construct 1 2, .task 0 101, .task 1 201, .task 1 202,
      .task 0 102, .task 0 101] start = .ok (q, [⟨0, 101, 0, 0⟩, ⟨1, 201, 1, 1⟩, ⟨1, 202, 2, 0⟩,
        ⟨0, 102, 3, 1⟩, ⟨0, 101, 4, 0⟩]) := ⟨_, rfl⟩
  obtain ⟨q, ran⟩ := run
  exact ⟨q, _, ran, by decide, (assigned_iff (by decide) (by simp) ran (by decide)).2 (by decide)⟩

/-- One call on the second group in between, and both threads of the first group get
its first task. -/
theorem twoGroups_shareTask :
    ∃ q calls, exec [.construct 0 2, .construct 1 2, .task 0 101, .task 1 201, .task 0 102]
        start = .ok (q, calls) ∧
      (callers 0 calls).card = 2 ∧ ¬ Assigned 0 calls :=
  ⟨_, [⟨0, 101, 0, 0⟩, ⟨1, 201, 1, 1⟩, ⟨0, 102, 2, 0⟩], rfl, by decide, by decide⟩

/-! ## Counting the first calls -/

/-- The groups that have been called on, with the threads that called. -/
def firstCalls (calls : List TaskCall) : Finset (Nat × Nat) :=
  (calls.map fun call => (call.group, call.tid)).toFinset

/-- The calls before a thread's first call on a group. -/
def callsBefore (group tid : Nat) (calls : List TaskCall) : List TaskCall :=
  calls.takeWhile fun call => ¬ (call.group = group ∧ call.tid = tid)

/-- How many first calls there were, on all groups, before a thread's first call on a group. -/
def drawnBefore (group tid : Nat) (calls : List TaskCall) : Nat :=
  (firstCalls (callsBefore group tid calls)).card

theorem mem_firstCalls {calls : List TaskCall} {tid : Nat} :
    (group, tid) ∈ firstCalls calls ↔ tid ∈ callers group calls := by
  simp [firstCalls, mem_callers]

theorem firstCalls_append (calls more : List TaskCall) :
    firstCalls (calls ++ more) = firstCalls calls ∪ firstCalls more := by
  simp [firstCalls]

theorem not_called_before {calls : List TaskCall} {tid : Nat} :
    tid ∉ callers group (callsBefore group tid calls) := by
  intro early
  obtain ⟨call, member, ofCall⟩ := mem_callers.1 early
  have not_ := List.mem_takeWhile_imp member
  simp [ofCall] at not_

/-- The first call of a thread, and what comes before it. -/
theorem split_firstCall {calls : List TaskCall} {tid : Nat} (called : tid ∈ callers group calls) :
    ∃ call after, call.group = group ∧ call.tid = tid ∧
      calls = callsBefore group tid calls ++ call :: after ∧
      firstCounter group tid calls = some call.counter := by
  induction calls with
  | nil => simp [callers] at called
  | cons call rest ih =>
      by_cases here : call.group = group ∧ call.tid = tid
      · have none_ : callsBefore group tid (call :: rest) = [] :=
          List.takeWhile_cons_of_neg (by simpa using here)
        refine ⟨call, rest, here.1, here.2, by rw [none_, List.nil_append], ?_⟩
        rw [firstCounter, List.find?_cons_of_pos (by simpa using here)]
        rfl
      · have before : callsBefore group tid (call :: rest) = call :: callsBefore group tid rest :=
          List.takeWhile_cons_of_pos (decide_eq_true here)
        have later : tid ∈ callers group rest := by
          rw [mem_callers] at called ⊢
          obtain ⟨c, member, ofC⟩ := called
          rcases List.mem_cons.1 member with rfl | inRest
          · exact absurd ofC here
          · exact ⟨c, inRest, ofC⟩
        obtain ⟨c, after, ofGroup, ofTid, split, first⟩ := ih later
        refine ⟨c, after, ofGroup, ofTid, by rw [before, List.cons_append, ← split], ?_⟩
        rw [firstCounter, List.find?_cons_of_neg (by simpa using here)]
        exact first

theorem callsBefore_subset (calls : List TaskCall) (tid : Nat) :
    firstCalls (callsBefore group tid calls) ⊆ firstCalls calls := by
  obtain ⟨more, whole⟩ : callsBefore group tid calls <+: calls := List.takeWhile_prefix _
  have union := congrArg firstCalls whole
  rw [firstCalls_append] at union
  exact Finset.subset_union_left.trans union.subset

/-- A first call comes after fewer first calls than there are. -/
theorem drawnBefore_lt {calls : List TaskCall} {tid : Nat} (called : tid ∈ callers group calls) :
    drawnBefore group tid calls < (firstCalls calls).card :=
  Finset.card_lt_card ((Finset.ssubset_iff_of_subset (callsBefore_subset calls tid)).2
    ⟨(group, tid), mem_firstCalls.2 called, fun early => not_called_before (mem_firstCalls.1 early)⟩)

/-- Of two threads the one calls first on the group, and the other comes after more first
calls. -/
theorem drawnBefore_ne {calls : List TaskCall} {s t : Nat} (inS : s ∈ callers group calls)
    (inT : t ∈ callers group calls) (apart : s ≠ t) :
    drawnBefore group s calls ≠ drawnBefore group t calls := by
  have earlier : ∀ {s t : Nat}, s ∈ callers group calls → s ≠ t →
      callsBefore group s calls <+: callsBefore group t calls →
      t ∈ callers group calls → drawnBefore group s calls < drawnBefore group t calls := by
    intro s t inS apart starts inT
    obtain ⟨more, shape⟩ := starts
    obtain ⟨call, after, ofGroup, ofTid, split, -⟩ := split_firstCall inS
    obtain ⟨call', after', -, ofTid', split', -⟩ := split_firstCall inT
    -- what comes next is the first call of `s`, which is not that of `t`
    have next : more ++ call' :: after' = call :: after := by
      rw [← shape, List.append_assoc] at split'
      exact List.append_cancel_left (split'.symm.trans split)
    cases more with
    | nil =>
        obtain ⟨rfl, -⟩ := List.cons.inj next
        exact absurd (ofTid.symm.trans ofTid') apart
    | cons c more =>
        obtain ⟨rfl, -⟩ := List.cons.inj next
        refine Finset.card_lt_card ((Finset.ssubset_iff_of_subset ?_).2 ⟨(group, s), ?_,
          fun early => not_called_before (mem_firstCalls.1 early)⟩)
        · rw [← shape, firstCalls_append]
          exact Finset.subset_union_left
        · rw [mem_firstCalls, mem_callers, ← shape]
          exact ⟨c, by simp, ofGroup, ofTid⟩
  rcases List.prefix_or_prefix_of_prefix (List.takeWhile_prefix _) (List.takeWhile_prefix _) with
    sFirst | tFirst
  · exact (earlier inS apart sFirst inT).ne
  · exact (earlier inT apart.symm tFirst inS).ne'

/-- The counter moves at the first call of a thread, and only then. -/
theorem nextIndex_of_task (rem : Remembers group ntasks past p) {tid index : Nat}
    (called : p.task group tid = .ok (index, q)) :
    q.nextIndex = if tid ∈ callers group past then p.nextIndex else (p.nextIndex + 1) % sizeTRange := by
  obtain ⟨cache, here, linked, -, entries⟩ := rem
  simp only [task, here] at called
  split
  · rename_i old
    obtain ⟨x, first⟩ := Option.isSome_iff_exists.1 (firstCounter_isSome.2 old)
    obtain ⟨value, -⟩ := linked.get_hit ((entries tid (x % ntasks)).2 ⟨x, first, rfl⟩)
    generalize hit : cache.get tid = got at value called
    obtain ⟨found, cache'⟩ := got
    cases value
    dsimp only at called
    split at called
    · cases called
      rfl
    · cases called
  · rename_i new
    have missing : cache.cacheMap tid = none := by
      refine (linked.map_none_iff tid).2 fun index stored => ?_
      obtain ⟨x, first, -⟩ := (entries tid index).1 stored
      rw [firstCounter_none.2 new] at first
      cases first
    rw [LruCache.get_miss missing] at called
    dsimp only at called
    split at called
    · cases called
    · cases called
      rfl

/-- What holds after the calls `past` on groups that are called on from their making on:
they remember, and every first call has drawn from the counter. -/
structure Counted (groups : List (Nat × Nat)) (counter : Nat) (past : List TaskCall)
    (p : ThreadProcess) : Prop where
  remembers : ∀ g ∈ groups, Remembers g.1 g.2 past p
  next : p.nextIndex = (counter + (firstCalls past).card) % sizeTRange

variable {groups : List (Nat × Nat)} {counter : Nat}

theorem Counted.step (counted : Counted groups counter past p) (pos : ∀ g ∈ groups, 1 ≤ g.2)
    {tid : Nat} {now : List TaskCall} (member : (group, ntasks) ∈ groups)
    (ran : p.step (.task group tid) = .ok (q, now))
    (few : ∀ g ∈ groups, (callers g.1 past).card ≤ g.2) :
    Counted groups counter (past ++ now) q ∧ ∃ index, now = [⟨group, tid, p.nextIndex, index⟩] := by
  refine ⟨⟨fun g inGroups => (step_remembers (counted.remembers g inGroups) (pos g inGroups)
    (fun _ same => by cases same) ran (few g inGroups)).1, ?_⟩, ?_⟩
  · obtain ⟨left, called, ran⟩ := bind_ok ran
    cases ran
    have one : firstCalls [⟨group, tid, p.nextIndex, left.1⟩] = {(group, tid)} := rfl
    rw [nextIndex_of_task (counted.remembers _ member) called, firstCalls_append, one, counted.next]
    split
    · rename_i old
      rw [Finset.union_eq_left.2 (Finset.singleton_subset_iff.2 (mem_firstCalls.2 old))]
    · rename_i new
      have absent : (group, tid) ∉ firstCalls past := fun old => new (mem_firstCalls.1 old)
      rw [Finset.union_comm, ← Finset.insert_eq, Finset.card_insert_of_notMem absent, Nat.mod_add_mod,
        Nat.add_assoc]
  · obtain ⟨left, called, ran⟩ := bind_ok ran
    cases ran
    exact ⟨_, rfl⟩

/-- **The counter at a call** is the number of first calls before it. -/
theorem Counted.exec (pos : ∀ g ∈ groups, 1 ≤ g.2) {run : List (Nat × Nat)} {calls : List TaskCall}
    (on : ∀ c ∈ run, ∃ n, (c.1, n) ∈ groups) (counted : Counted groups counter past p)
    (ran : exec (run.map fun c => .task c.1 c.2) p = .ok (q, calls))
    (few : ∀ g ∈ groups, (callers g.1 (past ++ calls)).card ≤ g.2) :
    ∀ before call after, calls = before ++ call :: after →
      call.counter = (counter + (firstCalls (past ++ before)).card) % sizeTRange := by
  induction run generalizing past p calls with
  | nil =>
      cases ran
      intro before call after split
      simp at split
  | cons c rest ih =>
      obtain ⟨r, now, later, first, rest_, rfl⟩ := exec_cons ran
      obtain ⟨n, member⟩ := on c List.mem_cons_self
      have fewPast : ∀ g ∈ groups, (callers g.1 past).card ≤ g.2 := by
        intro g inGroups
        refine le_trans (Finset.card_le_card ?_) (few g inGroups)
        rw [callers_append]
        exact Finset.subset_union_left
      obtain ⟨counted', index, rfl⟩ := counted.step pos member first fewPast
      intro before call after split
      cases before with
      | nil =>
          obtain ⟨rfl, -⟩ := List.cons.inj split
          rw [List.append_nil]
          exact counted.next
      | cons b before =>
          obtain ⟨rfl, tail⟩ := List.cons.inj split
          have next := ih (fun c inRest => on c (List.mem_cons_of_mem _ inRest)) counted' rest_
            (by simpa using few) before call after tail
          simpa using next

/-- **When groups that are called on from their making on give distinct threads distinct
tasks**, in terms of the calls: the numbers of first calls, on any of the groups, before the
first calls of two threads differ modulo the size of their group. -/
theorem assigned_iff_drawnBefore (made : ∀ g ∈ groups, p.groups g.1 = some (.ofThreads g.2))
    (pos : ∀ g ∈ groups, 1 ≤ g.2) {run : List (Nat × Nat)} {calls : List TaskCall}
    (on : ∀ c ∈ run, ∃ n, (c.1, n) ∈ groups)
    (ran : exec (run.map fun c => .task c.1 c.2) p = .ok (q, calls))
    (few : ∀ g ∈ groups, (callers g.1 calls).card ≤ g.2)
    (room : p.nextIndex + (firstCalls calls).card ≤ sizeTRange) (member : (group, ntasks) ∈ groups) :
    Assigned group calls ↔ ∀ s ∈ callers group calls, ∀ t ∈ callers group calls, s ≠ t →
      ¬ drawnBefore group s calls ≡ drawnBefore group t calls [MOD ntasks] := by
  have none_ : ∀ m, .construct group m ∉ run.map fun c : Nat × Nat => (.task c.1 c.2 : ThreadEvent) := by
    simp
  have got := exec_firstIndex (pos _ member) (remembers_ofThreads (made _ member)) none_ ran (few _ member)
  rw [List.nil_append] at got
  rw [assigned_iff_spaced got, spaced_iff_callers]
  -- the counter at a first call
  have small : ∀ t ∈ callers group calls,
      (firstCounter group t calls).getD 0 = p.nextIndex + drawnBefore group t calls := by
    intro t called
    obtain ⟨call, after, -, -, split, first⟩ := split_firstCall called
    have less : drawnBefore group t calls < (firstCalls calls).card := drawnBefore_lt called
    have counted : Counted groups p.nextIndex [] p :=
      ⟨fun g inGroups => remembers_ofThreads (made g inGroups), by
        rw [show (firstCalls []).card = 0 from rfl, Nat.add_zero, Nat.mod_eq_of_lt (by omega)]⟩
    rw [first, Option.getD_some, counted.exec pos on ran few _ _ _ split, List.nil_append]
    exact Nat.mod_eq_of_lt (by rw [drawnBefore] at less; omega)
  refine forall₄_congr fun s inS t inT => imp_congr_right fun apart => not_congr ?_
  rw [small s inS, small t inT]
  exact ⟨Nat.ModEq.add_left_cancel' _, Nat.ModEq.add_left _⟩

/-- **A group that is called on alone** gives distinct threads distinct tasks, unless the
counter wraps. -/
theorem assigned_alone (pos : 1 ≤ ntasks) {tids : List Nat} {calls : List TaskCall}
    (ran : exec (.construct group ntasks :: tids.map (.task group ·)) p = .ok (q, calls))
    (few : (callers group calls).card ≤ ntasks)
    (room : p.nextIndex + (firstCalls calls).card ≤ sizeTRange)
    (lone : ∀ call ∈ calls, call.group = group) : Assigned group calls := by
  obtain ⟨r, now, later, first, rest, rfl⟩ := exec_cons ran
  cases first
  rw [List.nil_append] at few room lone ⊢
  have count : (firstCalls later).card ≤ ntasks := by
    refine le_trans (Finset.card_le_card_of_injOn Prod.snd (fun c member => ?_) ?_) few
    · obtain ⟨call, inCalls, rfl⟩ := List.mem_map.1 (List.mem_toFinset.1 member)
      exact mem_callers.2 ⟨call, inCalls, lone call inCalls, rfl⟩
    · intro c inC d inD same
      obtain ⟨call, inCalls, rfl⟩ := List.mem_map.1 (List.mem_toFinset.1 inC)
      obtain ⟨call', inCalls', rfl⟩ := List.mem_map.1 (List.mem_toFinset.1 inD)
      exact Prod.ext ((lone call inCalls).trans (lone call' inCalls').symm) same
  have made : ∀ g ∈ [(group, ntasks)],
      Function.update p.groups group (some (.ofThreads ntasks)) g.1 = some (.ofThreads g.2) := by
    simp
  have ran' : exec ((tids.map fun tid => (group, tid)).map fun c => .task c.1 c.2)
      ⟨p.nextIndex, Function.update p.groups group (some (.ofThreads ntasks))⟩ = .ok (q, later) := by
    rw [List.map_map]
    exact rest
  have counts := assigned_iff_drawnBefore made (by simpa using pos) (by simp) ran'
    (by simpa using few) room (List.mem_singleton_self _)
  refine counts.2 fun s inS t inT apart congruent => drawnBefore_ne inS inT apart ?_
  exact Nat.ModEq.eq_of_lt_of_lt congruent ((drawnBefore_lt inS).trans_le count)
    ((drawnBefore_lt inT).trans_le count)

end ThreadProcess

end QuoVadis.Kernel
