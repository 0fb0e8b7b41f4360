/-
# Kernel.LruIdeal -- the cache holds what was used last

A run of the cache is seen from outside: which keys were put and got, and which of
the gets were successful.  A put and a successful get use their key, and nothing else
counts as a use.  `Ideal` says that the cache then holds the first keys of
`Theory.byRecency`, as many as it has room for, each with the value that was put last;
`ideal_step` keeps it on all four paths, and

* `lruCache_ideal`: a get is answered from the history alone.
-/
import QuoVadis.Kernel.LruCache
import QuoVadis.Theory.Recency

namespace QuoVadis.Kernel

open QuoVadis.Theory

set_option autoImplicit false

universe u v

/-- The operations of a cache. -/
inductive LruOp (K : Type u) (V : Type v) where
  | put (key : K) (value : V)
  | get (key : K)

namespace LruCache

variable {K : Type u} {V : Type v} [DecidableEq K]

def step (c : LruCache K V) : LruOp K V → LruCache K V
  | .put key value => c.put key value
  | .get key => (c.get key).2

/-- The key an operation uses: that of a put, and of a get that succeeds. -/
def touches (c : LruCache K V) : LruOp K V → List K
  | .put key _ => [key]
  | .get key => if (c.get key).1.isSome then [key] else []

/-- The cache after a sequence of operations, and the keys used, the latest first. -/
def run (capacity : Nat) (ops : List (LruOp K V)) : LruCache K V × List K :=
  ops.foldl (fun st op => (st.1.step op, st.1.touches op ++ st.2)) (ofCapacity capacity, [])

/-- The value of the last put of a key. -/
def lastPut (key : K) (ops : List (LruOp K V)) : Option V :=
  ops.reverse.findSome? fun
    | .put k value => if k = key then some value else none
    | .get _ => none

theorem run_concat (capacity : Nat) (ops : List (LruOp K V)) (op : LruOp K V) :
    run capacity (ops ++ [op]) =
      ((run capacity ops).1.step op, (run capacity ops).1.touches op ++ (run capacity ops).2) := by
  rw [run, List.foldl_append]
  rfl

theorem lastPut_put (key k : K) (value : V) (ops : List (LruOp K V)) :
    lastPut key (ops ++ [.put k value]) = if k = key then some value else lastPut key ops := by
  unfold lastPut
  rw [List.reverse_append, List.reverse_singleton, List.singleton_append, List.findSome?_cons]
  by_cases same : k = key
  · simp [same]
  · simp [same]

theorem lastPut_get (key k : K) (ops : List (LruOp K V)) :
    lastPut key (ops ++ [.get k]) = lastPut key ops := by
  unfold lastPut
  rw [List.reverse_append, List.reverse_singleton, List.singleton_append, List.findSome?_cons]

/-! ## The cache and the history -/

/-- The cache holds the most recently used keys, with the values put last. -/
structure Ideal (capacity : Nat) (ops : List (LruOp K V)) (st : LruCache K V × List K) : Prop where
  linked : st.1.Linked
  room : st.1.capacity = capacity
  keys : st.1.entries.map Prod.fst = (byRecency st.2).take capacity
  values : ∀ key value, (key, value) ∈ st.1.entries → lastPut key ops = some value
  used : ∀ key value, lastPut key ops = some value → key ∈ st.2

variable {capacity : Nat} {ops : List (LruOp K V)} {st : LruCache K V × List K}

theorem ideal_ofCapacity : Ideal capacity ([] : List (LruOp K V)) (ofCapacity capacity, []) where
  linked := linked_ofCapacity capacity
  room := rfl
  keys := by simp [ofCapacity, entries, byRecency]
  values := by simp [ofCapacity, entries]
  used := by simp [lastPut]

/-- What is in the map is among the most recently used keys. -/
theorem Ideal.mem_take_iff (ideal : Ideal capacity ops st) (key : K) :
    key ∈ (byRecency st.2).take capacity ↔ ∃ value, (key, value) ∈ st.1.entries := by
  rw [← ideal.keys, List.mem_map]
  constructor
  · rintro ⟨⟨k, value⟩, stored, rfl⟩
    exact ⟨value, stored⟩
  · rintro ⟨value, stored⟩
    exact ⟨(key, value), stored, rfl⟩

theorem map_fst_filter (entries : List (K × V)) (key : K) :
    (entries.filter fun entry => entry.1 ≠ key).map Prod.fst =
      (entries.map Prod.fst).filter (· ≠ key) := by
  rw [List.filter_map]
  rfl

/-- A use of a stored key: its entry comes to the front, perhaps with another value. -/
theorem Ideal.hit (ideal : Ideal capacity ops st) {c : LruCache K V} {key : K} {value : V}
    {op : LruOp K V} (linked : c.Linked) (room : c.capacity = st.1.capacity)
    (stored : ∃ old, (key, old) ∈ st.1.entries)
    (entries : c.entries = (key, value) :: st.1.entries.filter fun entry => entry.1 ≠ key)
    (here : lastPut key (ops ++ [op]) = some value)
    (others : ∀ k, k ≠ key → lastPut k (ops ++ [op]) = lastPut k ops) :
    Ideal capacity (ops ++ [op]) (c, key :: st.2) where
  linked := linked
  room := room.trans ideal.room
  keys := by
    rw [entries, List.map_cons, map_fst_filter, ideal.keys,
      take_byRecency_hit ((ideal.mem_take_iff key).2 stored)]
  values := by
    intro k v member
    rw [entries] at member
    rcases List.mem_cons.1 member with first | later
    · cases first
      exact here
    · obtain ⟨inside, other⟩ := List.mem_filter.1 later
      rw [others k (by simpa using other)]
      exact ideal.values k v inside
  used := by
    intro k v last
    by_cases same : k = key
    · exact same ▸ List.mem_cons_self
    · rw [others k same] at last
      exact List.mem_cons_of_mem _ (ideal.used k v last)

/-- A put of a key that is not stored. -/
theorem Ideal.miss (some_ : 0 < capacity) (ideal : Ideal capacity ops st) {key : K}
    (missing : st.1.cacheMap key = none) (value : V) :
    Ideal capacity (ops ++ [.put key value]) (st.1.put key value, key :: st.2) := by
  obtain ⟨linked, room, entries⟩ := ideal.linked.put_miss missing value
  have absent := (ideal.linked.map_none_iff key).1 missing
  have length : (st.1.entries.map Prod.fst).length = st.1.entries.length := List.length_map _
  refine ⟨linked, room.trans ideal.room, ?_, ?_, ?_⟩
  · have outside : key ∉ (byRecency st.2).take capacity := by
      rw [ideal.mem_take_iff]
      rintro ⟨old, stored⟩
      exact absent old stored
    rw [entries, take_byRecency_miss some_ outside, ← ideal.keys, length, ideal.room, List.map_cons]
    by_cases full : st.1.entries.length = capacity
    · rw [if_pos full, if_pos full, List.map_dropLast]
    · rw [if_neg full, if_neg full]
  · intro k v member
    rw [entries] at member
    rw [lastPut_put]
    rcases List.mem_cons.1 member with first | later
    · cases first
      rw [if_pos rfl]
    · have stored : (k, v) ∈ st.1.entries := by
        split at later
        · exact List.mem_of_mem_dropLast later
        · exact later
      have other : key ≠ k := by
        rintro rfl
        exact absent v stored
      rw [if_neg other]
      exact ideal.values k v stored
  · intro k v last
    rw [lastPut_put] at last
    by_cases same : key = k
    · exact same ▸ List.mem_cons_self
    · rw [if_neg same] at last
      exact List.mem_cons_of_mem _ (ideal.used k v last)

/-- **Every operation keeps the cache ideal.** -/
theorem ideal_step (some_ : 0 < capacity) (ideal : Ideal capacity ops st) (op : LruOp K V) :
    Ideal capacity (ops ++ [op]) (st.1.step op, st.1.touches op ++ st.2) := by
  cases op with
  | put key value =>
      cases lookup : st.1.cacheMap key with
      | none => exact ideal.miss some_ lookup value
      | some it =>
          obtain ⟨linked, room, entries⟩ := ideal.linked.put_hit lookup value
          refine ideal.hit linked room (ideal.linked.exists_entry lookup) entries ?_ ?_
          · rw [lastPut_put, if_pos rfl]
          · intro k other
            rw [lastPut_put, if_neg (Ne.symm other)]
  | get key =>
      cases lookup : st.1.cacheMap key with
      | none =>
          have same : st.1.get key = (none, st.1) := get_miss lookup
          simp only [step, touches, same, Option.isSome_none, Bool.false_eq_true, if_false,
            List.nil_append]
          refine ⟨ideal.linked, ideal.room, ideal.keys, ?_, ?_⟩
          · intro k v stored
            rw [lastPut_get]
            exact ideal.values k v stored
          · intro k v last
            rw [lastPut_get] at last
            exact ideal.used k v last
      | some it =>
          obtain ⟨old, stored⟩ := ideal.linked.exists_entry lookup
          obtain ⟨value, linked, room, entries⟩ := ideal.linked.get_hit stored
          have touched : st.1.touches (.get key) = [key] := by
            simp [touches, value]
          rw [touched]
          refine ideal.hit linked room ⟨_, stored⟩ entries ?_ ?_
          · rw [lastPut_get]
            exact ideal.values _ _ stored
          · intro k _
            exact lastPut_get k _ ops

theorem ideal_run (some_ : 0 < capacity) (ops : List (LruOp K V)) :
    Ideal capacity ops (run capacity ops) := by
  induction ops using List.reverseRecOn with
  | nil => exact ideal_ofCapacity
  | append_singleton ops op ih =>
      rw [run_concat]
      exact ideal_step some_ ih op

/-- A get answers with the entry of the key. -/
theorem Linked.get_eq_some_iff {c : LruCache K V} (linked : c.Linked) (key : K) (value : V) :
    (c.get key).1 = some value ↔ (key, value) ∈ c.entries := by
  constructor
  · intro got
    cases lookup : c.cacheMap key with
    | none =>
        rw [get_miss lookup] at got
        cases got
    | some it =>
        obtain ⟨old, stored⟩ := linked.exists_entry lookup
        rw [(linked.get_hit stored).1] at got
        cases got
        exact stored
  · intro stored
    exact (linked.get_hit stored).1

/-- A get that fails changes nothing. -/
theorem Linked.get_none {c : LruCache K V} (linked : c.Linked) {key : K}
    (failed : (c.get key).1 = none) : (c.get key).2 = c := by
  cases lookup : c.cacheMap key with
  | none => rw [get_miss lookup]
  | some it =>
      obtain ⟨old, stored⟩ := linked.exists_entry lookup
      rw [(linked.get_hit stored).1] at failed
      cases failed

/-- **The cache is an ideal one**, after every sequence of operations: list and map are
about the same, distinct keys, no more than there is room for; a get finds a key exactly
if it was put and fewer than `capacity` others were used since its last use, returns what
was put last, and changes nothing if it fails. -/
theorem lruCache_ideal (capacity : Nat) (some_ : 1 ≤ capacity) (ops : List (LruOp K V)) :
    let c := (run capacity ops).1
    let history := (run capacity ops).2
    (c.cacheList.map fun node => node.key).Nodup ∧
    (∀ key it, c.cacheMap key = some it ↔ ∃ node ∈ c.cacheList, node.key = key ∧ node.address = it) ∧
    c.cacheList.length ≤ capacity ∧
    (∀ key value, (c.get key).1 = some value ↔
      lastPut key ops = some value ∧ (othersSince key history).card < capacity) ∧
    ∀ key, (c.get key).1 = none → (c.get key).2 = c := by
  intro c history
  have ideal := ideal_run some_ ops
  refine ⟨ideal.linked.keys, ideal.linked.found, ?_, ?_, fun key => ideal.linked.get_none⟩
  · have sizes := congrArg List.length ideal.keys
    rw [List.length_map, List.length_take, entries, List.length_map] at sizes
    exact sizes.trans_le (Nat.min_le_left _ _)
  · intro key value
    rw [ideal.linked.get_eq_some_iff]
    constructor
    · intro stored
      exact ⟨ideal.values key value stored,
        (mem_take_byRecency.1 ((ideal.mem_take_iff key).2 ⟨value, stored⟩)).2⟩
    · rintro ⟨last, few⟩
      obtain ⟨value', stored⟩ :=
        (ideal.mem_take_iff key).1 (mem_take_byRecency.2 ⟨ideal.used key value last, few⟩)
      have same := (ideal.values key value' stored).symm.trans last
      cases same
      exact stored

/-- A cache for two keys forgets the one that was not asked for. -/
theorem lruCache_ideal_twoKeys :
    let ops : List (LruOp Nat Nat) := [.put 1 10, .put 2 20, .get 1, .put 3 30]
    1 ≤ 2 ∧ ((run 2 ops).1.get 1).1 = some 10 ∧ ((run 2 ops).1.get 2).1 ≠ some 20 := by
  intro ops
  have answers := (lruCache_ideal 2 (by decide) ops).2.2.2.1
  refine ⟨by decide, (answers 1 10).2 ⟨by decide, by decide⟩, fun got => ?_⟩
  exact absurd ((answers 2 20).1 got).2 (by decide)

end LruCache

end QuoVadis.Kernel
