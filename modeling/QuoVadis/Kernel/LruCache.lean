/-
# Kernel.LruCache -- the fixed-capacity cache of `qvi-utils.h`

Two structures: a list of nodes, the most recently used in front, and a map from
keys to iterators into the list.  A node keeps its address when it is moved, so an
iterator is the address of a node.

`Linked` says that the two structures are about the same entries.  `get_hit`,
`put_hit` and `put_miss` say what the operations do to the entries, and that they
keep the structures linked.
-/
import Mathlib.Data.List.Nodup
import Mathlib.Data.List.Basic

namespace QuoVadis.Kernel

set_option autoImplicit false

universe u v

/-- A node of the list: its address, and the key and value it stores. -/
structure LruNode (K : Type u) (V : Type v) where
  address : Nat
  key : K
  value : V

/-- `qvi_lru_cache`.  `next` is the address of the next node to be made. -/
structure LruCache (K : Type u) (V : Type v) where
  capacity : Nat
  cacheList : List (LruNode K V)
  cacheMap : K → Option Nat
  next : Nat

namespace LruCache

variable {K : Type u} {V : Type v}

/-- The constructor. -/
def ofCapacity (capacity : Nat) : LruCache K V where
  capacity := capacity
  cacheList := []
  cacheMap := fun _ => none
  next := 0

/-- The nodes without the one an iterator points to. -/
def others (list : List (LruNode K V)) (it : Nat) : List (LruNode K V) :=
  list.filter fun node => node.address ≠ it

/-- `splice` of one node to the front, after `store` on the node. -/
def splice (c : LruCache K V) (it : Nat) (store : LruNode K V → LruNode K V) : LruCache K V :=
  match c.cacheList.find? fun node => node.address = it with
  | some node => { c with cacheList := store node :: others c.cacheList it }
  | none => c

/-- Removes the last node and its key.  An empty list has no last node to remove. -/
def dropBack [DecidableEq K] (c : LruCache K V) : LruCache K V :=
  match c.cacheList.getLast? with
  | some node => { c with cacheList := c.cacheList.dropLast
                          cacheMap := Function.update c.cacheMap node.key none }
  | none => c

/-- Adds a node in front. -/
def emplaceFront [DecidableEq K] (c : LruCache K V) (key : K) (value : V) : LruCache K V :=
  { c with cacheList := ⟨c.next, key, value⟩ :: c.cacheList
           cacheMap := Function.update c.cacheMap key (some c.next)
           next := c.next + 1 }

/-- `put`. -/
def put [DecidableEq K] (c : LruCache K V) (key : K) (value : V) : LruCache K V :=
  match c.cacheMap key with
  | some it => c.splice it fun node => { node with value := value }
  | none =>
      let c := if c.cacheList.length = c.capacity then c.dropBack else c
      c.emplaceFront key value

/-- `get`. -/
def get (c : LruCache K V) (key : K) : Option V × LruCache K V :=
  match c.cacheMap key with
  | none => (none, c)
  | some it =>
      let value := (c.cacheList.find? fun node => node.address = it).map fun node => node.value
      (value, c.splice it id)

/-- The keys and values stored, the most recently used first. -/
def entries (c : LruCache K V) : List (K × V) :=
  c.cacheList.map fun node => (node.key, node.value)

/-! ## The two structures are linked -/

/-- The list and the map are about the same entries. -/
structure Linked (c : LruCache K V) : Prop where
  addresses : (c.cacheList.map fun node => node.address).Nodup
  keys : (c.cacheList.map fun node => node.key).Nodup
  found : ∀ key it, c.cacheMap key = some it ↔
    ∃ node ∈ c.cacheList, node.key = key ∧ node.address = it
  fresh : ∀ node ∈ c.cacheList, node.address < c.next

variable {c : LruCache K V}

theorem linked_ofCapacity (capacity : Nat) : (ofCapacity capacity : LruCache K V).Linked where
  addresses := List.nodup_nil
  keys := List.nodup_nil
  found := by simp [ofCapacity]
  fresh := by simp [ofCapacity]

theorem Linked.node_eq (linked : c.Linked) {a b : LruNode K V} (memA : a ∈ c.cacheList)
    (memB : b ∈ c.cacheList) (same : a.key = b.key) : a = b :=
  List.inj_on_of_nodup_map linked.keys memA memB same

/-- A key has one value. -/
theorem Linked.entry_unique (linked : c.Linked) {key : K} {x y : V} (hx : (key, x) ∈ c.entries)
    (hy : (key, y) ∈ c.entries) : x = y := by
  obtain ⟨a, memA, eqA⟩ := List.mem_map.1 hx
  obtain ⟨b, memB, eqB⟩ := List.mem_map.1 hy
  cases eqA
  obtain ⟨sameKey, rfl⟩ := Prod.mk.inj eqB
  rw [linked.node_eq memA memB sameKey.symm]

/-- A key in the map is stored. -/
theorem Linked.exists_entry (linked : c.Linked) {key : K} {it : Nat}
    (lookup : c.cacheMap key = some it) : ∃ value, (key, value) ∈ c.entries := by
  obtain ⟨node, member, rfl, -⟩ := (linked.found key it).1 lookup
  exact ⟨node.value, List.mem_map.2 ⟨node, member, rfl⟩⟩

/-- The map misses exactly the keys that are not stored. -/
theorem Linked.map_none_iff (linked : c.Linked) (key : K) :
    c.cacheMap key = none ↔ ∀ value, (key, value) ∉ c.entries := by
  constructor
  · intro missing value stored
    obtain ⟨node, member, eq⟩ := List.mem_map.1 stored
    cases eq
    have hit := (linked.found node.key node.address).2 ⟨node, member, rfl, rfl⟩
    rw [missing] at hit
    cases hit
  · intro absent
    cases lookup : c.cacheMap key with
    | none => rfl
    | some it =>
        obtain ⟨value, stored⟩ := linked.exists_entry lookup
        exact absurd stored (absent value)

/-- The node an iterator of the map points to. -/
theorem Linked.find (linked : c.Linked) {key : K} {it : Nat} (lookup : c.cacheMap key = some it) :
    ∃ node ∈ c.cacheList, node.key = key ∧ node.address = it ∧
      (c.cacheList.find? fun node => node.address = it) = some node := by
  obtain ⟨node, member, same, here⟩ := (linked.found key it).1 lookup
  cases found : c.cacheList.find? fun node => node.address = it with
  | none =>
      have := List.find?_eq_none.1 found node member
      simp [here] at this
  | some node' =>
      have here' : node'.address = it := by simpa using List.find?_some found
      have member' := List.mem_of_find?_eq_some found
      have : node' = node :=
        List.inj_on_of_nodup_map linked.addresses member' member (here'.trans here.symm)
      exact ⟨node, member, same, here, by rw [this]⟩

theorem mem_others {list : List (LruNode K V)} {it : Nat} {node : LruNode K V} :
    node ∈ others list it ↔ node ∈ list ∧ node.address ≠ it := by
  simp [others]

theorem others_sublist (list : List (LruNode K V)) (it : Nat) : (others list it).Sublist list :=
  List.filter_sublist

/-- A node may be moved to the front, with another value. -/
theorem Linked.front (linked : c.Linked) {node : LruNode K V} (member : node ∈ c.cacheList)
    (value : V) :
    { c with cacheList := { node with value := value } ::
        others c.cacheList node.address : LruCache K V }.Linked where
  addresses := by
    refine List.nodup_cons.2 ⟨fun again => ?_, ?_⟩
    · obtain ⟨other, inOthers, same⟩ := List.mem_map.1 again
      exact (mem_others.1 inOthers).2 same
    · exact linked.addresses.sublist ((others_sublist _ _).map _)
  keys := by
    refine List.nodup_cons.2 ⟨fun again => ?_, ?_⟩
    · obtain ⟨other, inOthers, same⟩ := List.mem_map.1 again
      obtain ⟨inList, apart⟩ := mem_others.1 inOthers
      exact apart (by rw [linked.node_eq inList member same])
    · exact linked.keys.sublist ((others_sublist _ _).map _)
  found := by
    intro key it
    refine (linked.found key it).trans ⟨?_, ?_⟩
    · rintro ⟨other, inList, rfl, rfl⟩
      by_cases here : other.address = node.address
      · have : other = node :=
          List.inj_on_of_nodup_map linked.addresses inList member here
        exact ⟨_, List.mem_cons_self, by rw [this], here.symm⟩
      · exact ⟨other, List.mem_cons_of_mem _ (mem_others.2 ⟨inList, here⟩), rfl, rfl⟩
    · rintro ⟨other, inList, rfl, rfl⟩
      cases List.mem_cons.1 inList with
      | inl same => exact ⟨node, member, by rw [same], by rw [same]⟩
      | inr later => exact ⟨other, (mem_others.1 later).1, rfl, rfl⟩
  fresh := by
    intro other inList
    cases List.mem_cons.1 inList with
    | inl same =>
        rw [same]
        exact linked.fresh node member
    | inr later => exact linked.fresh other (mem_others.1 later).1

/-- Taking the nodes at other addresses is taking those of other keys. -/
theorem Linked.entries_front [DecidableEq K] (linked : c.Linked) {node : LruNode K V}
    (member : node ∈ c.cacheList) (value : V) :
    { c with cacheList := { node with value := value } ::
        others c.cacheList node.address : LruCache K V }.entries =
      (node.key, value) :: c.entries.filter fun entry => entry.1 ≠ node.key := by
  have same : others c.cacheList node.address =
      c.cacheList.filter fun other => other.key ≠ node.key := by
    refine List.filter_congr fun other inList => ?_
    refine decide_eq_decide.2 (not_congr ⟨fun here => ?_, fun sameKey => ?_⟩)
    · rw [List.inj_on_of_nodup_map linked.addresses inList member here]
    · rw [linked.node_eq inList member sameKey]
  show _ :: (others c.cacheList node.address).map _ = _
  rw [same, entries, List.filter_map]
  rfl

/-- `splice` on an iterator of the map. -/
theorem Linked.splice_eq (linked : c.Linked) {key : K} {it : Nat}
    (lookup : c.cacheMap key = some it) (store : LruNode K V → LruNode K V) :
    ∃ node ∈ c.cacheList, node.key = key ∧ node.address = it ∧
      c.splice it store = { c with cacheList := store node :: others c.cacheList node.address } := by
  obtain ⟨node, member, same, here, found⟩ := linked.find lookup
  refine ⟨node, member, same, here, ?_⟩
  rw [splice, found, here]

/-! ## `get` -/

theorem get_miss {key : K} (missing : c.cacheMap key = none) : c.get key = (none, c) := by
  rw [get, missing]

/-- A hit returns the stored value and moves its entry to the front. -/
theorem Linked.get_hit [DecidableEq K] (linked : c.Linked) {key : K} {value : V}
    (stored : (key, value) ∈ c.entries) :
    (c.get key).1 = some value ∧ (c.get key).2.Linked ∧
      (c.get key).2.capacity = c.capacity ∧
      (c.get key).2.entries = (key, value) :: c.entries.filter fun entry => entry.1 ≠ key := by
  cases lookup : c.cacheMap key with
  | none => exact absurd stored ((linked.map_none_iff key).1 lookup value)
  | some it =>
      obtain ⟨node, member, rfl, rfl, found⟩ := linked.find lookup
      have valueEq : value = node.value :=
        linked.entry_unique stored (List.mem_map.2 ⟨node, member, rfl⟩)
      have eq : c.get node.key = (some node.value,
          { c with cacheList := { node with value := node.value } ::
              others c.cacheList node.address }) := by
        rw [get, lookup]
        show (Option.map _ _, c.splice node.address id) = _
        rw [splice, found]
        rfl
      rw [eq, valueEq]
      exact ⟨rfl, linked.front member node.value, rfl, linked.entries_front member node.value⟩

/-! ## `put` -/

section Put

variable [DecidableEq K]

/-- A hit overwrites the value and moves the entry to the front. -/
theorem Linked.put_hit (linked : c.Linked) {key : K} {it : Nat}
    (lookup : c.cacheMap key = some it) (value : V) :
    (c.put key value).Linked ∧ (c.put key value).capacity = c.capacity ∧
      (c.put key value).entries = (key, value) :: c.entries.filter fun entry => entry.1 ≠ key := by
  obtain ⟨node, member, rfl, rfl, spliced⟩ :=
    linked.splice_eq lookup fun node => { node with value := value }
  have eq : c.put node.key value = c.splice node.address fun node => { node with value := value } := by
    rw [put, lookup]
  rw [eq, spliced]
  exact ⟨linked.front member value, rfl, linked.entries_front member value⟩

/-- The last node may go, with its key. -/
theorem Linked.dropBack (linked : c.Linked) : c.dropBack.Linked := by
  cases last : c.cacheList.getLast? with
  | none =>
      rw [LruCache.dropBack, last]
      exact linked
  | some node =>
      obtain ⟨front, split⟩ := List.getLast?_eq_some_iff.1 last
      have gone : c.dropBack = { c with cacheList := front
                                        cacheMap := Function.update c.cacheMap node.key none } := by
        rw [LruCache.dropBack, last, split, List.dropLast_concat]
      have sub : front.Sublist c.cacheList := by
        rw [split]
        exact List.sublist_append_left front [node]
      have apart : ∀ other ∈ front, other.key ≠ node.key := by
        have distinct := linked.keys
        rw [split, List.map_append, List.nodup_append] at distinct
        intro other inFront
        exact distinct.2.2 _ (List.mem_map_of_mem inFront) _ (List.mem_map_of_mem (by simp))
      rw [gone]
      refine ⟨linked.addresses.sublist (sub.map _), linked.keys.sublist (sub.map _), ?_,
        fun other inFront => linked.fresh other (sub.subset inFront)⟩
      intro key it
      show Function.update c.cacheMap node.key none key = some it ↔ ∃ other ∈ front, _
      by_cases here : key = node.key
      · rw [here, Function.update_self]
        constructor
        · intro hit
          cases hit
        · rintro ⟨other, inFront, same, -⟩
          exact absurd same (apart other inFront)
      · rw [Function.update_of_ne here, linked.found key it, split]
        constructor
        · rintro ⟨other, inList, rfl, rfl⟩
          cases List.mem_append.1 inList with
          | inl inFront => exact ⟨other, inFront, rfl, rfl⟩
          | inr isLast => exact absurd (by rw [List.mem_singleton.1 isLast]) here
        · rintro ⟨other, inFront, same⟩
          exact ⟨other, List.mem_append_left _ inFront, same⟩

/-- A new node may be added for a key that is not stored. -/
theorem Linked.emplaceFront (linked : c.Linked) {key : K} (missing : c.cacheMap key = none)
    (value : V) : (c.emplaceFront key value).Linked where
  addresses := by
    refine List.nodup_cons.2 ⟨fun again => ?_, linked.addresses⟩
    obtain ⟨other, inList, same⟩ := List.mem_map.1 again
    exact absurd same (Nat.ne_of_lt (linked.fresh other inList))
  keys := by
    refine List.nodup_cons.2 ⟨fun again => ?_, linked.keys⟩
    obtain ⟨other, inList, rfl⟩ := List.mem_map.1 again
    exact (linked.map_none_iff _).1 missing other.value (List.mem_map.2 ⟨other, inList, rfl⟩)
  found := by
    intro key' it
    show Function.update c.cacheMap key (some c.next) key' = some it ↔
      ∃ node ∈ ⟨c.next, key, value⟩ :: c.cacheList, _
    by_cases here : key' = key
    · rw [here, Function.update_self]
      constructor
      · intro hit
        exact ⟨_, List.mem_cons_self, rfl, Option.some.inj hit⟩
      · rintro ⟨node, inList, same, rfl⟩
        cases List.mem_cons.1 inList with
        | inl first => rw [first]
        | inr later =>
            have hit := (linked.found key node.address).2 ⟨node, later, same, rfl⟩
            rw [missing] at hit
            cases hit
    · rw [Function.update_of_ne here, linked.found key' it]
      constructor
      · rintro ⟨node, inList, same⟩
        exact ⟨node, List.mem_cons_of_mem _ inList, same⟩
      · rintro ⟨node, inList, rfl, rfl⟩
        cases List.mem_cons.1 inList with
        | inl first => exact absurd (by rw [first]) here
        | inr later => exact ⟨node, later, rfl, rfl⟩
  fresh := by
    intro node inList
    show node.address < c.next + 1
    cases List.mem_cons.1 inList with
    | inl first =>
        rw [first]
        exact Nat.lt_succ_self _
    | inr later => exact Nat.lt_succ_of_lt (linked.fresh node later)

/-- A miss adds the entry in front; only a full cache loses one. -/
theorem Linked.put_miss (linked : c.Linked) {key : K} (missing : c.cacheMap key = none)
    (value : V) :
    (c.put key value).Linked ∧ (c.put key value).capacity = c.capacity ∧
      (c.put key value).entries = (key, value) ::
        if c.entries.length = c.capacity then c.entries.dropLast else c.entries := by
  have eq : c.put key value =
      (if c.cacheList.length = c.capacity then c.dropBack else c).emplaceFront key value := by
    rw [put, missing]
  have length : c.entries.length = c.cacheList.length := List.length_map _
  rw [eq, length]
  by_cases full : c.cacheList.length = c.capacity
  · rw [if_pos full, if_pos full]
    cases last : c.cacheList.getLast? with
    | none =>
        have empty : c.cacheList = [] := List.getLast?_eq_none_iff.1 last
        have kept : c.dropBack = c := by rw [LruCache.dropBack, last]
        rw [kept]
        refine ⟨linked.emplaceFront missing value, rfl, ?_⟩
        simp [LruCache.emplaceFront, entries, empty]
    | some node =>
        have gone : c.dropBack = { c with cacheList := c.cacheList.dropLast
                                          cacheMap := Function.update c.cacheMap node.key none } := by
          rw [LruCache.dropBack, last]
        have stillMissing : c.dropBack.cacheMap key = none := by
          rw [gone]
          show Function.update c.cacheMap node.key none key = none
          by_cases here : key = node.key
          · rw [here, Function.update_self]
          · rw [Function.update_of_ne here, missing]
        refine ⟨linked.dropBack.emplaceFront stillMissing value, ?_, ?_⟩
        · rw [gone]
          rfl
        · rw [gone]
          show _ :: c.cacheList.dropLast.map _ = _ :: (c.cacheList.map _).dropLast
          rw [List.map_dropLast]
  · rw [if_neg full, if_neg full]
    exact ⟨linked.emplaceFront missing value, rfl, rfl⟩

end Put

end LruCache

end QuoVadis.Kernel
