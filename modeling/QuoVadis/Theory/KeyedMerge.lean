/-
# Theory.KeyedMerge -- the last item of each key, one list for each kind

A sequence of items, some of them with a key, is merged by key: for each key its last
item stands (`lastWith`).  What is left is distributed over one list for each kind
(`distribute`), in the order in which it comes.

* `lastWith_concat`: what one more item does;
* `distribute_eq`: the list of a kind holds the items of that kind;
* `existsUnique_place`: over all lists together, each key has one place.
-/
import Mathlib.Data.List.Nodup
import Mathlib.Data.List.Perm.Basic
import Mathlib.Logic.Function.Basic

namespace QuoVadis.Theory

set_option autoImplicit false

universe u v w

variable {A : Type u} {K : Type v} {T : Type w}

section LastWith

variable [DecidableEq K] {key : A → Option K} {items : List A} {k : K} {a : A}

/-- The last item with a key. -/
def lastWith (key : A → Option K) (items : List A) (k : K) : Option A :=
  (items.filter fun a => key a = some k).getLast?

@[simp] theorem lastWith_nil : lastWith key [] k = none := rfl

theorem lastWith_concat :
    lastWith key (items ++ [a]) k = if key a = some k then some a else lastWith key items k := by
  by_cases here : key a = some k
  · simp [lastWith, List.filter_append, here]
  · simp [lastWith, List.filter_append, here]

theorem lastWith_some (found : lastWith key items k = some a) : a ∈ items ∧ key a = some k := by
  simpa using List.mem_filter.1 (List.mem_of_getLast? found)

/-- A key that occurs has a last item. -/
theorem exists_lastWith (member : a ∈ items) (keyed : key a = some k) :
    ∃ b, lastWith key items k = some b := by
  have kept : a ∈ items.filter fun a => key a = some k := List.mem_filter.2 ⟨member, by simpa using keyed⟩
  exact ⟨_, List.getLast?_eq_some_getLast (List.ne_nil_of_mem kept)⟩

end LastWith

section Distribute

variable [DecidableEq T] {kind : A → T}

/-- The items in the lists of their kinds. -/
def distribute (kind : A → T) (items : List A) : T → List A :=
  items.foldl (fun lists a => Function.update lists (kind a) (lists (kind a) ++ [a])) fun _ => []

theorem distribute_eq (items : List A) (t : T) :
    distribute kind items t = items.filter fun a => kind a = t := by
  have run : ∀ lists : T → List A,
      items.foldl (fun lists a => Function.update lists (kind a) (lists (kind a) ++ [a])) lists t =
        lists t ++ items.filter fun a => kind a = t := by
    induction items with
    | nil => simp
    | cons a rest ih =>
        intro lists
        rw [List.foldl_cons, ih]
        by_cases here : kind a = t
        · subst here
          simp
        · rw [Function.update_of_ne (Ne.symm here), List.filter_cons_of_neg (by simpa using here)]
  exact run _

/-- Items with distinct keys, split over the lists of their kinds: each key is in one
place. -/
theorem existsUnique_place {key : A → K} {items : List A} (distinct : (items.map key).Nodup)
    {lists : T → List A} (split : ∀ t, (lists t).Perm (items.filter fun a => kind a = t))
    {a : A} (member : a ∈ items) :
    ∃! place : T × Nat, ∃ x, (lists place.1)[place.2]? = some x ∧ key x = key a := by
  have inItems : ∀ {t : T} {x : A}, x ∈ lists t → x ∈ items ∧ kind x = t := by
    intro t x inList
    simpa using List.mem_filter.1 ((split t).mem_iff.1 inList)
  have listed : a ∈ lists (kind a) :=
    (split _).mem_iff.2 (List.mem_filter.2 ⟨member, by simp⟩)
  obtain ⟨i, found⟩ := List.mem_iff_getElem?.1 listed
  refine ⟨(kind a, i), ⟨a, found, rfl⟩, ?_⟩
  rintro ⟨t, j⟩ ⟨x, found', same⟩
  obtain ⟨inside', ofKind⟩ := inItems (List.mem_of_getElem? found')
  have equal : x = a := List.inj_on_of_nodup_map distinct inside' member same
  subst equal
  subst ofKind
  have nodup : (lists (kind x)).Nodup := (split _).nodup_iff.2 (distinct.of_map.filter _)
  have within := (List.getElem?_eq_some_iff.1 found).1
  rw [(List.getElem?_inj within nodup).1 (found.trans found'.symm)]

end Distribute

end QuoVadis.Theory
