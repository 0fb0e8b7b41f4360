/-
# Theory.Recency -- keys in the order of their last use

A history of uses, the latest first, orders the keys that occur in it by their last
use (`byRecency`).  A memory for `n` keys that forgets the least recently used one
holds the first `n` of them.

* `mem_take_byRecency`: these are the keys with fewer than `n` others used since;
* `take_byRecency_hit`, `take_byRecency_miss`: what one more use does to them.
-/
import Mathlib.Data.List.Nodup
import Mathlib.Data.List.Basic
import Mathlib.Data.Finset.Card
import Mathlib.Data.Finset.Dedup

namespace QuoVadis.Theory

set_option autoImplicit false

universe u

variable {K : Type u} [DecidableEq K]

/-- The keys of a history, by their last use. -/
def byRecency : List K → List K
  | [] => []
  | key :: older => key :: (byRecency older).filter (· ≠ key)

/-- The other keys used since the last use of a key. -/
def othersSince (key : K) (history : List K) : Finset K :=
  (history.takeWhile (· ≠ key)).toFinset

@[simp] theorem mem_byRecency {history : List K} {key : K} :
    key ∈ byRecency history ↔ key ∈ history := by
  induction history with
  | nil => rfl
  | cons last older ih =>
      by_cases same : key = last
      · simp [byRecency, same]
      · simp [byRecency, same, ih]

theorem nodup_byRecency (history : List K) : (byRecency history).Nodup := by
  induction history with
  | nil => exact List.nodup_nil
  | cons last older ih =>
      refine List.nodup_cons.2 ⟨fun again => ?_, ih.filter _⟩
      simpa using List.of_mem_filter again

/-- The keys before a key are those used since. -/
theorem toFinset_takeWhile_byRecency (key : K) (history : List K) :
    ((byRecency history).takeWhile (· ≠ key)).toFinset = othersSince key history := by
  induction history with
  | nil => rfl
  | cons last older ih =>
      by_cases same : last = key
      · simp [byRecency, othersSince, same]
      · have moved : ((byRecency older).filter (· ≠ last)).takeWhile (· ≠ key) =
            ((byRecency older).takeWhile (· ≠ key)).filter (· ≠ last) := by
          rw [List.takeWhile_filter]
          congr 2
          funext k
          by_cases here : k = last
          · simp [here, same]
          · simp [here]
        have rest : othersSince key (last :: older) = insert last (othersSince key older) := by
          simp [othersSince, same]
        rw [rest, ← ih, byRecency, List.takeWhile_cons_of_pos (by simpa using same), moved,
          List.toFinset_cons, List.toFinset_filter]
        ext k
        by_cases here : k = last
        · simp [here]
        · simp [here]

/-- The place of a key is the number of others used since. -/
theorem idxOf_byRecency {key : K} {history : List K} (used : key ∈ history) :
    (byRecency history).idxOf key = (othersSince key history).card := by
  have split : ∀ l : List K, key ∈ l → l.idxOf key = (l.takeWhile (· ≠ key)).length := by
    intro l
    induction l with
    | nil => simp
    | cons first rest ih =>
        intro member
        by_cases same : first = key
        · simp [same]
        · have later : key ∈ rest := by
            simpa [Ne.symm same] using member
          simp [List.idxOf_cons_ne _ same, same, ih later]
  rw [split _ (mem_byRecency.2 used), ← toFinset_takeWhile_byRecency,
    List.toFinset_card_of_nodup ((nodup_byRecency history).sublist (List.takeWhile_sublist _))]

/-- **The `n` most recently used keys** are those with fewer than `n` others used since. -/
theorem mem_take_byRecency {n : Nat} {key : K} {history : List K} :
    key ∈ (byRecency history).take n ↔ key ∈ history ∧ (othersSince key history).card < n := by
  constructor
  · intro member
    have used := mem_byRecency.1 (List.mem_of_mem_take member)
    refine ⟨used, ?_⟩
    rwa [List.mem_take_iff_idxOf_lt (mem_byRecency.2 used), idxOf_byRecency used] at member
  · rintro ⟨used, few⟩
    rwa [List.mem_take_iff_idxOf_lt (mem_byRecency.2 used), idxOf_byRecency used]

/-! ## One more use -/

/-- A key among the first `n + 1` leaves `n` of them. -/
theorem take_filter_of_mem {key : K} {l : List K} (distinct : l.Nodup) :
    ∀ {n : Nat}, key ∈ l.take (n + 1) →
      (l.filter (· ≠ key)).take n = (l.take (n + 1)).filter (· ≠ key) := by
  induction l with
  | nil => simp
  | cons first rest ih =>
      intro n member
      obtain ⟨fresh, distinct⟩ := List.nodup_cons.1 distinct
      rw [List.take_succ_cons] at member ⊢
      by_cases same : first = key
      · have absent : ∀ k ∈ rest, (decide (k ≠ key)) = true := by
          rintro k inRest
          simp only [decide_eq_true_eq]
          rintro rfl
          exact fresh (same ▸ inRest)
        rw [List.filter_cons_of_neg (by simp [same]), List.filter_cons_of_neg (by simp [same]),
          List.filter_eq_self.2 absent,
          List.filter_eq_self.2 fun k inTake => absent k (List.mem_of_mem_take inTake)]
      · have later : key ∈ rest.take n := by
          rcases List.mem_cons.1 member with here | later
          · exact absurd here.symm same
          · exact later
        obtain ⟨m, rfl⟩ : ∃ m, n = m + 1 := by
          cases n with
          | zero => simp at later
          | succ m => exact ⟨m, rfl⟩
        rw [List.filter_cons_of_pos (by simpa using same), List.take_succ_cons,
          List.filter_cons_of_pos (by simpa using same), ih distinct later]

/-- A key that is not among the first `n + 1` is not missed among the first `n`. -/
theorem take_filter_of_not_mem {key : K} {l : List K} :
    ∀ {n : Nat}, key ∉ l.take (n + 1) → (l.filter (· ≠ key)).take n = l.take n := by
  induction l with
  | nil => simp
  | cons first rest ih =>
      intro n absent
      rw [List.take_succ_cons, List.mem_cons, not_or] at absent
      rw [List.filter_cons_of_pos (by simpa using Ne.symm absent.1)]
      cases n with
      | zero => rfl
      | succ m => rw [List.take_succ_cons, List.take_succ_cons, ih absent.2]

/-- A use of a key that is held moves it to the front. -/
theorem take_byRecency_hit {n : Nat} {key : K} {history : List K}
    (held : key ∈ (byRecency history).take n) :
    (byRecency (key :: history)).take n =
      key :: ((byRecency history).take n).filter (· ≠ key) := by
  cases n with
  | zero => simp at held
  | succ n =>
      rw [byRecency, List.take_succ_cons, take_filter_of_mem (nodup_byRecency history) held]

/-- A use of another key puts it in front, and a full memory forgets its last key. -/
theorem take_byRecency_miss {n : Nat} (some_ : 0 < n) {key : K} {history : List K}
    (missing : key ∉ (byRecency history).take n) :
    (byRecency (key :: history)).take n = key ::
      if ((byRecency history).take n).length = n then ((byRecency history).take n).dropLast
      else (byRecency history).take n := by
  cases n with
  | zero => omega
  | succ n =>
      rw [byRecency, List.take_succ_cons, take_filter_of_not_mem missing]
      congr 1
      by_cases full : ((byRecency history).take (n + 1)).length = n + 1
      · rw [if_pos full, List.dropLast_eq_take, full, List.take_take, Nat.add_sub_cancel,
          Nat.min_eq_left (Nat.le_succ n)]
      · rw [List.length_take] at full
        rw [if_neg (by rw [List.length_take]; exact full), List.take_of_length_le (by omega),
          List.take_of_length_le (by omega)]

end QuoVadis.Theory
