/-
# Theory.Capacity -- targets with room for `q` sources each

Assignments of sources to targets that have the same room.

* `card_le_two_mul`: when a source misses a good target only because the target is
  full of sources that are well placed, at least half as many sources are well
  placed as in any other assignment.
* `eq_div_of_filled`: when the numbered targets are filled one after the other, source
  `s` is at target `s / q`, and the loads follow (`card_div`).  With `q` the ceiling
  of `n / m`, these are balanced only for special `n` (`filled_balanced_iff`).
-/
import Mathlib.Algebra.Order.BigOperators.Group.Finset
import Mathlib.Order.Interval.Finset.Nat
import QuoVadis.Theory.BalancedBlocks

namespace QuoVadis.Theory.Capacity

set_option autoImplicit false

universe u v

/-! ## Well placed sources -/

section Placed

variable {S : Type u} {T : Type v} [DecidableEq S] [DecidableEq T]

/-- **Half of what is possible**: `good` and `best` are the well placed sources of the
assignments `f` and `g`. -/
theorem card_le_two_mul {f g : S → T} {sources good best : Finset S} {q : Nat}
    (inSources : best ⊆ sources)
    (room : ∀ t, (sources.filter fun s => g s = t).card ≤ q)
    (full : ∀ s ∈ best, s ∉ good → q ≤ (good.filter fun r => f r = g s).card) :
    best.card ≤ 2 * good.card := by
  -- the targets that the misplaced sources have under `g`
  let missed : Finset T := (best \ good).image g
  have fromMissed : (best \ good).card ≤ q * missed.card := by
    refine Finset.card_le_mul_card_image_of_maps_to (fun s member => Finset.mem_image_of_mem g member)
      q fun t _ => ?_
    refine le_trans (Finset.card_le_card fun s member => ?_) (room t)
    rw [Finset.mem_filter, Finset.mem_sdiff] at member
    exact Finset.mem_filter.2 ⟨inSources member.1.1, member.2⟩
  have toGood : q * missed.card ≤ (good.filter fun r => f r ∈ missed).card := by
    refine Finset.mul_card_image_le_card_of_maps_to (f := f)
      (fun r member => (Finset.mem_filter.1 member).2) q fun t member => ?_
    obtain ⟨s, inside, rfl⟩ := Finset.mem_image.1 member
    rw [Finset.mem_sdiff] at inside
    refine le_trans (full s inside.1 inside.2) (Finset.card_le_card fun r memR => ?_)
    rw [Finset.mem_filter] at memR
    exact Finset.mem_filter.2 ⟨Finset.mem_filter.2 ⟨memR.1, by rw [memR.2]; exact member⟩, memR.2⟩
  calc best.card ≤ (best ∩ good).card + (best \ good).card :=
        (Finset.card_inter_add_card_sdiff best good).ge
    _ ≤ good.card + (good.filter fun r => f r ∈ missed).card :=
        Nat.add_le_add (Finset.card_le_card Finset.inter_subset_right) (fromMissed.trans toGood)
    _ ≤ good.card + good.card := Nat.add_le_add_left (Finset.card_filter_le _ _) _
    _ = 2 * good.card := (Nat.two_mul _).symm

end Placed

/-! ## Targets filled in order -/

/-- **Targets filled one after the other.** -/
theorem eq_div_of_filled {n q : Nat} {f : Nat → Nat}
    (room : ∀ d, ((Finset.range n).filter fun s => f s = d).card ≤ q)
    (full : ∀ s < n, ∀ d < f s, ((Finset.range n).filter fun r => f r = d).card = q ∧
      ∀ r < n, f r = d → r < s) {s : Nat} (inside : s < n) : f s = s / q := by
  -- the targets before are full of sources before
  have least : q * f s ≤ s := by
    have filled : q * (Finset.range (f s)).card ≤ ((Finset.range s).filter fun r => f r < f s).card := by
      refine Finset.mul_card_image_le_card_of_maps_to (f := f)
        (fun r member => Finset.mem_range.2 (Finset.mem_filter.1 member).2) q fun d member => ?_
      have before := Finset.mem_range.1 member
      obtain ⟨count, earlier⟩ := full s inside d before
      rw [← count]
      refine Finset.card_le_card fun r memR => ?_
      rw [Finset.mem_filter, Finset.mem_range] at memR
      simp only [Finset.mem_filter, Finset.mem_range]
      exact ⟨⟨earlier r memR.1 memR.2, by omega⟩, memR.2⟩
    rw [Finset.card_range] at filled
    calc q * f s ≤ ((Finset.range s).filter fun r => f r < f s).card := filled
      _ ≤ (Finset.range s).card := Finset.card_filter_le _ _
      _ = s := Finset.card_range s
  -- and the sources up to this one are at the targets up to its own
  have most : (Finset.range (s + 1)).card ≤ q * (Finset.range (f s + 1)).card := by
    refine Finset.card_le_mul_card_image_of_maps_to (f := f) (fun r member => ?_) q fun d _ => ?_
    · have upTo := Finset.mem_range.1 member
      by_contra later
      rw [Finset.mem_range] at later
      have := (full r (by omega) (f s) (by omega)).2 s inside rfl
      omega
    · refine le_trans (Finset.card_le_card fun r member => ?_) (room d)
      simp only [Finset.mem_filter, Finset.mem_range] at member ⊢
      exact ⟨by omega, member.2⟩
  rw [Finset.card_range, Finset.card_range] at most
  refine (Nat.div_eq_of_lt_le ?_ ?_).symm
  · rwa [Nat.mul_comm]
  · rw [Nat.mul_comm] at most
    omega

/-- The load of target `d` when `n` sources fill targets with room for `q`. -/
def load (n q d : Nat) : Nat := min q (n - d * q)

theorem card_div {n q : Nat} (pos : 0 < q) (d : Nat) :
    ((Finset.range n).filter fun s => s / q = d).card = load n q d := by
  have block : ((Finset.range n).filter fun s => s / q = d) =
      Finset.Ico (d * q) (min n ((d + 1) * q)) := by
    ext s
    rw [Finset.mem_filter, Finset.mem_range, Finset.mem_Ico, Nat.div_eq_iff pos, lt_min_iff,
      Nat.add_mul]
    omega
  rw [block, Nat.card_Ico, Nat.add_mul, load]
  omega

section Ceiling

variable {n m : Nat} (pos : 0 < m)

include pos

/-- With room for the ceiling of `n / m`, the loads are balanced exactly if there are not
more sources than targets, or the last target lacks at most one. -/
theorem load_balanced_iff :
    (∀ d < m, load n ((n + m - 1) / m) d = n / m ∨
        load n ((n + m - 1) / m) d = (n + m - 1) / m) ↔ n ≤ m ∨ m ∣ n ∨ m ∣ n + 1 := by
  have whole : m * (n / m) + n % m = n := Nat.div_add_mod n m
  have small : n % m < m := Nat.mod_lt n pos
  rw [← BalancedBlocks.size_zero pos]
  unfold load BalancedBlocks.size
  by_cases none_ : n % m = 0
  · -- no remainder: every target is full
    refine iff_of_true (fun d inside => Or.inl ?_) (Or.inr (Or.inl (Nat.dvd_of_mod_eq_zero none_)))
    have fits : (d + 1) * (n / m) ≤ m * (n / m) := Nat.mul_le_mul_right _ inside
    rw [Nat.add_mul] at fits
    simp only [none_, Nat.lt_irrefl, if_false, Nat.add_zero]
    omega
  · rw [if_pos (Nat.pos_of_ne_zero none_)]
    constructor
    · intro balanced
      by_contra unbalanced
      push Not at unbalanced
      obtain ⟨more, -, notNext⟩ := unbalanced
      have notLast : n % m ≠ m - 1 := by
        intro last
        exact notNext ⟨n / m + 1, by rw [Nat.mul_add, Nat.mul_one]; omega⟩
      have some_ : 0 < n / m := Nat.div_pos more.le pos
      -- the last target has less than the floor
      have before : (m - 1) * (n / m + 1) + (n / m + 1) = m * (n / m) + m := by
        rw [← Nat.succ_mul, Nat.succ_eq_add_one, Nat.sub_add_cancel pos, Nat.mul_add, Nat.mul_one]
      have last := balanced (m - 1) (by omega)
      omega
    · rintro (few | dvd | next) d inside
      · have fewer : n < m := lt_of_le_of_ne few fun same => none_ (by rw [same, Nat.mod_self])
        rw [Nat.div_eq_of_lt fewer]
        omega
      · exact absurd (Nat.mod_eq_zero_of_dvd dvd) none_
      · -- only the last target lacks a source
        obtain ⟨c, total⟩ := next
        obtain ⟨b, rfl⟩ : ∃ b, c = b + 1 :=
          Nat.exists_eq_succ_of_ne_zero (by rintro rfl; rw [Nat.mul_zero] at total; omega)
        rw [Nat.mul_add, Nat.mul_one] at total
        have floor : n / m = b := by
          refine Nat.div_eq_of_lt_le ?_ ?_
          · rw [Nat.mul_comm]
            omega
          · rw [Nat.add_mul, Nat.one_mul, Nat.mul_comm]
            omega
        have fits : (d + 1) * (b + 1) ≤ m * (b + 1) := Nat.mul_le_mul_right _ inside
        rw [Nat.add_mul, Nat.one_mul, Nat.mul_add m, Nat.mul_one] at fits
        rw [floor]
        omega

/-- A target is idle while another has two sources exactly if the targets before the
last have room for all. -/
theorem load_idle_iff :
    (∃ d < m, ∃ d' < m, load n ((n + m - 1) / m) d = 0 ∧ 2 ≤ load n ((n + m - 1) / m) d') ↔
      m < n ∧ n ≤ (m - 1) * ((n + m - 1) / m) := by
  have two : 2 ≤ (n + m - 1) / m ↔ m < n := by
    rw [Nat.le_div_iff_mul_le pos]
    omega
  unfold load
  constructor
  · rintro ⟨d, inside, d', -, idle, busy⟩
    have fits : d * ((n + m - 1) / m) ≤ (m - 1) * ((n + m - 1) / m) :=
      Nat.mul_le_mul_right _ (by omega)
    exact ⟨two.1 (by omega), by omega⟩
  · rintro ⟨more, enough⟩
    have := two.2 more
    exact ⟨m - 1, by omega, 0, pos, by omega, by omega⟩

end Ceiling

end QuoVadis.Theory.Capacity
