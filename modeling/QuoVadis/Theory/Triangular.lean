/-
# Theory.Triangular -- triangular numbers cut the naturals into blocks

Block `s` begins at `triangle s` and has `s + 1` numbers, so that every number is in
exactly one block (`eq_of_triangle_add`, `exists_triangle_add`).  A number that is
written with an offset beyond the end of a block is in a later one
(`exists_triangle_add_of_lt`).
-/
import Mathlib.Data.Nat.Basic
import Mathlib.Tactic.Ring

namespace QuoVadis.Theory

set_option autoImplicit false

/-- The sum of the numbers up to `s`. -/
def triangle (s : Nat) : Nat := s * (s + 1) / 2

theorem triangle_succ (s : Nat) : triangle (s + 1) = triangle s + (s + 1) := by
  have step : (s + 1) * (s + 1 + 1) = s * (s + 1) + (s + 1) * 2 := by ring
  rw [triangle, step, Nat.add_mul_div_right _ _ (by decide), triangle]

theorem triangle_mono {s t : Nat} (le : s ≤ t) : triangle s ≤ triangle t := by
  induction le with
  | refl => exact le_rfl
  | step _ ih =>
      rw [triangle_succ]
      omega

/-- A number in block `s` is before every later block. -/
theorem triangle_add_lt {s t b : Nat} (offset : b ≤ s) (later : s < t) :
    triangle s + b < triangle t := by
  have next := triangle_mono (Nat.succ_le_of_lt later)
  rw [triangle_succ] at next
  omega

/-- Block and offset are determined by the number. -/
theorem eq_of_triangle_add {s t b d : Nat} (offset : b ≤ s) (offset' : d ≤ t)
    (same : triangle s + b = triangle t + d) : s = t ∧ b = d := by
  rcases Nat.lt_trichotomy s t with before | rfl | after
  · have := triangle_add_lt offset before
    omega
  · exact ⟨rfl, by omega⟩
  · have := triangle_add_lt offset' after
    omega

theorem exists_triangle_add (v : Nat) : ∃ s b, b ≤ s ∧ triangle s + b = v := by
  induction v with
  | zero => exact ⟨0, 0, le_rfl, rfl⟩
  | succ v ih =>
      obtain ⟨s, b, offset, rfl⟩ := ih
      by_cases room : b < s
      · exact ⟨s, b + 1, room, rfl⟩
      · refine ⟨s + 1, 0, Nat.zero_le _, ?_⟩
        rw [triangle_succ]
        omega

/-- An offset too large for its block leads to a later block, with a smaller offset. -/
theorem exists_triangle_add_of_lt {s b : Nat} (beyond : s < b) :
    ∃ t d, d ≤ t ∧ s < t ∧ t ≤ b ∧ triangle t + d = triangle s + b := by
  obtain ⟨t, d, offset, same⟩ := exists_triangle_add (triangle s + b)
  have later : s < t := by
    by_contra early
    have := triangle_add_lt offset (Nat.lt_succ_of_le (Nat.le_of_not_lt early))
    rw [triangle_succ] at this
    omega
  refine ⟨t, d, offset, later, ?_, same⟩
  -- the block after `s` begins `s + 1` later, those after it later still
  obtain ⟨k, rfl⟩ := Nat.exists_eq_add_of_lt later
  have grows : ∀ k, triangle s + s + k + 1 ≤ triangle (s + k + 1) := by
    intro k
    induction k with
    | zero =>
        rw [Nat.add_zero, triangle_succ]
        omega
    | succ k ih =>
        rw [show s + (k + 1) + 1 = (s + k + 1) + 1 by omega, triangle_succ]
        omega
  have := grows k
  omega

end QuoVadis.Theory
