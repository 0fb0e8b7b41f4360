/-
# Kernel.CantorPairing -- `qvi_cantor_pairing` in machine arithmetic

The sum of the two arguments is taken in 32 bits and widened afterwards.  As long as
it fits, the pairing is Cantor's and no two pairs share a number.  A sum that wraps
puts the pair into an early block with an offset that is too large for it, and there
it meets the pair the number belongs to (`exists_fitting_of_wraps`).
-/
import QuoVadis.Theory.Triangular

namespace QuoVadis.Kernel

open QuoVadis.Theory

set_option autoImplicit false

/-- `qvi_cantor_pairing`. -/
def qviCantorPairing (a b : UInt32) : UInt64 :=
  let sum := (a + b).toUInt64
  (sum * (sum + 1)) / 2 + b.toUInt64

/-- The 32-bit sum does not wrap. -/
def SumFits (a b : UInt32) : Prop := a.toNat + b.toNat < 2 ^ 32

instance (a b : UInt32) : Decidable (SumFits a b) :=
  inferInstanceAs (Decidable (_ < _))

/-- Nothing after the sum wraps. -/
theorem toNat_qviCantorPairing (a b : UInt32) :
    (qviCantorPairing a b).toNat = triangle ((a.toNat + b.toNat) % 2 ^ 32) + b.toNat := by
  have small : (a.toNat + b.toNat) % 2 ^ 32 < 2 ^ 32 := Nat.mod_lt _ (by decide)
  have offset : b.toNat < 2 ^ 32 := b.toNat_lt
  have product : (a.toNat + b.toNat) % 2 ^ 32 * ((a.toNat + b.toNat) % 2 ^ 32 + 1) ≤
      (2 ^ 32 - 1) * 2 ^ 32 := Nat.mul_le_mul (by omega) (by omega)
  simp only [qviCantorPairing, UInt64.toNat_add, UInt64.toNat_div, UInt64.toNat_mul,
    UInt32.toNat_toUInt64, UInt32.toNat_add, UInt64.toNat_one, UInt64.reduceToNat, triangle]
  rw [Nat.mod_eq_of_lt (a := (a.toNat + b.toNat) % 2 ^ 32 + 1) (by omega),
    Nat.mod_eq_of_lt (a := _ * _) (by omega), Nat.mod_eq_of_lt (by omega)]

theorem toNat_of_sumFits {a b : UInt32} (fits : SumFits a b) :
    (qviCantorPairing a b).toNat = triangle (a.toNat + b.toNat) + b.toNat := by
  rw [toNat_qviCantorPairing, Nat.mod_eq_of_lt fits]

/-- A wrapped sum is smaller than the second argument. -/
theorem wrapped_lt {a b : UInt32} (wraps : ¬ SumFits a b) :
    (a.toNat + b.toNat) % 2 ^ 32 < b.toNat := by
  have small := a.toNat_lt
  have small' := b.toNat_lt
  unfold SumFits at wraps
  omega

theorem eq_of_sumFits {a b c d : UInt32} (fits : SumFits a b) (fits' : SumFits c d)
    (same : qviCantorPairing a b = qviCantorPairing c d) : a = c ∧ b = d := by
  have numbers := congrArg UInt64.toNat same
  rw [toNat_of_sumFits fits, toNat_of_sumFits fits'] at numbers
  obtain ⟨sums, seconds⟩ := eq_of_triangle_add (Nat.le_add_left _ _) (Nat.le_add_left _ _) numbers
  exact ⟨UInt32.toNat_inj.1 (by omega), UInt32.toNat_inj.1 seconds⟩

/-- A pair whose sum wraps has the number of a pair whose sum does not. -/
theorem exists_fitting_of_wraps {a b : UInt32} (wraps : ¬ SumFits a b) :
    ∃ c d, SumFits c d ∧ qviCantorPairing a b = qviCantorPairing c d := by
  obtain ⟨t, d, offset, -, bound, same⟩ := exists_triangle_add_of_lt (wrapped_lt wraps)
  have small := b.toNat_lt
  have first : (UInt32.ofNat (t - d)).toNat = t - d :=
    UInt32.toNat_ofNat_of_lt' (by simp only [UInt32.size]; omega)
  have second : (UInt32.ofNat d).toNat = d :=
    UInt32.toNat_ofNat_of_lt' (by simp only [UInt32.size]; omega)
  have fits : SumFits (UInt32.ofNat (t - d)) (UInt32.ofNat d) := by
    unfold SumFits
    omega
  refine ⟨_, _, fits, UInt64.toNat_inj.1 ?_⟩
  rw [toNat_qviCantorPairing, toNat_of_sumFits fits, first, second, Nat.sub_add_cancel offset, same]

/-- With room behind its block, a pair has the number of one that wraps into the block
before. -/
theorem exists_wrapping {a b : UInt32} (some_ : 0 < a.toNat + b.toNat)
    (room : a.toNat + 2 * b.toNat < 2 ^ 32) :
    ∃ c d, ¬ SumFits c d ∧ qviCantorPairing a b = qviCantorPairing c d := by
  have first : (UInt32.ofNat (2 ^ 32 - 1 - b.toNat)).toNat = 2 ^ 32 - 1 - b.toNat :=
    UInt32.toNat_ofNat_of_lt' (by simp only [UInt32.size]; omega)
  have second : (UInt32.ofNat (a.toNat + 2 * b.toNat)).toNat = a.toNat + 2 * b.toNat :=
    UInt32.toNat_ofNat_of_lt' room
  obtain ⟨s, sum⟩ : ∃ s, a.toNat + b.toNat = s + 1 := ⟨a.toNat + b.toNat - 1, by omega⟩
  have wrapped : (2 ^ 32 - 1 - b.toNat + (a.toNat + 2 * b.toNat)) % 2 ^ 32 = s := by omega
  refine ⟨UInt32.ofNat (2 ^ 32 - 1 - b.toNat), UInt32.ofNat (a.toNat + 2 * b.toNat), ?_,
    UInt64.toNat_inj.1 ?_⟩
  · unfold SumFits
    omega
  · have fits : SumFits a b := by
      unfold SumFits
      omega
    rw [toNat_of_sumFits fits, toNat_qviCantorPairing, first, second, wrapped, sum, triangle_succ]
    omega

/-- **When a pair is told from the others by its number.**  From the pairs whose sum
fits exactly if its own sum fits; from all pairs exactly if moreover its number is too
large for the block before its own, or it is the first. -/
theorem qviCantorPairing_injective_iff (a b : UInt32) :
    ((∀ c d, SumFits c d → qviCantorPairing a b = qviCantorPairing c d → a = c ∧ b = d) ↔
      SumFits a b) ∧
    ((∀ c d, qviCantorPairing a b = qviCantorPairing c d → a = c ∧ b = d) ↔
      SumFits a b ∧ (a.toNat + b.toNat = 0 ∨ 2 ^ 32 ≤ a.toNat + 2 * b.toNat)) := by
  have alone : (∀ c d, SumFits c d → qviCantorPairing a b = qviCantorPairing c d → a = c ∧ b = d) →
      SumFits a b := by
    intro told
    by_contra wraps
    obtain ⟨c, d, fits, same⟩ := exists_fitting_of_wraps wraps
    obtain ⟨rfl, rfl⟩ := told c d fits same
    exact wraps fits
  refine ⟨⟨alone, fun fits c d fits' same => eq_of_sumFits fits fits' same⟩, ?_, ?_⟩
  · intro told
    have fits := alone fun c d _ same => told c d same
    refine ⟨fits, ?_⟩
    by_contra room
    obtain ⟨c, d, wraps, same⟩ := exists_wrapping (a := a) (b := b) (by omega) (by omega)
    obtain ⟨rfl, rfl⟩ := told c d same
    exact wraps fits
  · rintro ⟨fits, full⟩ c d same
    by_cases fits' : SumFits c d
    · exact eq_of_sumFits fits fits' same
    · -- the wrapped sum names an earlier block, and the offset cannot bridge the way
      have numbers := congrArg UInt64.toNat same
      rw [toNat_of_sumFits fits, toNat_qviCantorPairing] at numbers
      obtain ⟨t, e, offset, later, -, block⟩ := exists_triangle_add_of_lt (wrapped_lt fits')
      obtain ⟨rfl, rfl⟩ := eq_of_triangle_add (Nat.le_add_left _ _) offset (numbers.trans block.symm)
      have before := triangle_mono (Nat.le_sub_one_of_lt later)
      have step := triangle_succ (a.toNat + b.toNat - 1)
      have small := d.toNat_lt
      rw [Nat.sub_add_cancel (by omega)] at step
      omega

/-- A wrapped sum against a small one. -/
theorem qviCantorPairing_collides :
    qviCantorPairing 4294967295 1 = 1 ∧ qviCantorPairing 1 0 = 1 := by
  decide

end QuoVadis.Kernel
