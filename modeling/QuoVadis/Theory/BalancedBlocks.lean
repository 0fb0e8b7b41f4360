/-
# Theory.BalancedBlocks -- cutting `n` things into `m` consecutive blocks

`n` things are cut into `m` consecutive blocks whose sizes differ by at most
one, the larger blocks first: block `i` has `n / m` members, and one more when
`i < n % m`.  `start n m i` is the number of things before block `i`, so the
blocks tile `0 .. n - 1` (`start_end`, `exists_block`); `blockOf`
is the block a thing is in (`blockOf_bounds`).

Two cuts of the same things have a block in common only where both have their larger
blocks (`same_block_iff`).

`chunks l m` is the same cut of a list; its concatenation is the list again
(`flatten_chunks`), so nothing is lost and nothing is doubled.
-/
import Mathlib.Data.List.Basic
import Mathlib.Order.Interval.Finset.Nat
import Mathlib.Data.List.Range
import Mathlib.Data.Int.CardIntervalMod
import Mathlib.Tactic.Ring

namespace QuoVadis.Theory.BalancedBlocks

set_option autoImplicit false

universe u

/-! ## Sizes and offsets -/

/-- The size of block `i`. -/
def size (n m i : Nat) : Nat :=
  n / m + if i < n % m then 1 else 0

/-- The number of things in the blocks before block `i`. -/
def start (n m i : Nat) : Nat :=
  i * (n / m) + min i (n % m)

@[simp] theorem start_zero (n m : Nat) : start n m 0 = 0 := by
  simp [start]

theorem start_succ (n m i : Nat) : start n m (i + 1) = start n m i + size n m i := by
  have step : (i + 1) * (n / m) = i * (n / m) + n / m := by ring
  simp only [start, size, step]
  split <;> omega

/-- The last block ends where the things end. -/
theorem start_end {n m : Nat} (pos : 0 < m) : start n m m = n := by
  have small : n % m < m := Nat.mod_lt n pos
  have whole : m * (n / m) + n % m = n := Nat.div_add_mod n m
  simp only [start]
  omega

theorem start_mono (n m : Nat) : Monotone (start n m) :=
  monotone_nat_of_le_succ fun i => by rw [start_succ]; omega

/-- A block ends among the things. -/
theorem start_succ_le {n m i : Nat} (inside : i < m) : start n m (i + 1) ≤ n :=
  calc start n m (i + 1) ≤ start n m m := start_mono n m inside
    _ = n := start_end (by omega)

theorem size_pos {n m : Nat} (pos : 0 < m) (enough : m ≤ n) (i : Nat) : 0 < size n m i := by
  have : 0 < n / m := Nat.div_pos enough pos
  simp only [size]
  omega

/-- The larger blocks have the ceiling of `n / m` members. -/
theorem size_larger {n m i : Nat} (pos : 0 < m) (larger : i < n % m) :
    size n m i = (n + m - 1) / m := by
  have whole : m * (n / m) + n % m = n := Nat.div_add_mod n m
  have small : n % m < m := Nat.mod_lt n pos
  have sum : n + m - 1 = (n % m - 1) + m * (n / m + 1) := by
    rw [Nat.mul_add, Nat.mul_one]
    omega
  have lead : (n % m - 1) / m = 0 := Nat.div_eq_of_lt (by omega)
  rw [sum, Nat.add_mul_div_left _ _ pos, lead]
  simp [size, larger]

/-- A block has the floor or the ceiling of `n / m` members. -/
theorem size_floor_or_ceil {n m : Nat} (pos : 0 < m) (i : Nat) :
    size n m i = n / m ∨ size n m i = (n + m - 1) / m := by
  by_cases larger : i < n % m
  · right
    exact size_larger pos larger
  · left
    simp [size, larger]

/-- The first block has the ceiling. -/
theorem size_zero {n m : Nat} (pos : 0 < m) : size n m 0 = (n + m - 1) / m := by
  by_cases larger : 0 < n % m
  · exact size_larger pos larger
  · have whole : m * (n / m) + n % m = n := Nat.div_add_mod n m
    have sum : n + m - 1 = (m - 1) + m * (n / m) := by omega
    have lead : (m - 1) / m = 0 := Nat.div_eq_of_lt (by omega)
    rw [sum, Nat.add_mul_div_left _ _ pos, lead]
    simp [size, larger]

/-! ## Every thing is in exactly one block -/

theorem exists_block_below (n m x : Nat) :
    ∀ j, x < start n m j → ∃ i < j, start n m i ≤ x ∧ x < start n m (i + 1) := by
  intro j
  induction j with
  | zero =>
      intro below
      simp at below
  | succ j ih =>
      intro below
      by_cases early : x < start n m j
      · obtain ⟨i, less, bounds⟩ := ih early
        exact ⟨i, by omega, bounds⟩
      · exact ⟨j, by omega, by omega, below⟩

theorem exists_block {n m x : Nat} (pos : 0 < m) (inside : x < n) :
    ∃ i < m, start n m i ≤ x ∧ x < start n m (i + 1) :=
  exists_block_below n m x m (by rwa [start_end pos])

/-- The block of a thing: the number of blocks that end at or before it. -/
def blockOf (n m x : Nat) : Nat :=
  (List.range m).countP fun i => start n m (i + 1) ≤ x

theorem countP_lt_range (i : Nat) :
    ∀ m, i ≤ m → (List.range m).countP (fun j => j < i) = i := by
  intro m
  induction m with
  | zero =>
      intro bound
      simp
      omega
  | succ m ih =>
      intro bound
      rw [List.range_succ, List.countP_append]
      by_cases last : i = m + 1
      · subst last
        have all : (List.range m).countP (fun j => decide (j < m + 1)) = m := by
          rw [List.countP_eq_length.2, List.length_range]
          intro j member
          have := List.mem_range.1 member
          simp only [decide_eq_true_eq]
          omega
        rw [all, List.countP_singleton, decide_eq_true (Nat.lt_succ_self m), if_pos rfl]
      · have below := ih (by omega)
        have notLast : decide (m < i) = false := decide_eq_false (by omega)
        rw [below, List.countP_singleton, notLast, if_neg (by decide), Nat.add_zero]

theorem blockOf_eq {n m x i : Nat} (inside : i < m)
    (bounds : start n m i ≤ x ∧ x < start n m (i + 1)) : blockOf n m x = i := by
  have same : ∀ j, start n m (j + 1) ≤ x ↔ j < i := by
    intro j
    constructor
    · intro before
      by_contra late
      have := start_mono n m (show i + 1 ≤ j + 1 by omega)
      omega
    · intro less
      have := start_mono n m (show j + 1 ≤ i by omega)
      omega
  unfold blockOf
  simp only [same]
  exact countP_lt_range i m (by omega)

theorem blockOf_bounds {n m x : Nat} (pos : 0 < m) (inside : x < n) :
    blockOf n m x < m ∧ start n m (blockOf n m x) ≤ x ∧ x < start n m (blockOf n m x + 1) := by
  obtain ⟨i, less, bounds⟩ := exists_block pos inside
  rw [blockOf_eq less bounds]
  exact ⟨less, bounds⟩

/-- Later things are in later blocks. -/
theorem blockOf_mono (n m : Nat) : Monotone (blockOf n m) := by
  intro x y le
  refine List.countP_mono_left fun i _ ended => ?_
  simp only [decide_eq_true_eq] at ended ⊢
  omega

/-- A block has its size many members. -/
theorem card_blockOf {n m i : Nat} (inside : i < m) :
    ((Finset.range n).filter fun x => blockOf n m x = i).card = size n m i := by
  have pos : 0 < m := by omega
  have block : ((Finset.range n).filter fun x => blockOf n m x = i) =
      Finset.Ico (start n m i) (start n m (i + 1)) := by
    ext x
    simp only [Finset.mem_filter, Finset.mem_range, Finset.mem_Ico]
    constructor
    · rintro ⟨below, rfl⟩
      exact (blockOf_bounds pos below).2
    · intro bounds
      have fits : start n m (i + 1) ≤ n := start_succ_le inside
      exact ⟨by omega, blockOf_eq inside bounds⟩
  rw [block, Nat.card_Ico, start_succ]
  omega

/-- Dealing the things out in turn gives the blocks' sizes too. -/
theorem card_mod {n m i : Nat} (inside : i < m) :
    ((Finset.range n).filter fun x => x % m = i).card = size n m i := by
  have count := Nat.count_modEq_card (r := m) n (by omega) i
  rw [Nat.count_eq_card_filter_range] at count
  have small : i % m = i := Nat.mod_eq_of_lt inside
  simpa only [Nat.ModEq, small, size] using count

/-! ## Two cuts of the same things -/

theorem start_strictMono {n m : Nat} (pos : 0 < m) (enough : m ≤ n) : StrictMono (start n m) :=
  strictMono_nat_of_lt_succ fun i => by
    have := size_pos pos enough i
    rw [start_succ]
    omega

section TwoCuts

variable {n k p : Nat} (pos : 0 < k) (less : k < p) (enough : p ≤ n)

include pos less enough

/-- The finer cut has the smaller blocks; where they are as small, fewer of them are
larger. -/
theorem finer_cut : n / p ≤ n / k ∧ 0 < n / p ∧
    (n / p = n / k → n % p < n % k) ∧ (n / k = n / p + 1 → n % k = 0 → n % p < k) := by
  have wholeK : k * (n / k) + n % k = n := Nat.div_add_mod n k
  have wholeP : p * (n / p) + n % p = n := Nat.div_add_mod n p
  have positive : 0 < n / p := Nat.div_pos enough (by omega)
  -- the blocks the finer cut has more hold something
  obtain ⟨d, rfl⟩ : ∃ d, p = k + d := ⟨p - k, by omega⟩
  have extra : 0 < d * (n / (k + d)) := Nat.mul_pos (by omega) positive
  rw [Nat.add_mul] at wholeP
  refine ⟨Nat.div_le_div_left (by omega) pos, positive, ?_, ?_⟩
  · intro same
    rw [← same] at wholeK
    omega
  · intro next none_
    rw [next, Nat.mul_add, Nat.mul_one] at wholeK
    omega

/-- **A block of the coarser cut is the block of that number of the finer one** exactly
if the first blocks are equally large and the finer cut's block is one of its larger. -/
theorem same_block_iff (c : Nat) :
    start n k c = start n p c ∧ start n k (c + 1) = start n p (c + 1) ↔
      size n k 0 = size n p 0 ∧ c < n % p := by
  obtain ⟨coarser, positive, fewer, -⟩ := finer_cut pos less enough
  rw [start_succ, start_succ]
  constructor
  · rintro ⟨starts, ends⟩
    have sizes : size n k c = size n p c := by omega
    simp only [start, size] at starts sizes ⊢
    by_cases same : n / p = n / k
    · have := fewer same
      rw [same] at starts sizes ⊢
      split_ifs at sizes ⊢ <;> omega
    · -- the coarser blocks are larger by one, and there is no remainder
      have next : n / k = n / p + 1 := by split_ifs at sizes <;> omega
      rw [next, Nat.mul_add, Nat.mul_one] at starts
      split_ifs at sizes ⊢ <;> omega
  · rintro ⟨first, larger⟩
    simp only [start, size] at first ⊢
    by_cases same : n / p = n / k
    · have := fewer same
      rw [same]
      split_ifs <;> omega
    · have next : n / k = n / p + 1 := by split_ifs at first <;> omega
      have exact_ : n % k = 0 := by split_ifs at first <;> omega
      rw [next, exact_, Nat.mul_add, Nat.mul_one]
      split_ifs <;> omega

/-- Then the larger blocks of the finer cut are fewer than the coarser cut's blocks. -/
theorem mod_lt_of_size_eq (first : size n k 0 = size n p 0) : n % p < k := by
  obtain ⟨coarser, positive, fewer, few⟩ := finer_cut pos less enough
  have small : n % k < k := Nat.mod_lt n pos
  simp only [size] at first
  by_cases same : n / p = n / k
  · have := fewer same
    omega
  · split_ifs at first <;> omega

/-- Blocks of the coarser cut, taken from the first on, are blocks of the finer cut only
under their own number. -/
theorem eq_of_same_blocks {d : Nat} {color : Nat → Nat}
    (same : ∀ j < d, start n k j = start n p (color j) ∧
      start n k (j + 1) = start n p (color j + 1)) : ∀ j < d, color j = j := by
  have strict := start_strictMono (by omega : 0 < p) enough
  intro j
  induction j with
  | zero =>
      intro inside
      have first : start n p (color 0) = start n p 0 := by
        rw [← (same 0 inside).1, start_zero, start_zero]
      exact strict.injective first
  | succ j ih =>
      intro inside
      have ends := (same j (by omega)).2
      rw [ih (by omega)] at ends
      exact strict.injective ((same (j + 1) inside).1.symm.trans ends)

end TwoCuts

/-! ## Cutting a list -/

section Chunks

variable {α : Type u}

/-- The cut of a list into `m` consecutive blocks. -/
def chunks (l : List α) (m : Nat) : List (List α) :=
  (List.range m).map fun i => (l.drop (start l.length m i)).take (size l.length m i)

@[simp] theorem length_chunks (l : List α) (m : Nat) : (chunks l m).length = m := by
  simp [chunks]

theorem getElem?_chunks (l : List α) {m i : Nat} (inside : i < m) :
    (chunks l m)[i]? = some ((l.drop (start l.length m i)).take (size l.length m i)) := by
  simp [chunks, inside]

theorem flatten_chunks_prefix (l : List α) (m : Nat) :
    ∀ j, ((List.range j).map fun i =>
      (l.drop (start l.length m i)).take (size l.length m i)).flatten =
        l.take (start l.length m j) := by
  intro j
  induction j with
  | zero => simp
  | succ j ih =>
      rw [List.range_succ, List.map_append, List.flatten_append, ih, start_succ, List.take_add]
      simp

theorem flatten_chunks (l : List α) {m : Nat} (pos : 0 < m) : (chunks l m).flatten = l := by
  rw [chunks, flatten_chunks_prefix, start_end pos, List.take_length]

/-- The blocks have the sizes they should have. -/
theorem length_chunk {l : List α} {m i : Nat} {c : List α}
    (found : (chunks l m)[i]? = some c) : c.length = size l.length m i := by
  have inside : i < m := by
    have := (List.getElem?_eq_some_iff.1 found).1
    simpa using this
  have fits : start l.length m (i + 1) ≤ l.length := start_succ_le inside
  rw [start_succ] at fits
  rw [getElem?_chunks l inside, Option.some.injEq] at found
  rw [← found, List.length_take, List.length_drop]
  omega

end Chunks

end QuoVadis.Theory.BalancedBlocks
