/-
# Kernel.Strings -- the text functions of qvi-utils.cc

A text is its list of characters.  `std::stoi` is modelled by what the standard
says of it: `strtol` skips blanks, reads a sign and then digits as far as they go;
no digits, or a number that is not an `int`, is an exception, and `qvi_stoi` turns
both into one of its own.

* `qviStoi_digits`, `qviStoi_toDigits`: a text of digits is its number, unless that is
  no `int`;
* `ofDigitChars_lt`: nine digits always are one;
* `qviSplitString_size`: there is one token more than there are delimiters;
* `toString_int_inj`: a number is known by its text.
-/
import Mathlib.Algebra.Group.Int.Defs
import Mathlib.Data.List.TakeWhile
import QuoVadis.Kernel.Base

namespace QuoVadis.Kernel

set_option autoImplicit false

/-! ## `qvi_stoi` -/

/-- `isspace`. -/
def isSpace (c : Char) : Bool :=
  c = ' ' ∨ 9 ≤ c.toNat ∧ c.toNat ≤ 13

/-- `strtol` in base 10, without the bounds of a type: `none` when there is no number. -/
def strtol (str : List Char) : Option Int :=
  let text := str.dropWhile isSpace
  let digits := (match text with
    | '-' :: rest | '+' :: rest => rest
    | rest => rest).takeWhile Char.isDigit
  if digits = [] then none
  else if text.head? = some '-' then some (-(Nat.ofDigitChars 10 digits 0 : Int))
  else some (Nat.ofDigitChars 10 digits 0)

/-- `qvi_stoi` in base 10. -/
def qviStoi (str : List Char) : Qv Int :=
  match strtol str with
  -- std::invalid_argument
  | none => .error (.thrown .errInvldArg)
  | some value =>
      if -2 ^ 31 ≤ value ∧ value < 2 ^ 31 then .ok value
      -- std::out_of_range
      else .error (.thrown .errInvldArg)

theorem isSpace_of_isDigit {c : Char} (digit : c.isDigit = true) : isSpace c = false := by
  have bounds : 48 ≤ c.toNat ∧ c.toNat ≤ 57 := Char.isDigit_iff_toNat.1 digit
  have noBlank : c ≠ ' ' := by
    rintro rfl
    exact absurd bounds.1 (by decide)
  simp only [isSpace, noBlank, false_or, decide_eq_false_iff_not]
  omega

/-- A text of digits is read as its number. -/
theorem strtol_digits {digits : List Char} (some_ : digits ≠ [])
    (all : ∀ c ∈ digits, c.isDigit = true) :
    strtol digits = some (Nat.ofDigitChars 10 digits 0 : Int) := by
  obtain ⟨c, rest, rfl⟩ := List.exists_cons_of_ne_nil some_
  have digit : c.isDigit = true := all c List.mem_cons_self
  have noMinus : c ≠ '-' := by
    rintro rfl
    exact absurd digit (by decide)
  have noPlus : c ≠ '+' := by
    rintro rfl
    exact absurd digit (by decide)
  have kept : (c :: rest).dropWhile isSpace = c :: rest :=
    List.dropWhile_cons_of_neg (by simp [isSpace_of_isDigit digit])
  have unsigned : (match c :: rest with
      | '-' :: rest | '+' :: rest => rest
      | rest => rest) = c :: rest := by
    split
    · rename_i same
      exact absurd (List.cons.inj same).1 noMinus
    · rename_i same
      exact absurd (List.cons.inj same).1 noPlus
    · rfl
  have whole : (c :: rest).takeWhile Char.isDigit = c :: rest := by
    rw [List.takeWhile_eq_self_iff]
    exact all
  simp only [strtol, kept, unsigned, whole]
  rw [if_neg some_, List.head?_cons, if_neg (by simpa using noMinus)]

theorem qviStoi_digits {digits : List Char} (some_ : digits ≠ [])
    (all : ∀ c ∈ digits, c.isDigit = true) :
    qviStoi digits =
      if Nat.ofDigitChars 10 digits 0 < 2 ^ 31 then .ok (Nat.ofDigitChars 10 digits 0 : Int)
      else .error (.thrown .errInvldArg) := by
  simp only [qviStoi, strtol_digits some_ all]
  by_cases fits : Nat.ofDigitChars 10 digits 0 < 2 ^ 31
  · rw [if_pos fits, if_pos (by omega)]
  · rw [if_neg fits, if_neg (by omega)]

/-- A number that is printed is read back. -/
theorem qviStoi_toDigits {n : Nat} (fits : n < 2 ^ 31) :
    qviStoi (Nat.toDigits 10 n) = .ok (n : Int) := by
  have digits : ∀ c ∈ Nat.toDigits 10 n, c.isDigit = true := fun c member =>
    Nat.isDigit_of_mem_toDigits (by decide) (by decide) member
  rw [qviStoi_digits Nat.toDigits_ne_nil digits, Nat.ofDigitChars_ten_toDigits, if_pos fits]

/-- `n` digits are less than `10 ^ n`. -/
theorem ofDigitChars_lt {digits : List Char} (all : ∀ c ∈ digits, c.isDigit = true) :
    Nat.ofDigitChars 10 digits 0 < 10 ^ digits.length := by
  induction digits with
  | nil => simp
  | cons c rest ih =>
      have digit : c.toNat ≤ 57 := (Char.isDigit_iff_toNat.1 (all c List.mem_cons_self)).2
      have rest_ := ih fun d member => all d (List.mem_cons_of_mem _ member)
      rw [Nat.ofDigitChars_cons, Nat.ofDigitChars_eq_ofDigitChars_zero, List.length_cons,
        Nat.pow_succ]
      have first : 10 * 0 + (c.toNat - '0'.toNat) ≤ 9 := by
        have zero : '0'.toNat = 48 := rfl
        omega
      calc 10 ^ rest.length * (10 * 0 + (c.toNat - '0'.toNat)) + Nat.ofDigitChars 10 rest 0
        _ ≤ 10 ^ rest.length * 9 + Nat.ofDigitChars 10 rest 0 :=
            Nat.add_le_add_right (Nat.mul_le_mul_left _ first) _
        _ < 10 ^ rest.length * 10 := by omega

/-! ## `qvi_split_string` -/

/-- `qvi_split_string` for a delimiter of one character, as all its callers have it. -/
def qviSplitString (str : List Char) (delimiter : Char) : List (List Char) :=
  str.splitOn delimiter

theorem qviSplitString_ne_nil (str : List Char) (delimiter : Char) :
    qviSplitString str delimiter ≠ [] :=
  List.splitOn_ne_nil _ _

theorem qviSplitString_size (str : List Char) (delimiter : Char) :
    (qviSplitString str delimiter).length = str.count delimiter + 1 := by
  induction str with
  | nil => rfl
  | cons c rest ih =>
      rw [qviSplitString] at ih ⊢
      rw [List.splitOn_cons_eq_if_modifyHead]
      by_cases same : c = delimiter
      · simp [same, ih]
      · simp [same, ih]

/-- A text that starts with a key and a delimiter. -/
theorem qviSplitString_key {key : List Char} {delimiter : Char} (free : delimiter ∉ key)
    (rest : List Char) :
    qviSplitString (key ++ delimiter :: rest) delimiter = key :: qviSplitString rest delimiter :=
  List.splitOn_append_cons_self_of_not_mem free rest

/-- Texts that end at the first delimiter are told apart by it. -/
theorem append_delimiter_inj {delimiter : Char} {key key' rest rest' : List Char} (free : delimiter ∉ key)
    (free' : delimiter ∉ key') (same : key ++ delimiter :: rest = key' ++ delimiter :: rest') :
    key = key' ∧ rest = rest' := by
  induction key generalizing key' with
  | nil =>
      cases key' with
      | nil => exact ⟨rfl, (List.cons.inj same).2⟩
      | cons c key' =>
          exact absurd (List.cons.inj same).1 fun eq => free' (eq ▸ List.mem_cons_self)
  | cons c key ih =>
      cases key' with
      | nil => exact absurd (List.cons.inj same).1 fun eq => free (eq ▸ List.mem_cons_self)
      | cons c' key' =>
          rw [List.cons_append, List.cons_append] at same
          obtain ⟨rfl, later⟩ := List.cons.inj same
          obtain ⟨rfl, rfl⟩ := ih (fun member => free (List.mem_cons_of_mem _ member))
            (fun member => free' (List.mem_cons_of_mem _ member)) later
          exact ⟨rfl, rfl⟩

/-! ## `std::to_string` -/

/-- The characters of a number. -/
theorem mem_toDigits {n : Nat} {c : Char} (member : c ∈ Nat.toDigits 10 n) : c.isDigit = true :=
  Nat.isDigit_of_mem_toDigits (by decide) (by decide) member

theorem toDigits_inj {m n : Nat} (same : Nat.toDigits 10 m = Nat.toDigits 10 n) : m = n := by
  rw [← Nat.ofDigitChars_ten_toDigits (n := m), ← Nat.ofDigitChars_ten_toDigits (n := n), same]

theorem toList_toString_nat (n : Nat) : (toString n).toList = Nat.toDigits 10 n := Nat.toList_repr

theorem toList_toString_int (i : Int) :
    (toString i).toList = if 0 ≤ i then Nat.toDigits 10 i.toNat else '-' :: Nat.toDigits 10 (-i).toNat := by
  rw [Int.toString_eq_repr, Int.repr_eq_if]
  split
  · exact Nat.toList_repr
  · simp [Nat.toList_repr]

theorem toString_int_inj {i j : Int} (same : (toString i).toList = (toString j).toList) : i = j := by
  have noMinus : ∀ n, '-' ∉ Nat.toDigits 10 n := fun n member => absurd (mem_toDigits member) (by decide)
  rw [toList_toString_int, toList_toString_int] at same
  split at same
  · split at same
    · have := toDigits_inj same
      omega
    · exact absurd (same ▸ List.mem_cons_self) (noMinus _)
  · split at same
    · exact absurd (same ▸ List.mem_cons_self) (noMinus _)
    · have := toDigits_inj (List.cons.inj same).2
      omega

theorem mem_toString_int {i : Int} {c : Char} (member : c ∈ (toString i).toList) :
    c.isDigit = true ∨ c = '-' := by
  rw [toList_toString_int] at member
  split at member
  · exact .inl (mem_toDigits member)
  · rcases List.mem_cons.1 member with rfl | member
    · exact .inr rfl
    · exact .inl (mem_toDigits member)

end QuoVadis.Kernel
