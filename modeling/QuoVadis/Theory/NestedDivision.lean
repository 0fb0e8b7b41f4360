/-
# Theory.NestedDivision -- dividing shares among groups, again and again

Tasks stand in groups and hold a share each.  A division takes one group, gives
each of its members a color and a smaller share, and makes a group of every
color.  Groups are named by the colors that led to them, so the current groups
are the leaves of a tree and no name is the beginning of another.

`Fair` is what divisions preserve: members of a group hold equal shares, members
of different groups disjoint ones.  `fair_step` and `separated_step` are one
division, `fair_run` and `separated_run` any number of them.
-/
import Mathlib.Logic.Relation
import Mathlib.Order.Disjoint
import Mathlib.Data.List.Infix

namespace QuoVadis.Theory.NestedDivision

set_option autoImplicit false

universe u v w

variable {T : Type u} {C : Type v} {R : Type w}

/-- Who is in which group and holds what. -/
structure State (T : Type u) (C : Type v) (R : Type w) where
  group : T → List C
  share : T → R

variable [PartialOrder R] [OrderBot R]

/-- The group `g` is divided by color. -/
structure Divides (s s' : State T C R) (g : List C) (color : T → C) : Prop where
  member : ∀ x, s.group x = g → s'.group x = g ++ [color x]
  other : ∀ x, s.group x ≠ g → s'.group x = s.group x ∧ s'.share x = s.share x
  smaller : ∀ x, s.group x = g → s'.share x ≤ s.share x
  equal : ∀ x y, s.group x = g → s.group y = g → color x = color y → s'.share x = s'.share y
  apart : ∀ x y, s.group x = g → s.group y = g → color x ≠ color y →
    Disjoint (s'.share x) (s'.share y)

/-- Some group is divided. -/
def Step (s s' : State T C R) : Prop := ∃ g color, Divides s s' g color

/-- Equal shares inside a group, disjoint shares across, and names that are leaves. -/
structure Fair (s : State T C R) : Prop where
  equal : ∀ x y, s.group x = s.group y → s.share x = s.share y
  apart : ∀ x y, s.group x ≠ s.group y → Disjoint (s.share x) (s.share y)
  leaf : ∀ x y, s.group x <+: s.group y → s.group x = s.group y

variable {s s' : State T C R} {g : List C} {color : T → C}

/-- Nobody outside the divided group has a name that a child gets. -/
theorem Fair.fresh (fair : Fair s) {x y : T} (inside : s.group x = g) (outside : s.group y ≠ g)
    (c : C) : ¬ g ++ [c] <+: s.group y := by
  intro starts
  have longer : s.group x <+: s.group y := by
    rw [inside]
    exact (List.prefix_append g [c]).trans starts
  exact outside ((fair.leaf x y longer).symm.trans inside)

/-- Tasks in different groups stay in different groups. -/
theorem Divides.separated (divides : Divides s s' g color) (fair : Fair s) {x y : T}
    (different : s.group x ≠ s.group y) : s'.group x ≠ s'.group y := by
  by_cases inX : s.group x = g
  · by_cases inY : s.group y = g
    · exact absurd (inX.trans inY.symm) different
    · rw [divides.member x inX, (divides.other y inY).1]
      intro same
      apply fair.fresh inX inY (color x)
      rw [same]
  · by_cases inY : s.group y = g
    · rw [divides.member y inY, (divides.other x inX).1]
      intro same
      apply fair.fresh inY inX (color y)
      rw [same]
    · rw [(divides.other x inX).1, (divides.other y inY).1]
      exact different

theorem Divides.share_le (divides : Divides s s' g color) (x : T) : s'.share x ≤ s.share x := by
  by_cases inX : s.group x = g
  · exact divides.smaller x inX
  · rw [(divides.other x inX).2]

theorem Divides.leaf (divides : Divides s s' g color) (fair : Fair s) (x y : T)
    (starts : s'.group x <+: s'.group y) : s'.group x = s'.group y := by
  by_cases inX : s.group x = g
  · by_cases inY : s.group y = g
    · rw [divides.member x inX, divides.member y inY] at starts ⊢
      exact starts.eq_of_length (by simp)
    · rw [divides.member x inX, (divides.other y inY).1] at starts
      exact absurd starts (fair.fresh inX inY (color x))
  · by_cases inY : s.group y = g
    · rw [divides.member y inY, (divides.other x inX).1] at starts
      rcases List.prefix_concat_iff.1 starts with whole | early
      · exact absurd (by rw [whole]) (fair.fresh inY inX (color y))
      · rw [← inY] at early
        exact absurd ((fair.leaf x y early).trans inY) inX
    · rw [(divides.other x inX).1, (divides.other y inY).1] at starts ⊢
      exact fair.leaf x y starts

/-- **One division keeps the shares fair.** -/
theorem Divides.fair (divides : Divides s s' g color) (fair : Fair s) : Fair s' := by
  refine ⟨?_, ?_, divides.leaf fair⟩
  · intro x y same
    have together : s.group x = s.group y := by
      by_contra different
      exact divides.separated fair different same
    by_cases inX : s.group x = g
    · have inY : s.group y = g := together.symm.trans inX
      rw [divides.member x inX, divides.member y inY] at same
      exact divides.equal x y inX inY (by simpa using same)
    · have inY : s.group y ≠ g := fun inY => inX (together.trans inY)
      rw [(divides.other x inX).2, (divides.other y inY).2]
      exact fair.equal x y together
  · intro x y different
    by_cases together : s.group x = s.group y
    · by_cases inX : s.group x = g
      · have inY : s.group y = g := together.symm.trans inX
        rw [divides.member x inX, divides.member y inY] at different
        exact divides.apart x y inX inY fun same => different (by rw [same])
      · have inY : s.group y ≠ g := fun inY => inX (together.trans inY)
        rw [(divides.other x inX).1, (divides.other y inY).1] at different
        exact absurd together different
    · exact (fair.apart x y together).mono (divides.share_le x) (divides.share_le y)

/-! ## Any number of divisions -/

theorem fair_step (step : Step s s') (fair : Fair s) : Fair s' := by
  obtain ⟨g, color, divides⟩ := step
  exact divides.fair fair

theorem separated_step (step : Step s s') (fair : Fair s) {x y : T}
    (different : s.group x ≠ s.group y) : s'.group x ≠ s'.group y := by
  obtain ⟨g, color, divides⟩ := step
  exact divides.separated fair different

theorem fair_run {s s' : State T C R} (run : Relation.ReflTransGen Step s s') (fair : Fair s) :
    Fair s' := by
  induction run with
  | refl => exact fair
  | tail _ step ih => exact fair_step step ih

theorem separated_run {s s' : State T C R} (run : Relation.ReflTransGen Step s s') (fair : Fair s)
    {x y : T} (different : s.group x ≠ s.group y) : s'.group x ≠ s'.group y := by
  induction run with
  | refl => exact different
  | tail before step ih => exact separated_step step (fair_run before fair) ih

/-- **Tasks a division puts apart hold disjoint shares from then on.** -/
theorem disjoint_run {s s' : State T C R} (run : Relation.ReflTransGen Step s s') (fair : Fair s)
    {x y : T} (different : s.group x ≠ s.group y) : Disjoint (s'.share x) (s'.share y) :=
  (fair_run run fair).apart x y (separated_run run fair different)

end QuoVadis.Theory.NestedDivision
