/-
# Theory.Redeal -- items dealt anew among some of their holders

Tasks hold items, maybe the same ones.  A `Deal` collects what the tasks inside a
circle hold and gives each of these items to one task of the circle; nobody else
is touched.

Whatever the circles are, an item that is held stays held and no item appears
(`held_run`), and once everybody was inside a circle no item is ever held twice
(`sole_run`).
-/
import Mathlib.Logic.ExistsUnique
import Mathlib.Logic.Relation

namespace QuoVadis.Theory.Redeal

set_option autoImplicit false

universe u v

variable {T : Type u} {I : Type v}

/-- Somebody holds the item. -/
def Held (holds : T → I → Prop) (i : I) : Prop := ∃ x, holds x i

/-- No item is held by two tasks. -/
def Sole (holds : T → I → Prop) : Prop := ∀ i x y, holds x i → holds y i → x = y

/-- What the tasks `inside` hold is dealt among them. -/
structure Deal (inside : T → Prop) (holds holds' : T → I → Prop) : Prop where
  one : ∀ i, (∃ x, inside x ∧ holds x i) → ∃! x, inside x ∧ holds' x i
  source : ∀ i x, inside x → holds' x i → ∃ y, inside y ∧ holds y i
  other : ∀ i x, ¬ inside x → (holds' x i ↔ holds x i)

variable {inside : T → Prop} {holds holds' : T → I → Prop}

/-- **A deal loses no item and invents none.** -/
theorem Deal.held (deal : Deal inside holds holds') (i : I) : Held holds' i ↔ Held holds i := by
  constructor
  · rintro ⟨x, has⟩
    by_cases within : inside x
    · obtain ⟨y, -, had⟩ := deal.source i x within has
      exact ⟨y, had⟩
    · exact ⟨x, (deal.other i x within).1 has⟩
  · rintro ⟨x, had⟩
    by_cases within : inside x
    · obtain ⟨y, ⟨-, has⟩, -⟩ := deal.one i ⟨x, within, had⟩
      exact ⟨y, has⟩
    · exact ⟨x, (deal.other i x within).2 had⟩

/-- Two tasks inside never hold the same item after the deal. -/
theorem Deal.unique (deal : Deal inside holds holds') {i : I} {x y : T} (inX : inside x)
    (inY : inside y) (hasX : holds' x i) (hasY : holds' y i) : x = y :=
  (deal.one i (deal.source i x inX hasX)).unique ⟨inX, hasX⟩ ⟨inY, hasY⟩

/-- **Sole holders stay sole holders.** -/
theorem Deal.sole (deal : Deal inside holds holds') (sole : Sole holds) : Sole holds' := by
  intro i x y hasX hasY
  by_cases inX : inside x
  · by_cases inY : inside y
    · exact deal.unique inX inY hasX hasY
    · -- the item came from inside, so `y` held it together with somebody there
      obtain ⟨z, inZ, had⟩ := deal.source i x inX hasX
      have same := sole i z y had ((deal.other i y inY).1 hasY)
      exact absurd (same ▸ inZ) inY
  · by_cases inY : inside y
    · obtain ⟨z, inZ, had⟩ := deal.source i y inY hasY
      have same := sole i z x had ((deal.other i x inX).1 hasX)
      exact absurd (same ▸ inZ) inX
    · exact sole i x y ((deal.other i x inX).1 hasX) ((deal.other i y inY).1 hasY)

/-- A deal among all tasks makes everybody a sole holder. -/
theorem Deal.sole_of_all (deal : Deal inside holds holds') (all : ∀ x, inside x) : Sole holds' :=
  fun _ x y hasX hasY => deal.unique (all x) (all y) hasX hasY

/-! ## Any number of deals -/

/-- Some circle deals. -/
def Step (holds holds' : T → I → Prop) : Prop := ∃ inside, Deal inside holds holds'

theorem held_run (run : Relation.ReflTransGen Step holds holds') (i : I) :
    Held holds' i ↔ Held holds i := by
  induction run with
  | refl => exact Iff.rfl
  | tail _ step ih =>
      obtain ⟨inside, deal⟩ := step
      exact (deal.held i).trans ih

theorem sole_run (run : Relation.ReflTransGen Step holds holds') (sole : Sole holds) :
    Sole holds' := by
  induction run with
  | refl => exact sole
  | tail _ step ih =>
      obtain ⟨inside, deal⟩ := step
      exact deal.sole ih

end QuoVadis.Theory.Redeal
