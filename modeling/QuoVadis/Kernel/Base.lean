/-
# Kernel.Base -- return codes, faults, hardware object types, bitmaps

What every part of the library shares.  A call of the source ends in one of four
ways: it returns `QV_SUCCESS`, it returns another code, it leaves with an
exception, or it does not go on at all (a failed `assert`, an integer division
by zero, an access outside a container).  The last three are a `Fault`; the
model keeps them apart because the callers do: return codes are handed on by
hand, exceptions unwind to the `qvi_catch_and_return` of the public function.

A cpuset is a finite set of OS processor indices.
-/
import Mathlib.Algebra.Group.Nat.Defs
import Mathlib.Data.Finset.Basic
import Mathlib.Data.Finset.Card
import Mathlib.Data.Finset.Lattice.Basic
import Mathlib.Data.List.Sort

namespace QuoVadis.Kernel

set_option autoImplicit false

universe u v

/-! ## Status -/

/-- The return codes of `quo-vadis.h`. -/
inductive Rc where
  | success
  | successShutdown
  | err
  | errEnv
  | errInternal
  | errFileIo
  | errSys
  | errOor
  | errInvldArg
  | errHwloc
  | errMpi
  | errRpc
  | errNotSupported
  | errNotFound
  | errSplit
  | resUnavailable
  deriving DecidableEq, Repr

/-- The number of a return code: they are counted from 0. -/
def Rc.code (rc : Rc) : Int := rc.ctorIdx

/-- How a call ends when it does not end with `QV_SUCCESS`.  The code of `thrown`
is the one `qvi_catch_and_return` reports: the code of a `qvi_runtime_error`, and
`QV_ERR` for any other exception such as `std::out_of_range`. -/
inductive Fault where
  | ret (rc : Rc)
  | thrown (rc : Rc)
  | trap
  deriving DecidableEq, Repr

/-- A call of the source. -/
abbrev Qv (α : Type u) := Except Fault α

/-- A call that comes back has come back from what it called first. -/
theorem bind_ok {α β : Type u} {x : Qv α} {f : α → Qv β} {b : β} (run : x >>= f = .ok b) :
    ∃ a, x = .ok a ∧ f a = .ok b := by
  cases x with
  | error fault => cases run
  | ok a => exact ⟨a, rfl, run⟩

theorem map_ok {α β : Type u} {x : Qv α} {f : α → β} {b : β} (run : x.map f = .ok b) :
    ∃ a, x = .ok a ∧ f a = b := by
  cases x with
  | error fault => cases run
  | ok a =>
      cases run
      exact ⟨a, rfl, rfl⟩

/-! ## Loops -/

section Loops

variable {σ α : Type u} {step : σ → α → Qv σ} {l : List α}

/-- The last turn of a loop that came back. -/
theorem foldlM_concat_ok {a : α} {s s' : σ} (run : (l ++ [a]).foldlM step s = .ok s') :
    ∃ mid, l.foldlM step s = .ok mid ∧ step mid a = .ok s' := by
  rw [List.foldlM_append] at run
  obtain ⟨mid, before, last⟩ := bind_ok run
  rw [List.foldlM_cons] at last
  obtain ⟨next, turn, done⟩ := bind_ok last
  cases done
  exact ⟨mid, before, turn⟩

/-- What every turn keeps is kept by a loop that comes back. -/
theorem foldlM_inv {P : σ → Prop} (turn : ∀ s a s', P s → step s a = .ok s' → P s') :
    ∀ {s s'}, P s → l.foldlM step s = .ok s' → P s' := by
  induction l with
  | nil =>
      intro s s' holds run
      cases run
      exact holds
  | cons a rest ih =>
      intro s s' holds run
      rw [List.foldlM_cons] at run
      obtain ⟨next, first, later⟩ := bind_ok run
      exact ih (turn s a next holds first) later

/-- A loop whose turns depend on their items for coming back. -/
theorem foldlM_ok_iff {P : α → Prop} (turn : ∀ s a, (∃ s', step s a = .ok s') ↔ P a) :
    ∀ s, (∃ s', l.foldlM step s = .ok s') ↔ ∀ a ∈ l, P a := by
  induction l with
  | nil => exact fun s => ⟨by simp, fun _ => ⟨s, rfl⟩⟩
  | cons a rest ih =>
      intro s
      rw [List.forall_mem_cons, List.foldlM_cons]
      constructor
      · rintro ⟨s', run⟩
        obtain ⟨next, first, later⟩ := bind_ok run
        exact ⟨(turn s a).1 ⟨next, first⟩, (ih next).1 ⟨s', later⟩⟩
      · rintro ⟨first, later⟩
        obtain ⟨next, first⟩ := (turn s a).2 first
        obtain ⟨s', later⟩ := (ih next).2 later
        exact ⟨s', by rw [first]; exact later⟩

end Loops

/-! ## Hardware object types -/

/-- `qv_hw_obj_type_t`. -/
inductive HwObjType where
  | machine
  | package
  | core
  | pu
  | l1cache
  | l2cache
  | l3cache
  | l4cache
  | l5cache
  | numanode
  | gpu
  | nic
  | last
  deriving DecidableEq, Repr

/-- `qvi_hwloc_res_class`. -/
inductive ResClass where
  | host
  | dev
  | last
  deriving DecidableEq, Repr

/-- `qvi_hwloc::obj_res_class`.  The type has no values outside the enumeration,
so the throwing default has no counterpart. -/
def objResClass : HwObjType → ResClass
  | .gpu | .nic => .dev
  | .last => .last
  | _ => .host

/-- `qvi_hwloc::supported_devices`. -/
def supportedDevices : List HwObjType := [.gpu, .nic]

@[simp] theorem mem_supportedDevices (t : HwObjType) :
    t ∈ supportedDevices ↔ objResClass t = .dev := by
  cases t <;> simp [supportedDevices, objResClass]

/-- `qv_scope_intrinsic_t`. -/
inductive ScopeIntrinsic where
  | system
  | user
  | job
  | process
  deriving DecidableEq, Repr

/-- What an argument of a C enumeration type with `n` enumerators can hold: an
enumerator, or a number that names none. -/
inductive EnumValue (α : Type u) (n : Nat) where
  | enumerator (value : α)
  | other (code : Nat) (beyond : n ≤ code ∧ code < 2 ^ 32)
  deriving DecidableEq, Repr

/-- The split colours of `quo-vadis.h`. -/
def splitUndefined : Int := -1
def splitClose : Int := -2
def splitPacked : Int := -3
def splitSpread : Int := -4

/-- `QVI_PORT_UNSET`. -/
def portUnset : Int := -1

/-! ## Bitmaps -/

/-- `qvi_hwloc_bitmap`. -/
abbrev Bitmap := Finset Nat

/-- `qvi_hwloc_bitmap::op_or`. -/
def opOr (bitmaps : List Bitmap) : Bitmap :=
  bitmaps.foldl (· ∪ ·) ∅

theorem mem_foldl_union (bitmaps : List Bitmap) :
    ∀ (acc : Bitmap) (x : Nat),
      x ∈ bitmaps.foldl (· ∪ ·) acc ↔ x ∈ acc ∨ ∃ b ∈ bitmaps, x ∈ b := by
  induction bitmaps with
  | nil => simp
  | cons b rest ih =>
      intro acc x
      rw [List.foldl_cons, ih]
      simp [or_assoc]

@[simp] theorem mem_opOr {bitmaps : List Bitmap} {x : Nat} :
    x ∈ opOr bitmaps ↔ ∃ b ∈ bitmaps, x ∈ b := by
  simp [opOr, mem_foldl_union]

theorem opOr_cons (b : Bitmap) (bitmaps : List Bitmap) : opOr (b :: bitmaps) = b ∪ opOr bitmaps := by
  ext x
  simp

theorem opOr_mono {bitmaps more : List Bitmap} (sub : bitmaps ⊆ more) : opOr bitmaps ⊆ opOr more := by
  intro x memX
  obtain ⟨b, member, inB⟩ := mem_opOr.1 memX
  exact mem_opOr.2 ⟨b, sub member, inB⟩

/-- Bitmaps of one bit each, all different, have as many bits as there are of them. -/
theorem card_opOr {bitmaps : List Bitmap} (apart : bitmaps.Pairwise Disjoint)
    (single : ∀ b ∈ bitmaps, b.card = 1) : (opOr bitmaps).card = bitmaps.length := by
  induction bitmaps with
  | nil => rfl
  | cons b rest ih =>
      obtain ⟨front, later⟩ := List.pairwise_cons.1 apart
      have disjoint : Disjoint b (opOr rest) := by
        rw [Finset.disjoint_left]
        intro x inB inRest
        obtain ⟨b', member, inB'⟩ := mem_opOr.1 inRest
        exact Finset.disjoint_left.1 (front b' member) inB inB'
      rw [opOr_cons, Finset.card_union_of_disjoint disjoint, single b List.mem_cons_self,
        ih later fun b' member => single b' (List.mem_cons_of_mem _ member), List.length_cons]
      omega

/-- Which of a list of disjoint bitmaps are in the union of a segment of it. -/
theorem subset_opOr_segment {l : List Bitmap} (apart : l.Pairwise Disjoint) (full : ∀ o ∈ l, o ≠ ∅)
    {x : Nat} (inside : x < l.length) (a s : Nat) :
    l[x] ⊆ opOr ((l.drop a).take s) ↔ a ≤ x ∧ x < a + s := by
  constructor
  · intro contained
    obtain ⟨e, memE⟩ := Finset.nonempty_iff_ne_empty.2 (full _ (List.getElem_mem inside))
    obtain ⟨o, memO, memE'⟩ := mem_opOr.1 (contained memE)
    obtain ⟨i, found⟩ := List.mem_iff_getElem?.1 memO
    rw [List.getElem?_take] at found
    split at found
    · rename_i less
      rw [List.getElem?_drop] at found
      obtain ⟨inside', rfl⟩ := List.getElem?_eq_some_iff.1 found
      -- an element in common makes it the same bitmap
      have same : a + i = x := by
        by_contra other
        have disjoint : Disjoint l[a + i] l[x] := by
          rcases Nat.lt_or_gt_of_ne other with before | after
          · exact List.pairwise_iff_getElem.1 apart _ _ inside' inside before
          · exact (List.pairwise_iff_getElem.1 apart _ _ inside inside' after).symm
        exact Finset.disjoint_left.1 disjoint memE' memE
      omega
    · cases found
  · rintro ⟨from_, below⟩ e memE
    refine mem_opOr.2 ⟨l[x], List.mem_iff_getElem?.2 ⟨x - a, ?_⟩, memE⟩
    rw [List.getElem?_take, if_pos (by omega), List.getElem?_drop, Nat.add_sub_cancel' from_]
    exact List.getElem?_eq_getElem inside

/-- Segments with the same union are the same. -/
theorem opOr_segment_inj {l : List Bitmap} (apart : l.Pairwise Disjoint) (full : ∀ o ∈ l, o ≠ ∅)
    {a s a' s' : Nat} (pos : 0 < s) (pos' : 0 < s') (fits : a + s ≤ l.length)
    (fits' : a' + s' ≤ l.length)
    (same : opOr ((l.drop a).take s) = opOr ((l.drop a').take s')) : a = a' ∧ a + s = a' + s' := by
  have members : ∀ x < l.length, (a ≤ x ∧ x < a + s ↔ a' ≤ x ∧ x < a' + s') := by
    intro x below
    rw [← subset_opOr_segment apart full below, same, subset_opOr_segment apart full below]
  have first := members a (by omega)
  have first' := members a' (by omega)
  have last := members (a + s - 1) (by omega)
  have last' := members (a' + s' - 1) (by omega)
  omega

/-! ## `std::sort` -/

/-- `std::sort` for the given strict comparison.  Elements that compare equal keep their
order here, which the standard leaves open.  Only devices with one ID are equal and not
the same, and no result depends on their order: of a sorted list of devices it is said
which devices are in it and that their IDs ascend. -/
def stdSort {α : Type u} (less : α → α → Bool) (l : List α) : List α :=
  l.insertionSort fun a b => less b a = false

theorem stdSort_perm {α : Type u} (less : α → α → Bool) (l : List α) :
    (stdSort less l).Perm l :=
  List.perm_insertionSort _ l

@[simp] theorem mem_stdSort {α : Type u} {less : α → α → Bool} {l : List α} {x : α} :
    x ∈ stdSort less l ↔ x ∈ l :=
  (stdSort_perm less l).mem_iff

/-- A comparison by a key sorts by that key. -/
theorem stdSort_pairwise {α : Type u} {β : Type v} [LinearOrder β] {less : α → α → Bool}
    {key : α → β} (byKey : ∀ a b, less a b = true ↔ key a < key b) (l : List α) :
    (stdSort less l).Pairwise fun a b => key a ≤ key b := by
  have order : ∀ a b, less b a = false ↔ key a ≤ key b := by
    intro a b
    rw [← Bool.not_eq_true, byKey, not_lt]
  have total : Std.Total fun a b => less b a = false := by
    constructor
    intro a b
    rw [order, order]
    exact le_total _ _
  have trans : IsTrans α fun a b => less b a = false := by
    constructor
    intro a b c
    rw [order, order, order]
    exact le_trans
  exact (List.pairwise_insertionSort _ l).imp fun {a b} before => (order a b).1 before

/-- `qvi_maxiperk`. -/
def qviMaxiperk (i k : Nat) : Nat :=
  if k = 0 then 0 else (i + k - 1) / k

/-- The ceiling leaves room for everything. -/
theorem le_mul_qviMaxiperk (i : Nat) {k : Nat} (pos : 0 < k) : i ≤ k * qviMaxiperk i k := by
  have : k ≠ 0 := by omega
  have whole := Nat.div_add_mod (i + k - 1) k
  have small := Nat.mod_lt (i + k - 1) pos
  simp only [qviMaxiperk, this, if_false]
  omega

end QuoVadis.Kernel
