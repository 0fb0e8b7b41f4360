/-
# Kernel.Hwloc -- counting, selecting and splitting the objects of a topology

`Hwloc` is a loaded topology as the library sees it: for every object type the
cpusets of its objects in logical order, the allowed cpuset, and the discovered
devices.  hwloc's indexed lookup is a field of its own, tied to the objects by
its documented behaviour (`objInsideCpuset_eq`: the `i`-th object that is not
empty and lies inside the set), because the library counts objects with a scan
of its own and then selects them through that lookup.  hwloc documents that the
lookup cannot work for objects without cpusets: GPUs and NICs are OS devices, and
reading the cpuset of one stops the process (`getCpusetForNobjs_dev`).

* `mGetNobjsInCpuset_eq`, `mSplitCpusetByRange_eq`: both are about the same list,
  the `inside` objects;
* `bitmapSplit_eq`: a split is the balanced cut of the `inside` PUs, or empty;
* `getCpusetForNobjs_ok_iff`: the selection of the first `nobjs` objects.
-/
import QuoVadis.Kernel.Base
import QuoVadis.Theory.BalancedBlocks

namespace QuoVadis.Kernel

open QuoVadis.Theory

set_option autoImplicit false

/-- `qvi_hwloc_device::INVALID_ID`; `INVISIBLE_ID` is the same number. -/
def invalidId : Int := -1

/-- `qvi_hwloc_device`. -/
structure HwlocDevice where
  type : HwObjType := .last
  affinity : Bitmap := ∅
  id : Int := invalidId
  name : String := ""
  pciBusId : String := ""
  uuid : String := ""
  deriving DecidableEq

/-- `qvi_hwloc` after `topology_load`. -/
structure Hwloc where
  /-- The cpusets of the objects at the depth of a type, in logical order. -/
  objs : HwObjType → List Bitmap
  /-- `hwloc_get_obj_inside_cpuset_by_depth`, at the depth of a type with cpusets. -/
  objInsideCpuset : Bitmap → HwObjType → Nat → Option Bitmap
  objInsideCpuset_eq : ∀ set t i, objResClass t = .host →
    objInsideCpuset set t i = ((objs t).filter fun o => o ≠ ∅ ∧ o ⊆ set)[i]?
  /-- There are objects at the depth of the OS devices, which have no cpusets. -/
  osDevices : Bool
  /-- `topology_get_cpuset`. -/
  allowedCpuset : Bitmap
  /-- `m_devmap`. -/
  devmap : HwObjType → List HwlocDevice
  devmap_type : ∀ t, ∀ d ∈ devmap t, d.type = t

namespace Hwloc

variable (h : Hwloc)

/-- The objects of a type that a cpuset contains: not empty and included. -/
def inside (t : HwObjType) (cpuset : Bitmap) : List Bitmap :=
  (h.objs t).filter fun o => o ≠ ∅ ∧ o ⊆ cpuset

theorem mem_inside {h : Hwloc} {t : HwObjType} {cpuset o : Bitmap} :
    o ∈ h.inside t cpuset ↔ o ∈ h.objs t ∧ o ≠ ∅ ∧ o ⊆ cpuset := by
  simp [inside]

/-! ## The source's functions -/

/-- `obj_type_depth`.  A depth is named by its type; `obj_get_type` throws for the
sentinel. -/
def objTypeDepth : HwObjType → Qv HwObjType
  | .last => .error (.thrown .errInternal)
  | t => .ok t

/-- `m_get_nobjs_in_cpuset`. -/
def mGetNobjsInCpuset (targetObj : HwObjType) (cpuset : Bitmap) : Qv Nat := do
  let depth ← objTypeDepth targetObj
  return (h.objs depth).foldl
    (fun nobjs obj =>
      if ¬ obj ⊆ cpuset then nobjs
      -- objects with empty sets (outside of the cgroup) do not count
      else if obj = ∅ then nobjs
      else nobjs + 1) 0

/-- `m_get_nosdevs_in_cpuset`. -/
def mGetNosdevsInCpuset (devs : List HwlocDevice) (cpuset : Bitmap) : Qv Nat :=
  .ok (devs.foldl (fun nobjs dev => if dev.affinity ⊆ cpuset then nobjs + 1 else nobjs) 0)

/-- `get_nobjs_in_cpuset`. -/
def getNobjsInCpuset (targetObj : HwObjType) (cpuset : Bitmap) : Qv Nat :=
  match targetObj with
  | .gpu | .nic => mGetNosdevsInCpuset (h.devmap targetObj) cpuset
  | _ => h.mGetNobjsInCpuset targetObj cpuset

/-- `get_obj_in_cpuset_by_depth`. -/
def getObjInCpusetByDepth (cpuset : Bitmap) (depth : HwObjType) (index : Nat) : Qv Bitmap :=
  match objResClass depth with
  -- hwloc reads the cpuset of the first OS device, a null pointer
  | .dev => if h.osDevices then .error .trap else .error (.ret .errHwloc)
  | _ =>
      match h.objInsideCpuset cpuset depth index with
      | some obj => .ok obj
      | none => .error (.ret .errHwloc)

/-- The loop that `m_split_cpuset_by_range` and `get_cpuset_for_nobjs` share: the
union of the objects `base .. base + extent - 1` of a depth. -/
def orObjsInRange (cpuset : Bitmap) (depth : HwObjType) (base extent : Nat) : Qv Bitmap :=
  (List.range' base extent).foldlM
    (fun result i => do
      let dobj ← h.getObjInCpusetByDepth cpuset depth i
      return result ∪ dobj) ∅

/-- `m_split_cpuset_by_range`. -/
def mSplitCpusetByRange (bitmap : Bitmap) (base extent : Nat) : Qv Bitmap := do
  let puDepth ← objTypeDepth .pu
  h.orObjsInRange bitmap puDepth base extent

/-- `bitmap_split`. -/
def bitmapSplit (bitmap : Bitmap) (npieces : Nat) : Qv (List Bitmap) := do
  let npus ← h.mGetNobjsInCpuset .pu bitmap
  if npieces = 0 ∨ npus = 0 ∨ npieces > npus then
    return []
  let baseChunkSize := npus / npieces
  let remainder := npus % npieces
  let (_, result) ← (List.range npieces).foldlM
    (fun (st : Nat × List Bitmap) i => do
      let (currentPos, result) := st
      let currentChunkSize := baseChunkSize + if i < remainder then 1 else 0
      let piece ← h.mSplitCpusetByRange bitmap currentPos currentChunkSize
      return (currentPos + currentChunkSize, result ++ [piece])) (0, [])
  return result

/-- `get_cpuset_for_nobjs`. -/
def getCpusetForNobjs (cpuset : Bitmap) (objType : HwObjType) (nobjs : Nat) : Qv Bitmap := do
  let objDepth ← objTypeDepth objType
  h.orObjsInRange cpuset objDepth 0 nobjs

/-- `get_devices_included_in_cpuset`. -/
def getDevicesIncludedInCpuset (objType : HwObjType) (cpuset : Bitmap) : List HwlocDevice :=
  (h.devmap objType).filter fun dev => dev.affinity ⊆ cpuset

/-! ## Counting and selecting are about the same list -/

variable {h}

theorem foldl_count_inside (cpuset : Bitmap) (objs : List Bitmap) :
    ∀ n, objs.foldl
      (fun nobjs obj => if ¬ obj ⊆ cpuset then nobjs else if obj = ∅ then nobjs else nobjs + 1) n =
        n + (objs.filter fun o => o ≠ ∅ ∧ o ⊆ cpuset).length := by
  induction objs with
  | nil => simp
  | cons o rest ih =>
      intro n
      rw [List.foldl_cons, ih]
      by_cases included : o ⊆ cpuset
      · by_cases empty : o = ∅
        · simp [empty]
        · simp only [included, not_true, if_false, empty]
          rw [List.filter_cons_of_pos (by simp [included, empty]), List.length_cons]
          omega
      · simp [included]

theorem objTypeDepth_eq {t : HwObjType} (real : t ≠ .last) : objTypeDepth t = .ok t := by
  cases t <;> first | rfl | exact absurd rfl real

/-- Only the sentinel has no depth. -/
theorem objTypeDepth_cases (t : HwObjType) :
    objTypeDepth t = .error (.thrown .errInternal) ∨ objTypeDepth t = .ok t := by
  by_cases sentinel : t = .last
  · exact Or.inl (by rw [sentinel]; rfl)
  · exact Or.inr (objTypeDepth_eq sentinel)

theorem mGetNobjsInCpuset_eq {t : HwObjType} (real : t ≠ .last) (cpuset : Bitmap) :
    h.mGetNobjsInCpuset t cpuset = .ok (h.inside t cpuset).length := by
  simp only [mGetNobjsInCpuset, objTypeDepth_eq real]
  change Except.ok _ = _
  rw [foldl_count_inside, Nat.zero_add]
  rfl

theorem getObjInCpusetByDepth_eq {t : HwObjType} (host : objResClass t = .host) (cpuset : Bitmap)
    (i : Nat) :
    h.getObjInCpusetByDepth cpuset t i =
      match (h.inside t cpuset)[i]? with
      | some o => .ok o
      | none => .error (.ret .errHwloc) := by
  simp only [getObjInCpusetByDepth, host, h.objInsideCpuset_eq cpuset t i host]
  rfl

/-- No OS device is found, and none is looked at without harm. -/
theorem getObjInCpusetByDepth_dev {t : HwObjType} (dev : objResClass t = .dev) (cpuset : Bitmap)
    (i : Nat) :
    h.getObjInCpusetByDepth cpuset t i =
      .error (if h.osDevices then .trap else .ret .errHwloc) := by
  simp only [getObjInCpusetByDepth, dev]
  cases h.osDevices <;> rfl

/-- A lookup fails with a code or ends the process. -/
theorem getObjInCpusetByDepth_error {t : HwObjType} {cpuset : Bitmap} {i : Nat} {fault : Fault}
    (run : h.getObjInCpusetByDepth cpuset t i = .error fault) :
    fault = .ret .errHwloc ∨ fault = .trap := by
  unfold getObjInCpusetByDepth at run
  split at run
  · split at run <;> cases run <;> simp
  · split at run <;> cases run
    exact Or.inl rfl

theorem foldlM_or_ok {t : HwObjType} (host : objResClass t = .host) (cpuset : Bitmap) :
    ∀ (extent base : Nat) (acc : Bitmap), base + extent ≤ (h.inside t cpuset).length →
      (List.range' base extent).foldlM
        (fun result i => do
          let dobj ← h.getObjInCpusetByDepth cpuset t i
          return result ∪ dobj) acc =
        (.ok ((((h.inside t cpuset).drop base).take extent).foldl (· ∪ ·) acc) : Qv Bitmap) := by
  intro extent
  induction extent with
  | zero =>
      intro base acc _
      simp [pure, Except.pure]
  | succ extent ih =>
      intro base acc fits
      have inList : base < (h.inside t cpuset).length := by omega
      have found : h.getObjInCpusetByDepth cpuset t base = .ok (h.inside t cpuset)[base] := by
        rw [getObjInCpusetByDepth_eq host, List.getElem?_eq_getElem inList]
      rw [List.range'_succ, List.foldlM_cons, found]
      change List.foldlM _ (acc ∪ (h.inside t cpuset)[base]) _ = _
      rw [ih (base + 1) _ (by omega),
        ← List.cons_getElem_drop_succ (h := inList), List.take_succ_cons, List.foldl_cons]

theorem orObjsInRange_eq {cpuset : Bitmap} {t : HwObjType} (host : objResClass t = .host)
    {base extent : Nat} (fits : base + extent ≤ (h.inside t cpuset).length) :
    h.orObjsInRange cpuset t base extent =
      .ok (opOr (((h.inside t cpuset).drop base).take extent)) :=
  foldlM_or_ok host cpuset extent base ∅ fits

theorem foldlM_or_fails {t : HwObjType} (host : objResClass t = .host) (cpuset : Bitmap) :
    ∀ (extent base : Nat) (acc : Bitmap), (h.inside t cpuset).length < base + extent →
      base ≤ (h.inside t cpuset).length →
      (List.range' base extent).foldlM
        (fun result i => do
          let dobj ← h.getObjInCpusetByDepth cpuset t i
          return result ∪ dobj) acc = (.error (.ret .errHwloc) : Qv Bitmap) := by
  intro extent
  induction extent with
  | zero =>
      intro base acc short bounded
      omega
  | succ extent ih =>
      intro base acc short bounded
      rw [List.range'_succ, List.foldlM_cons, getObjInCpusetByDepth_eq host]
      by_cases inList : base < (h.inside t cpuset).length
      · rw [List.getElem?_eq_getElem inList]
        exact ih (base + 1) _ (by omega) (by omega)
      · rw [List.getElem?_eq_none (by omega)]
        rfl

theorem orObjsInRange_short {cpuset : Bitmap} {t : HwObjType} (host : objResClass t = .host)
    {extent : Nat} (short : (h.inside t cpuset).length < extent) :
    h.orObjsInRange cpuset t 0 extent = .error (.ret .errHwloc) :=
  foldlM_or_fails host cpuset extent 0 ∅ (by omega) (by omega)

theorem mSplitCpusetByRange_eq {bitmap : Bitmap} {base extent : Nat}
    (fits : base + extent ≤ (h.inside .pu bitmap).length) :
    h.mSplitCpusetByRange bitmap base extent =
      .ok (opOr (((h.inside .pu bitmap).drop base).take extent)) :=
  orObjsInRange_eq rfl fits

/-! ## Splitting -/

/-- The pieces of a split that is not empty. -/
def pieces (h : Hwloc) (bitmap : Bitmap) (npieces : Nat) : List Bitmap :=
  (BalancedBlocks.chunks (h.inside .pu bitmap) npieces).map opOr

/-- A piece is the union of a block of the PUs. -/
theorem getElem?_pieces (bitmap : Bitmap) {npieces i : Nat} (inside : i < npieces) :
    (h.pieces bitmap npieces)[i]? = some (opOr
      (((h.inside .pu bitmap).drop (BalancedBlocks.start (h.inside .pu bitmap).length npieces i)).take
        (BalancedBlocks.size (h.inside .pu bitmap).length npieces i))) := by
  rw [pieces, List.getElem?_map, BalancedBlocks.getElem?_chunks _ inside, Option.map_some]

theorem foldlM_pieces (bitmap : Bitmap) {npieces : Nat} :
    ∀ j ≤ npieces,
      (List.range j).foldlM
        (fun (st : Nat × List Bitmap) i => do
          let (currentPos, result) := st
          let currentChunkSize := (h.inside .pu bitmap).length / npieces +
            if i < (h.inside .pu bitmap).length % npieces then 1 else 0
          let piece ← h.mSplitCpusetByRange bitmap currentPos currentChunkSize
          return (currentPos + currentChunkSize, result ++ [piece])) (0, []) =
        (.ok (BalancedBlocks.start (h.inside .pu bitmap).length npieces j,
          (h.pieces bitmap npieces).take j) : Qv (Nat × List Bitmap)) := by
  intro j
  induction j with
  | zero =>
      intro _
      simp [pure, Except.pure]
  | succ j ih =>
      intro bound
      rw [List.range_succ, List.foldlM_append, ih (by omega)]
      have offset := BalancedBlocks.start_succ (h.inside .pu bitmap).length npieces j
      have fits : BalancedBlocks.start (h.inside .pu bitmap).length npieces j +
          BalancedBlocks.size (h.inside .pu bitmap).length npieces j ≤
            (h.inside .pu bitmap).length := by
        rw [← offset]
        exact BalancedBlocks.start_succ_le bound
      have piece := h.getElem?_pieces bitmap bound
      simp only [BalancedBlocks.size] at fits offset piece
      simp only [bind, Except.bind, List.foldlM_cons, List.foldlM_nil, pure, Except.pure,
        mSplitCpusetByRange_eq fits]
      rw [List.take_add_one, piece, offset]
      rfl

/-- When a split has pieces. -/
def Splittable (h : Hwloc) (bitmap : Bitmap) (npieces : Nat) : Prop :=
  1 ≤ npieces ∧ npieces ≤ (h.inside .pu bitmap).length

instance (h : Hwloc) (bitmap : Bitmap) (npieces : Nat) : Decidable (h.Splittable bitmap npieces) :=
  inferInstanceAs (Decidable (_ ∧ _))

/-- **A split never fails**: it is the balanced cut, or it is empty. -/
theorem bitmapSplit_eq (bitmap : Bitmap) (npieces : Nat) :
    h.bitmapSplit bitmap npieces =
      .ok (if h.Splittable bitmap npieces then h.pieces bitmap npieces else []) := by
  have count := mGetNobjsInCpuset_eq (h := h) (t := .pu) (by decide) bitmap
  simp only [bitmapSplit, count, bind, Except.bind]
  by_cases full : h.Splittable bitmap npieces
  · obtain ⟨pos, enough⟩ := id full
    rw [if_neg (by omega), if_pos full]
    have loop := foldlM_pieces (h := h) bitmap npieces le_rfl
    simp only [bind, Except.bind] at loop
    rw [loop]
    have whole : (h.pieces bitmap npieces).take npieces = h.pieces bitmap npieces :=
      List.take_of_length_le (by simp [pieces])
    rw [whole]
    rfl
  · have empty : npieces = 0 ∨ (h.inside .pu bitmap).length = 0 ∨
        npieces > (h.inside .pu bitmap).length := by
      unfold Splittable at full
      omega
    rw [if_pos empty, if_neg full]
    rfl

theorem length_pieces (bitmap : Bitmap) (npieces : Nat) :
    (h.pieces bitmap npieces).length = npieces := by
  simp [pieces]

/-- The union of the pieces is the union of the PUs inside the bitmap. -/
theorem opOr_pieces (bitmap : Bitmap) {npieces : Nat} (pos : 0 < npieces) :
    opOr (h.pieces bitmap npieces) = opOr (h.inside .pu bitmap) := by
  ext x
  conv_rhs => rw [← BalancedBlocks.flatten_chunks (h.inside .pu bitmap) pos]
  simp only [mem_opOr, pieces, List.mem_map, List.mem_flatten]
  constructor
  · rintro ⟨b, ⟨c, memC, rfl⟩, memX⟩
    obtain ⟨o, memO, memX⟩ := mem_opOr.1 memX
    exact ⟨o, ⟨c, memC, memO⟩, memX⟩
  · rintro ⟨o, ⟨c, memC, memO⟩, memX⟩
    exact ⟨opOr c, ⟨c, memC, rfl⟩, mem_opOr.2 ⟨o, memO, memX⟩⟩

theorem opOr_inside_subset (t : HwObjType) (cpuset : Bitmap) : opOr (h.inside t cpuset) ⊆ cpuset := by
  intro x memX
  obtain ⟨o, memO, memX⟩ := mem_opOr.1 memX
  exact (mem_inside.1 memO).2.2 memX

theorem piece_subset {bitmap piece : Bitmap} {npieces : Nat}
    (member : piece ∈ h.pieces bitmap npieces) : piece ⊆ bitmap := by
  intro x memX
  have pos : 0 < npieces := by
    by_contra zero
    have : npieces = 0 := by omega
    subst this
    simp [pieces, BalancedBlocks.chunks] at member
  apply opOr_inside_subset (h := h) .pu bitmap
  rw [← opOr_pieces bitmap pos]
  exact mem_opOr.2 ⟨piece, member, memX⟩

theorem piece_nonempty {bitmap piece : Bitmap} {npieces : Nat}
    (full : h.Splittable bitmap npieces) (member : piece ∈ h.pieces bitmap npieces) :
    piece.Nonempty := by
  simp only [pieces, List.mem_map] at member
  obtain ⟨c, memC, rfl⟩ := member
  obtain ⟨i, found⟩ := List.mem_iff_getElem?.1 memC
  have long := BalancedBlocks.length_chunk found
  have pos := BalancedBlocks.size_pos (by have := full.1; omega) full.2 i
  obtain ⟨o, memO⟩ := List.exists_mem_of_length_pos (by omega : 0 < c.length)
  have flat : o ∈ h.inside .pu bitmap := by
    rw [← BalancedBlocks.flatten_chunks (h.inside .pu bitmap)
      (by have := full.1; omega : 0 < npieces)]
    exact List.mem_flatten.2 ⟨c, memC, memO⟩
  obtain ⟨x, memX⟩ := Finset.nonempty_iff_ne_empty.2 (mem_inside.1 flat).2.1
  exact ⟨x, mem_opOr.2 ⟨o, memO, memX⟩⟩

/-- PU objects have pairwise disjoint cpusets. -/
def PusDisjoint (h : Hwloc) : Prop :=
  (h.objs .pu).Pairwise Disjoint

theorem pieces_disjoint (apart : h.PusDisjoint) (bitmap : Bitmap) {npieces : Nat}
    (pos : 0 < npieces) : (h.pieces bitmap npieces).Pairwise Disjoint := by
  have inner : (BalancedBlocks.chunks (h.inside .pu bitmap) npieces).flatten.Pairwise Disjoint := by
    rw [BalancedBlocks.flatten_chunks _ pos]
    exact List.Pairwise.filter _ apart
  rw [List.pairwise_flatten] at inner
  rw [pieces, List.pairwise_map]
  refine inner.2.imp fun {a b} across => ?_
  rw [Finset.disjoint_left]
  intro x inA inB
  obtain ⟨o, memO, inO⟩ := mem_opOr.1 inA
  obtain ⟨o', memO', inO'⟩ := mem_opOr.1 inB
  exact Finset.disjoint_left.1 (across o memO o' memO') inO inO'

/-- PU objects have one bit, or none when they are outside of the cgroup. -/
def PusSingle (h : Hwloc) : Prop :=
  ∀ o ∈ h.objs .pu, o.card ≤ 1

/-- A piece is a run of consecutive PUs, as long as its place in the cut says. -/
theorem pieces_consecutive (apart : h.PusDisjoint) (single : h.PusSingle) (bitmap : Bitmap)
    {npieces i : Nat} (inside : i < npieces) :
    ∃ first, (h.pieces bitmap npieces)[i]? = some (opOr (((h.inside .pu bitmap).drop first).take
        (BalancedBlocks.size (h.inside .pu bitmap).length npieces i))) ∧
      (opOr (((h.inside .pu bitmap).drop first).take
        (BalancedBlocks.size (h.inside .pu bitmap).length npieces i))).card =
          BalancedBlocks.size (h.inside .pu bitmap).length npieces i := by
  have long := BalancedBlocks.length_chunk
    (BalancedBlocks.getElem?_chunks (h.inside .pu bitmap) inside)
  refine ⟨BalancedBlocks.start (h.inside .pu bitmap).length npieces i,
    h.getElem?_pieces bitmap inside, ?_⟩
  · have sub := (List.take_sublist (BalancedBlocks.size (h.inside .pu bitmap).length npieces i)
      ((h.inside .pu bitmap).drop (BalancedBlocks.start (h.inside .pu bitmap).length npieces i))).trans
        (List.drop_sublist _ _)
    rw [card_opOr (List.Pairwise.sublist sub (List.Pairwise.filter _ apart)), long]
    intro o member
    obtain ⟨inObjs, nonempty, -⟩ := mem_inside.1 (sub.subset member)
    have := single o inObjs
    have := Finset.card_pos.2 (Finset.nonempty_iff_ne_empty.2 nonempty)
    omega

/-- **A split is a balanced partition** of the PUs inside the bitmap into as many runs of
consecutive PUs as asked for, the larger ones first; it is empty when there are too few. -/
theorem bitmapSplit_partitions (h : Hwloc) (apart : h.PusDisjoint) (single : h.PusSingle)
    (bitmap : Bitmap) (npieces : Nat) :
    (1 ≤ npieces → npieces ≤ (h.inside .pu bitmap).length →
      ∃ result, h.bitmapSplit bitmap npieces = .ok result ∧ result.length = npieces ∧
        result.Pairwise Disjoint ∧ (∀ piece ∈ result, piece.Nonempty) ∧
        opOr result = opOr (h.inside .pu bitmap) ∧
        ∀ i < npieces, ∃ piece first, result[i]? = some piece ∧
          piece = opOr (((h.inside .pu bitmap).drop first).take piece.card) ∧
          piece.card = (h.inside .pu bitmap).length / npieces +
            if i < (h.inside .pu bitmap).length % npieces then 1 else 0) ∧
      (npieces = 0 ∨ (h.inside .pu bitmap).length = 0 ∨ (h.inside .pu bitmap).length < npieces →
        h.bitmapSplit bitmap npieces = .ok []) := by
  constructor
  · intro pos enough
    have full : h.Splittable bitmap npieces := ⟨pos, enough⟩
    refine ⟨h.pieces bitmap npieces, by rw [bitmapSplit_eq, if_pos full], length_pieces _ _,
      pieces_disjoint apart bitmap pos, fun piece => piece_nonempty full, opOr_pieces bitmap pos, ?_⟩
    intro i inside
    obtain ⟨first, found, card⟩ := pieces_consecutive apart single bitmap inside
    exact ⟨_, first, found, by rw [card], card⟩
  · intro short
    have empty : ¬ h.Splittable bitmap npieces := by
      rintro ⟨pos, enough⟩
      omega
    rw [bitmapSplit_eq, if_neg empty]

/-- **Equal pieces of two cuts of a cpuset** begin and end at the same PUs. -/
theorem pieces_eq_iff (apart : h.PusDisjoint) {bitmap : Bitmap} {m m' i j : Nat}
    (able : h.Splittable bitmap m) (able' : h.Splittable bitmap m') (inside : i < m)
    (inside' : j < m') :
    (h.pieces bitmap m)[i]? = (h.pieces bitmap m')[j]? ↔
      BalancedBlocks.start (h.inside .pu bitmap).length m i =
        BalancedBlocks.start (h.inside .pu bitmap).length m' j ∧
      BalancedBlocks.start (h.inside .pu bitmap).length m (i + 1) =
        BalancedBlocks.start (h.inside .pu bitmap).length m' (j + 1) := by
  rw [h.getElem?_pieces bitmap inside, h.getElem?_pieces bitmap inside', Option.some.injEq,
    BalancedBlocks.start_succ, BalancedBlocks.start_succ]
  constructor
  · intro same
    have fits : ∀ {m i : Nat}, i < m → BalancedBlocks.start (h.inside .pu bitmap).length m i +
        BalancedBlocks.size (h.inside .pu bitmap).length m i ≤ (h.inside .pu bitmap).length := by
      intro m i inside
      rw [← BalancedBlocks.start_succ]
      exact BalancedBlocks.start_succ_le inside
    exact opOr_segment_inj (List.Pairwise.filter _ apart)
      (fun o member => (mem_inside.1 member).2.1) (BalancedBlocks.size_pos able.1 able.2 i)
      (BalancedBlocks.size_pos able'.1 able'.2 j) (fits inside) (fits inside') same
  · rintro ⟨starts, ends⟩
    have sizes : BalancedBlocks.size (h.inside .pu bitmap).length m i =
        BalancedBlocks.size (h.inside .pu bitmap).length m' j := by omega
    rw [starts, sizes]

/-! ## Selecting the first objects -/

theorem getCpusetForNobjs_ok_iff {cpuset result : Bitmap} {t : HwObjType}
    (host : objResClass t = .host) {nobjs : Nat} :
    h.getCpusetForNobjs cpuset t nobjs = .ok result ↔
      nobjs ≤ (h.inside t cpuset).length ∧ result = opOr ((h.inside t cpuset).take nobjs) := by
  have real : t ≠ .last := by rintro rfl; cases host
  simp only [getCpusetForNobjs, objTypeDepth_eq real, bind, Except.bind]
  by_cases fits : nobjs ≤ (h.inside t cpuset).length
  · rw [orObjsInRange_eq host (by omega)]
    simp [fits, eq_comm]
  · rw [orObjsInRange_short host (by omega)]
    simp [fits]

/-- **Devices cannot be selected by number**: asking for one ends the process, or fails
where there is no OS device at all. -/
theorem getCpusetForNobjs_dev {t : HwObjType} (dev : objResClass t = .dev) (cpuset : Bitmap)
    (nobjs : Nat) :
    h.getCpusetForNobjs cpuset t nobjs =
      if nobjs = 0 then .ok ∅
      else .error (if h.osDevices then .trap else .ret .errHwloc) := by
  have real : t ≠ .last := by rintro rfl; cases dev
  simp only [getCpusetForNobjs, objTypeDepth_eq real, bind, Except.bind]
  cases nobjs with
  | zero => rfl
  | succ n =>
      rw [if_neg (Nat.succ_ne_zero n), orObjsInRange, List.range'_succ, List.foldlM_cons,
        getObjInCpusetByDepth_dev dev]
      rfl

/-- A selection is the union of the first objects. -/
theorem getCpusetForNobjs_ok {cpuset result : Bitmap} {t : HwObjType} {nobjs : Nat}
    (selected : h.getCpusetForNobjs cpuset t nobjs = .ok result) :
    result = opOr ((h.inside t cpuset).take nobjs) := by
  cases class_ : objResClass t with
  | host => exact ((getCpusetForNobjs_ok_iff class_).1 selected).2
  | dev =>
      rw [getCpusetForNobjs_dev class_] at selected
      split at selected
      · rename_i none_
        cases selected
        rw [none_]
        rfl
      · cases selected
  | last =>
      have sentinel : t = .last := by cases t <;> first | rfl | cases class_
      subst sentinel
      cases selected

theorem getCpusetForNobjs_subset {cpuset result : Bitmap} {t : HwObjType} {nobjs : Nat}
    (selected : h.getCpusetForNobjs cpuset t nobjs = .ok result) : result ⊆ cpuset := by
  rw [getCpusetForNobjs_ok selected]
  intro x memX
  obtain ⟨o, memO, memX⟩ := mem_opOr.1 memX
  exact (mem_inside.1 (List.mem_of_mem_take memO)).2.2 memX

/-- The count of a host type. -/
theorem getNobjsInCpuset_host {t : HwObjType} (host : objResClass t = .host) (cpuset : Bitmap) :
    h.getNobjsInCpuset t cpuset = .ok (h.inside t cpuset).length := by
  rw [← mGetNobjsInCpuset_eq (by rintro rfl; cases host)]
  cases t <;> first | rfl | cases host

/-- The count of a device type. -/
theorem getNobjsInCpuset_dev {t : HwObjType} (dev : objResClass t = .dev) (cpuset : Bitmap) :
    h.getNobjsInCpuset t cpuset = .ok (h.getDevicesIncludedInCpuset t cpuset).length := by
  have run : ∀ (devs : List HwlocDevice) (n : Nat),
      devs.foldl (fun nobjs dev => if dev.affinity ⊆ cpuset then nobjs + 1 else nobjs) n =
        n + (devs.filter fun dev => dev.affinity ⊆ cpuset).length := by
    intro devs
    induction devs with
    | nil => simp
    | cons d rest ih =>
        intro n
        rw [List.foldl_cons, ih]
        by_cases included : d.affinity ⊆ cpuset
        · rw [if_pos included, List.filter_cons_of_pos (by simpa using included), List.length_cons]
          omega
        · rw [if_neg included, List.filter_cons_of_neg (by simpa using included)]
  have scan := congrArg (Except.ok (ε := Fault)) (run (h.devmap t) 0)
  rw [Nat.zero_add] at scan
  cases t <;> first | exact scan | cases dev

/-- The objects a selection is made of are inside it. -/
theorem le_length_inside_take (t : HwObjType) (cpuset : Bitmap) (nobjs : Nat) :
    ((h.inside t cpuset).take nobjs).length ≤
      (h.inside t (opOr ((h.inside t cpuset).take nobjs))).length := by
  have kept : ((h.inside t cpuset).take nobjs).filter
      (fun o => o ≠ ∅ ∧ o ⊆ opOr ((h.inside t cpuset).take nobjs)) =
        (h.inside t cpuset).take nobjs := by
    rw [List.filter_eq_self]
    intro o member
    have nonempty := (mem_inside.1 (List.mem_of_mem_take member)).2.1
    have within : o ⊆ opOr ((h.inside t cpuset).take nobjs) :=
      fun x memX => mem_opOr.2 ⟨o, member, memX⟩
    simpa using ⟨nonempty, within⟩
  have sub : ((h.inside t cpuset).take nobjs).Sublist (h.objs t) :=
    (List.take_sublist _ _).trans List.filter_sublist
  calc ((h.inside t cpuset).take nobjs).length
      = (((h.inside t cpuset).take nobjs).filter
          (fun o => o ≠ ∅ ∧ o ⊆ opOr ((h.inside t cpuset).take nobjs))).length := by rw [kept]
    _ ≤ _ := (sub.filter _).length_le

/-- **Counting and selecting agree**, for every host type: as many objects can be selected
as are counted, and the selection of the first ones is inside the cpuset, holds as many
objects by the same count, and grows with their number. -/
theorem getCpusetForNobjs_counted (h : Hwloc) (cpuset : Bitmap) (t : HwObjType)
    (host : objResClass t = .host) (nobjs : Nat) :
    ∃ count, h.getNobjsInCpuset t cpuset = .ok count ∧
      ((∃ result, h.getCpusetForNobjs cpuset t nobjs = .ok result) ↔ nobjs ≤ count) ∧
      ∀ result, h.getCpusetForNobjs cpuset t nobjs = .ok result →
        result = opOr (((h.objs t).filter fun o => o ≠ ∅ ∧ o ⊆ cpuset).take nobjs) ∧
        result ⊆ cpuset ∧
        (∃ within, h.getNobjsInCpuset t result = .ok within ∧ nobjs ≤ within) ∧
        ∀ more larger, nobjs ≤ more → h.getCpusetForNobjs cpuset t more = .ok larger →
          result ⊆ larger := by
  refine ⟨_, getNobjsInCpuset_host host cpuset, ?_, ?_⟩
  · constructor
    · rintro ⟨result, run⟩
      exact ((getCpusetForNobjs_ok_iff host).1 run).1
    · intro fits
      exact ⟨_, (getCpusetForNobjs_ok_iff host).2 ⟨fits, rfl⟩⟩
  · intro result run
    have contained := getCpusetForNobjs_subset run
    obtain ⟨fits, rfl⟩ := (getCpusetForNobjs_ok_iff host).1 run
    refine ⟨rfl, contained, ⟨_, getNobjsInCpuset_host host _, ?_⟩, ?_⟩
    · have kept := le_length_inside_take (h := h) t cpuset nobjs
      rwa [List.length_take, min_eq_left fits] at kept
    · intro more larger le run'
      rw [getCpusetForNobjs_ok run']
      exact opOr_mono (List.take_subset_take_left _ le)

/-! ## A small machine -/

/-- GPUs of the given bus IDs, numbered in order, all near the same cpuset. -/
def gpusNear (affinity : Bitmap) (busIds : List String) : List HwlocDevice :=
  busIds.mapIdx fun i busId =>
    { type := .gpu, affinity := affinity, id := i, pciBusId := busId, uuid := busId }

/-- One package of `npus` PUs, all of them allowed, and GPUs attached to the package. -/
def onePackage (npus : Nat) (gpus : List String) : Hwloc where
  objs
    | .pu | .core => (List.range npus).map fun i => {i}
    | .package | .machine => [Finset.range npus]
    | _ => []
  objInsideCpuset set t i :=
    ((match t with
      | .pu | .core => (List.range npus).map fun i => ({i} : Bitmap)
      | .package | .machine => [Finset.range npus]
      | _ => []).filter fun o => o ≠ ∅ ∧ o ⊆ set)[i]?
  objInsideCpuset_eq := fun _ _ _ _ => rfl
  osDevices := !gpus.isEmpty
  allowedCpuset := Finset.range npus
  devmap
    | .gpu => gpusNear (Finset.range npus) gpus
    | _ => []
  devmap_type := by
    intro t d member
    cases t <;> simp only [List.not_mem_nil] at member
    simp only [gpusNear, List.mem_mapIdx] at member
    obtain ⟨i, inside, rfl⟩ := member
    rfl

theorem onePackage_pusDisjoint (npus : Nat) (gpus : List String) :
    (onePackage npus gpus).PusDisjoint := by
  change ((List.range npus).map fun i => ({i} : Bitmap)).Pairwise Disjoint
  rw [List.pairwise_map]
  refine List.nodup_range.imp fun {a b} apart => ?_
  simpa using apart

theorem onePackage_pusSingle (npus : Nat) (gpus : List String) : (onePackage npus gpus).PusSingle := by
  intro o member
  obtain ⟨i, -, rfl⟩ := List.mem_map.1 (show o ∈ (List.range npus).map fun i => ({i} : Bitmap) from member)
  simp

/-- Three PUs in two pieces: two and one. -/
theorem bitmapSplit_partitions_threePus :
    ∃ result, (onePackage 3 []).bitmapSplit {0, 1, 2} 2 = .ok result ∧ result.length = 2 ∧
      opOr result = {0, 1, 2} ∧ ∃ piece, result[0]? = some piece ∧ piece.card = 2 := by
  obtain ⟨result, run, length, -, -, union, sizes⟩ := (bitmapSplit_partitions (onePackage 3 [])
    (onePackage_pusDisjoint 3 []) (onePackage_pusSingle 3 []) {0, 1, 2} 2).1 (by decide) (by decide)
  obtain ⟨piece, first, found, -, card⟩ := sizes 0 (by decide)
  exact ⟨result, run, length, union.trans (by decide), piece, found, card.trans (by decide)⟩

/-- Two cores of three: they are counted again in what was selected. -/
theorem getCpusetForNobjs_counted_twoCores :
    (onePackage 3 []).getCpusetForNobjs {0, 1, 2} .core 2 = .ok {0, 1} ∧
      ∃ within, (onePackage 3 []).getNobjsInCpuset .core {0, 1} = .ok within ∧ 2 ≤ within := by
  have run : (onePackage 3 []).getCpusetForNobjs {0, 1, 2} .core 2 = .ok {0, 1} := by decide
  obtain ⟨count, -, -, selected⟩ :=
    getCpusetForNobjs_counted (onePackage 3 []) {0, 1, 2} .core rfl 2
  exact ⟨run, (selected {0, 1} run).2.2.1⟩

end Hwloc

end QuoVadis.Kernel
