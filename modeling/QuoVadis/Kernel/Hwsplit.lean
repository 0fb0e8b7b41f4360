/-
# Kernel.Hwsplit -- the split the root computes

`m_split` has three stages.  The primary cpuset is cut into pieces; the tasks are
mapped to pieces by colour or by an automatic policy; the devices of the base
pool are mapped to the tasks' new pools by affinity.  The group size is the
length of the colour vector (`prepared`), as both callers have it.

The host stage can end in every way a call can end, and which one depends only
on the colours and on whether the cut has pieces:

* `hostMap_user`, `hostMap_close`, `hostMap_packed`, `hostMap_spread`,
  `hostMap_invalid`, `hostMap_mixed`: one lemma per kind of colour vector;
* `assignTasks_eq`: a map that assigns every task a piece gives every task the
  colour and the cpuset of its piece;
* `assignDevices_spec`: the device stage does not fail, leaves the cpusets alone,
  and hands every device to exactly one pool.
-/
import QuoVadis.Kernel.Hwpool
import QuoVadis.Kernel.StableMarriage
import QuoVadis.Kernel.Task

namespace QuoVadis.Kernel

open QuoVadis.Theory
open Std (ExtTreeMap ExtTreeSet)

set_option autoImplicit false

/-- `qvi_hwsplit`, with the members `m_split` reads and writes. -/
structure Hwsplit where
  hwloc : Hwloc
  groupSize : Nat
  splitSize : Nat
  splitAtType : HwObjType
  baseHwpool : Hwpool
  hwpools : List Hwpool
  colors : List Int
  splitCpusets : List Bitmap
  taskAffinities : List Bitmap

/-- `std::vector::resize`. -/
def vectorResize {α : Type} (l : List α) (n : Nat) (x : α) : List α :=
  l.take n ++ List.replicate (n - l.length) x

/-- Calls the mapping function of a configuration. -/
def MapConfig.apply (config : MapConfig) (map : QviMap) : Qv QviMap :=
  match config.mapFn with
  | .colors => qviMapColors config map
  | .packed => qviMapPacked config map
  | .spread => qviMapSpread config map
  | .close => qviMapClose config map

namespace Hwsplit

/-- What the constructor does with the task of the parent's group: `m_my_cpu_affinity`
is the top of its bind stack, and without one the constructor throws. -/
def construct (task : Task) : Qv Bitmap :=
  match task.bindTop with
  | .ok affinity => .ok affinity
  | .error (.ret rc) => .error (.thrown rc)
  | .error fault => .error fault

theorem construct_ok_iff {task : Task} {affinity : Bitmap} :
    construct task = .ok affinity ↔ task.stack.head? = some affinity := by
  obtain ⟨_ | ⟨top, rest⟩⟩ := task <;> simp [construct, Task.bindTop]

/-- Nothing on the stack is an exception. -/
theorem construct_empty {task : Task} (empty : task.stack = []) :
    construct task = .error (.thrown .err) := by
  simp [construct, Task.bindTop, empty]

/-- The object as `split` (after the gathers) and `thread_split` (after
`m_reserve`) hand it to `m_split`; the task affinities are what `construct` gave. -/
def prepared (hwloc : Hwloc) (npieces : Nat) (splitAtType : HwObjType) (base : Hwpool)
    (colors : List Int) (taskAffinities : List Bitmap) : Hwsplit where
  hwloc := hwloc
  groupSize := colors.length
  splitSize := npieces
  splitAtType := splitAtType
  baseHwpool := base
  hwpools := List.replicate colors.length default
  colors := colors
  splitCpusets := []
  taskAffinities := taskAffinities

variable (hs : Hwsplit)

/-- `m_primary_cpuset_for_split`. -/
def mPrimaryCpusetForSplit (requestedType : HwObjType) : HwObjType × Bitmap :=
  match objResClass requestedType with
  | .last => (.pu, hs.baseHwpool.cpuset)
  | .host => (requestedType, hs.baseHwpool.cpuset)
  -- the union over the devices' affinities
  | .dev => (requestedType,
      (hs.baseHwpool.devices requestedType).foldl (fun result dev => result ∪ dev.affinity) ∅)

/-- The number of pieces `m_split_cpuset` asks for. -/
def realSplitSize : Nat := min hs.splitSize hs.groupSize

/-- The cpuset `m_split_cpuset` cuts. -/
def priCpuset : Bitmap := (hs.mPrimaryCpusetForSplit hs.splitAtType).2

/-- `m_split_cpuset`. -/
def mSplitCpuset : Qv (List Bitmap) :=
  hs.hwloc.bitmapSplit hs.priCpuset hs.realSplitSize

/-- `m_determine_mapping`: the colours after it, and the map configuration. -/
def mDetermineMapping : Qv (List Int × MapConfig) :=
  match stdSort (fun a b => decide (a < b)) hs.colors with
  -- `front` of an empty vector
  | [] => .error .trap
  | front :: tcolors =>
      let back := (front :: tcolors).getLast (List.cons_ne_nil _ _)
      if 0 ≤ front then
        let m := hs.splitCpusets.length
        let allInRange := hs.colors.all fun val => 0 ≤ val ∧ val < (m : Int)
        let colors := if !allInRange then qviMapClampColors hs.colors else hs.colors
        if (colorSet colors).size > m then .error (.ret .errSplit)
        else .ok (colors, { srcColors := colors, mapFn := .colors })
      else if back < 0 then
        if front ≠ back then .error (.ret .errInvldArg)
        -- the colours are all equal, and `m_colors[0]` is one of them
        else if front = splitClose then
          .ok (hs.colors, { srcAffinities := hs.taskAffinities, dstAffinities := hs.splitCpusets,
                            mapFn := .close })
        else if front = splitPacked then
          .ok (hs.colors, { nsrc := hs.groupSize, ndst := hs.splitCpusets.length, mapFn := .packed })
        else if front = splitSpread then
          .ok (hs.colors, { nsrc := hs.groupSize, ndst := hs.splitCpusets.length, mapFn := .spread })
        else .error (.ret .errInvldArg)
      -- positive and negative colours: mapped by colour like the user's
      else .ok (hs.colors, { srcColors := hs.colors, mapFn := .colors })

/-- One entry of the task map: the pools and colours are accessed with `at`. -/
def assignTask (cpusets : List Bitmap) (st : List Hwpool × List Int)
    (entry : Nat × ExtTreeSet Nat) : Qv (List Hwpool × List Int) :=
  entry.2.toList.foldlM
    (fun (st : List Hwpool × List Int) (cpuseti : Nat) =>
      match cpusets[cpuseti]? with
      | none => .error (.thrown .err)
      | some cpuset =>
          if entry.1 < st.1.length ∧ entry.1 < st.2.length then
            .ok (st.1.set entry.1 (.ofCpuset cpuset), st.2.set entry.1 (cpuseti : Int))
          else .error (.thrown .err)) st

/-- One device type of the device stage. -/
def assignDevices (base : Hwpool) (hwpoolAffinities : List Bitmap) (hwpools : List Hwpool)
    (devt : HwObjType) : Qv (List Hwpool) := do
  let devs := base.devices devt
  if devs = [] then
    return hwpools
  let devAffinities ← base.deviceAffinities devt
  let devs2hres ← qviMapClose
    { srcAffinities := devAffinities, dstAffinities := hwpoolAffinities, mapFn := .close } ∅
  let devs2hres :=
    if hwpoolAffinities.length > devAffinities.length then qviMapUniq devs2hres else devs2hres
  devs2hres.toList.foldlM
    (fun (hwpools : List Hwpool) (entry : Nat × ExtTreeSet Nat) => entry.2.toList.foldlM
      (fun (hwpools : List Hwpool) (pooli : Nat) =>
        match devs[entry.1]?, hwpools[pooli]? with
        | some dev, some pool => .ok (hwpools.set pooli (pool.addDevice dev))
        | _, _ => .error .trap) hwpools) hwpools

/-- The host stage up to the map: the colours and the task map. -/
def hostMap : Qv (List Int × QviMap) := do
  let (colors, config) ← hs.mDetermineMapping
  let map ← config.apply ∅
  return (colors, map)

/-- `m_split`. -/
def mSplit : Qv Hwsplit := do
  let splitCpusets ← hs.mSplitCpuset
  let hs := { hs with splitCpusets := splitCpusets }
  let (colors, hresMap) ← hs.hostMap
  let (hwpools, colors) ← hresMap.toList.foldlM (assignTask splitCpusets)
    (hs.hwpools, vectorResize colors hresMap.size 0)
  let hwpoolAffinities := hwpools.map Hwpool.cpuset
  let hwpools ← supportedDevices.foldlM (assignDevices hs.baseHwpool hwpoolAffinities) hwpools
  return { hs with hwpools := hwpools, colors := colors }

/-! ## The cut -/

variable {hs}

/-- The pieces there are. -/
def pieces (hs : Hwsplit) : List Bitmap :=
  if hs.hwloc.Splittable hs.priCpuset hs.realSplitSize
  then hs.hwloc.pieces hs.priCpuset hs.realSplitSize else []

theorem mSplitCpuset_eq : hs.mSplitCpuset = .ok hs.pieces :=
  Hwloc.bitmapSplit_eq _ _

/-- There is a piece exactly when the cut is possible. -/
theorem pieces_eq_nil_iff :
    hs.pieces = [] ↔ ¬ hs.hwloc.Splittable hs.priCpuset hs.realSplitSize := by
  unfold pieces
  split
  · rename_i full
    rw [← List.length_eq_zero_iff, Hwloc.length_pieces]
    have := full.1
    simp only [full, not_true, iff_false]
    omega
  · rename_i empty
    simp [empty]

/-- There are never more pieces than tasks. -/
theorem length_pieces_le : hs.pieces.length ≤ hs.groupSize := by
  unfold pieces
  split
  · rw [Hwloc.length_pieces]
    exact Nat.min_le_right _ _
  · simp

/-! ## The host map, one lemma per kind of colour vector -/

section HostMap

/-- The sorted colours have the least colour in front and the greatest at the back. -/
theorem sortedColors {colors : List Int} (some_ : colors ≠ []) :
    ∃ front tcolors, stdSort (fun a b => decide (a < b)) colors = front :: tcolors ∧
      front ∈ colors ∧ (∀ c ∈ colors, front ≤ c) ∧
      (front :: tcolors).getLast (List.cons_ne_nil _ _) ∈ colors ∧
      ∀ c ∈ colors, c ≤ (front :: tcolors).getLast (List.cons_ne_nil _ _) := by
  let le : Int → Int → Prop := fun a b => decide (b < a) = false
  have total : Std.Total le := ⟨fun a b => by simp only [le, decide_eq_false_iff_not]; omega⟩
  have trans : IsTrans Int le := ⟨fun a b c => by simp only [le, decide_eq_false_iff_not]; omega⟩
  have sorted : (stdSort (fun a b => decide (a < b)) colors).Pairwise (· ≤ ·) :=
    (List.pairwise_insertionSort le colors).imp fun {a b} h => by
      simp only [le, decide_eq_false_iff_not] at h
      omega
  have mem : ∀ c, c ∈ stdSort (fun a b => decide (a < b)) colors ↔ c ∈ colors := fun c => mem_stdSort
  cases shape : stdSort (fun a b => decide (a < b)) colors with
  | nil =>
      obtain ⟨c, member⟩ := List.exists_mem_of_ne_nil colors some_
      have := (mem c).2 member
      rw [shape] at this
      simp at this
  | cons front tcolors =>
      rw [shape] at sorted mem
      refine ⟨front, tcolors, rfl, (mem front).1 List.mem_cons_self, ?_,
        (mem _).1 (List.getLast_mem _), ?_⟩
      · intro c member
        rcases List.mem_cons.1 ((mem c).2 member) with rfl | later
        · exact le_refl _
        · exact (List.pairwise_cons.1 sorted).1 c later
      · intro c member
        have inList := (mem c).2 member
        rw [← List.dropLast_append_getLast (List.cons_ne_nil front tcolors)] at sorted inList
        rcases List.mem_append.1 inList with early | last
        · exact (List.pairwise_append.1 sorted).2.2 c early _ (List.mem_singleton_self _)
        · exact le_of_eq (List.mem_singleton.1 last)

variable (hs)

/-- The colours a user's split is made by: as given, or clamped. -/
def userColors : List Int :=
  if hs.colors.all fun val => 0 ≤ val ∧ val < (hs.splitCpusets.length : Int) then hs.colors
  else qviMapClampColors hs.colors

theorem length_userColors : hs.userColors.length = hs.colors.length := by
  unfold userColors
  split
  · rfl
  · exact length_clampColors _

/-- Using the colours as they are or clamped makes no difference to their number. -/
theorem size_userColors : (colorSet hs.userColors).size = (colorSet hs.colors).size := by
  unfold userColors
  split
  · rfl
  · exact distinct_clampColors _

theorem userColors_bounds (few : (colorSet hs.colors).size ≤ hs.splitCpusets.length) {c : Int}
    (member : c ∈ hs.userColors) : 0 ≤ c ∧ c < (hs.splitCpusets.length : Int) := by
  unfold userColors at member
  split at member
  · rename_i inRange
    simpa using List.all_eq_true.1 inRange c member
  · have := clampColors_lt member
    omega

theorem mDetermineMapping_user (some_ : hs.colors ≠ []) (nonneg : ∀ c ∈ hs.colors, 0 ≤ c) :
    hs.mDetermineMapping =
      if (colorSet hs.colors).size > hs.splitCpusets.length then .error (.ret .errSplit)
      else .ok (hs.userColors, { srcColors := hs.userColors, mapFn := .colors }) := by
  obtain ⟨front, tcolors, shape, inColors, -, -, -⟩ := sortedColors some_
  have first := nonneg front inColors
  have colorsEq : (if (!hs.colors.all fun val => decide (0 ≤ val ∧ val < (hs.splitCpusets.length : Int)))
      = true then qviMapClampColors hs.colors else hs.colors) = hs.userColors := by
    unfold userColors
    cases hs.colors.all fun val => decide (0 ≤ val ∧ val < (hs.splitCpusets.length : Int)) <;> simp
  unfold mDetermineMapping
  rw [shape]
  simp only [first, if_true, colorsEq, size_userColors]

/-- **Colours given by the user.** -/
theorem hostMap_user (some_ : hs.colors ≠ []) (nonneg : ∀ c ∈ hs.colors, 0 ≤ c)
    (few : (colorSet hs.colors).size ≤ hs.splitCpusets.length) :
    ∃ map, hs.hostMap = .ok (hs.userColors, map) ∧
      map.Assigns hs.colors.length (fun i => (hs.userColors[i]?.getD 0).toNat) ∧
      ∀ i < hs.colors.length, (hs.userColors[i]?.getD 0).toNat < hs.splitCpusets.length := by
  have bounds := fun c => userColors_bounds hs few (c := c)
  obtain ⟨map, run, assigns⟩ :=
    qviMapColors_assigns { srcColors := hs.userColors, mapFn := .colors }
      fun c member => (bounds c member).1
  refine ⟨map, ?_, by simpa [length_userColors] using assigns, ?_⟩
  · simp only [hostMap, mDetermineMapping_user hs some_ nonneg, gt_iff_lt, not_lt.2 few, if_false]
    simp only [bind, Except.bind, MapConfig.apply, run]
    rfl
  · intro i below
    have inList : i < hs.userColors.length := by rw [length_userColors]; exact below
    rw [List.getElem?_eq_getElem inList, Option.getD_some]
    have := bounds _ (List.getElem_mem inList)
    omega

theorem hostMap_tooMany (some_ : hs.colors ≠ []) (nonneg : ∀ c ∈ hs.colors, 0 ≤ c)
    (many : (colorSet hs.colors).size > hs.splitCpusets.length) :
    hs.hostMap = .error (.ret .errSplit) := by
  simp only [hostMap, mDetermineMapping_user hs some_ nonneg, many, if_true]
  rfl

theorem mDetermineMapping_negative (some_ : hs.colors ≠ []) (negative : ∀ c ∈ hs.colors, c < 0) :
    hs.mDetermineMapping =
      if ∀ c ∈ hs.colors, c = splitClose then
        .ok (hs.colors, { srcAffinities := hs.taskAffinities, dstAffinities := hs.splitCpusets,
                          mapFn := .close })
      else if ∀ c ∈ hs.colors, c = splitPacked then
        .ok (hs.colors, { nsrc := hs.groupSize, ndst := hs.splitCpusets.length, mapFn := .packed })
      else if ∀ c ∈ hs.colors, c = splitSpread then
        .ok (hs.colors, { nsrc := hs.groupSize, ndst := hs.splitCpusets.length, mapFn := .spread })
      else .error (.ret .errInvldArg) := by
  obtain ⟨front, tcolors, shape, inColors, least, backIn, greatest⟩ := sortedColors some_
  have first := negative front inColors
  have last := negative _ backIn
  unfold mDetermineMapping
  rw [shape]
  simp only [not_le.2 first, if_false, last, if_true]
  by_cases same : front = (front :: tcolors).getLast (List.cons_ne_nil _ _)
  · -- one value: the policy tests of the source are tests of all colours
    have all : ∀ p : Int, (∀ c ∈ hs.colors, c = p) ↔ front = p := by
      intro p
      constructor
      · exact fun every => every front inColors
      · rintro rfl c member
        have := greatest c member
        rw [← same] at this
        exact le_antisymm this (least c member)
    simp only [all]
    rw [if_neg (by simpa using same)]
  · have none_ : ∀ p : Int, ¬ ∀ c ∈ hs.colors, c = p := by
      intro p every
      exact same ((every front inColors).trans (every _ backIn).symm)
    simp only [none_, if_false]
    rw [if_pos same]

theorem allNegative_of_policy {p : Int} (neg : p < 0) (every : ∀ c ∈ hs.colors, c = p) :
    ∀ c ∈ hs.colors, c < 0 := fun c member => by rw [every c member]; exact neg

theorem not_all_of_all {p q : Int} (some_ : hs.colors ≠ []) (every : ∀ c ∈ hs.colors, c = p)
    (apart : p ≠ q) : ¬ ∀ c ∈ hs.colors, c = q := by
  intro other
  obtain ⟨c, member⟩ := List.exists_mem_of_ne_nil _ some_
  exact apart ((every c member).symm.trans (other c member))

/-- **CLOSE.** -/
theorem hostMap_close (some_ : hs.colors ≠ []) (every : ∀ c ∈ hs.colors, c = splitClose)
    (same : hs.taskAffinities.length = hs.colors.length) (pos : 0 < hs.splitCpusets.length) :
    ∃ map f, hs.hostMap = .ok (hs.colors, map) ∧ map.Assigns hs.colors.length f ∧
      ∀ i < hs.colors.length, f i < hs.splitCpusets.length := by
  obtain ⟨map, f, run, assigns, below, -⟩ := qviMapClose_assigns
    { srcAffinities := hs.taskAffinities, dstAffinities := hs.splitCpusets, mapFn := .close } pos ∅
  simp only [same] at assigns below
  refine ⟨map, f, ?_, assigns, below⟩
  simp only [hostMap, mDetermineMapping_negative hs some_ (allNegative_of_policy hs (by decide) every)]
  rw [if_pos every]
  simp only [bind, Except.bind, MapConfig.apply, run]
  rfl

theorem hostMap_close_empty (some_ : hs.colors ≠ []) (every : ∀ c ∈ hs.colors, c = splitClose)
    (same : hs.taskAffinities.length = hs.colors.length) (none_ : hs.splitCpusets = []) :
    hs.hostMap = .error (.thrown .errNotSupported) := by
  have tasks : 0 < hs.taskAffinities.length := by
    rw [same]
    exact List.length_pos_iff.2 some_
  simp only [hostMap, mDetermineMapping_negative hs some_ (allNegative_of_policy hs (by decide) every)]
  rw [if_pos every]
  simp only [bind, Except.bind, MapConfig.apply, none_]
  rw [qviMapClose_throws rfl tasks]

/-- **PACKED.** -/
theorem hostMap_packed (some_ : hs.colors ≠ []) (every : ∀ c ∈ hs.colors, c = splitPacked)
    (size : hs.groupSize = hs.colors.length) (pos : 0 < hs.splitCpusets.length)
    (enough : hs.splitCpusets.length ≤ hs.groupSize) :
    ∃ map, hs.hostMap = .ok (hs.colors, map) ∧
      map.Assigns hs.colors.length
        (BalancedBlocks.blockOf hs.colors.length hs.splitCpusets.length) := by
  obtain ⟨map, run, assigns⟩ := qviMapPacked_assigns
    { nsrc := hs.groupSize, ndst := hs.splitCpusets.length, mapFn := .packed } pos enough
  simp only [size] at assigns
  refine ⟨map, ?_, assigns⟩
  simp only [hostMap, mDetermineMapping_negative hs some_ (allNegative_of_policy hs (by decide) every)]
  rw [if_neg (not_all_of_all hs some_ every (by decide)), if_pos every]
  simp only [bind, Except.bind, MapConfig.apply, run]
  rfl

theorem hostMap_packed_empty (some_ : hs.colors ≠ []) (every : ∀ c ∈ hs.colors, c = splitPacked)
    (none_ : hs.splitCpusets = []) : hs.hostMap = .ok (hs.colors, ∅) := by
  simp only [hostMap, mDetermineMapping_negative hs some_ (allNegative_of_policy hs (by decide) every)]
  rw [if_neg (not_all_of_all hs some_ every (by decide)), if_pos every]
  simp only [bind, Except.bind, MapConfig.apply, none_]
  rw [qviMapPacked_nothing _ (Or.inr rfl)]
  rfl

/-- **SPREAD.** -/
theorem hostMap_spread (some_ : hs.colors ≠ []) (every : ∀ c ∈ hs.colors, c = splitSpread)
    (size : hs.groupSize = hs.colors.length) (pos : 0 < hs.splitCpusets.length)
    (enough : hs.splitCpusets.length ≤ hs.groupSize) :
    ∃ map, hs.hostMap = .ok (hs.colors, map) ∧
      map.Assigns hs.colors.length fun i => i % hs.splitCpusets.length := by
  obtain ⟨map, run, assigns⟩ := qviMapSpread_assigns
    { nsrc := hs.groupSize, ndst := hs.splitCpusets.length, mapFn := .spread } pos enough
  simp only [size] at assigns
  refine ⟨map, ?_, assigns⟩
  simp only [hostMap, mDetermineMapping_negative hs some_ (allNegative_of_policy hs (by decide) every)]
  rw [if_neg (not_all_of_all hs some_ every (by decide)),
    if_neg (not_all_of_all hs some_ every (by decide)), if_pos every]
  simp only [bind, Except.bind, MapConfig.apply, run]
  rfl

theorem hostMap_spread_empty (some_ : hs.colors ≠ []) (every : ∀ c ∈ hs.colors, c = splitSpread)
    (size : hs.groupSize = hs.colors.length) (none_ : hs.splitCpusets = []) :
    hs.hostMap = .error .trap := by
  have tasks : 0 < hs.groupSize := by
    rw [size]
    exact List.length_pos_iff.2 some_
  simp only [hostMap, mDetermineMapping_negative hs some_ (allNegative_of_policy hs (by decide) every)]
  rw [if_neg (not_all_of_all hs some_ every (by decide)),
    if_neg (not_all_of_all hs some_ every (by decide)), if_pos every]
  simp only [bind, Except.bind, MapConfig.apply, none_]
  rw [qviMapSpread_trap _ rfl tasks]

/-- All colours are the same automatic policy. -/
def AutoPolicy (colors : List Int) : Prop :=
  (∀ c ∈ colors, c = splitClose) ∨ (∀ c ∈ colors, c = splitPacked) ∨ ∀ c ∈ colors, c = splitSpread

instance (colors : List Int) : Decidable (AutoPolicy colors) :=
  inferInstanceAs (Decidable (_ ∨ _ ∨ _))

/-- **Negative colours that are no policy.** -/
theorem hostMap_invalid (some_ : hs.colors ≠ []) (negative : ∀ c ∈ hs.colors, c < 0)
    (noPolicy : ¬ AutoPolicy hs.colors) : hs.hostMap = .error (.ret .errInvldArg) := by
  simp only [AutoPolicy, not_or] at noPolicy
  simp only [hostMap, mDetermineMapping_negative hs some_ negative]
  rw [if_neg noPolicy.1, if_neg noPolicy.2.1, if_neg noPolicy.2.2]
  rfl

theorem mDetermineMapping_mixed {a b : Int} (memA : a ∈ hs.colors) (neg : a < 0)
    (memB : b ∈ hs.colors) (nonneg : 0 ≤ b) :
    hs.mDetermineMapping = .ok (hs.colors, { srcColors := hs.colors, mapFn := .colors }) := by
  obtain ⟨front, tcolors, shape, inColors, least, backIn, greatest⟩ :=
    sortedColors (List.ne_nil_of_mem memA)
  have first : ¬ 0 ≤ front := by have := least a memA; omega
  have last : ¬ (front :: tcolors).getLast (List.cons_ne_nil _ _) < 0 := by
    have := greatest b memB
    omega
  simp only [mDetermineMapping, shape, first, if_false, last]

/-- **Colours of both signs** fail the assertion of the colour mapper. -/
theorem hostMap_mixed {a b : Int} (memA : a ∈ hs.colors) (neg : a < 0) (memB : b ∈ hs.colors)
    (nonneg : 0 ≤ b) : hs.hostMap = .error .trap := by
  have stops := qviMapColors_trap { srcColors := hs.colors, mapFn := .colors } memA neg ∅
  simp only [hostMap, mDetermineMapping_mixed hs memA neg memB nonneg]
  simp only [bind, Except.bind, MapConfig.apply, stops]

end HostMap

/-! ## Applying the task map -/

theorem assignTasks_loop {cpusets : List Bitmap} {pools : List Hwpool} {colors : List Int}
    {f : Nat → Nat} (same : colors.length = pools.length) :
    ∀ n ≤ pools.length, (∀ i < n, f i < cpusets.length) →
      ((List.range n).map fun i => (i, ({f i} : ExtTreeSet Nat))).foldlM (assignTask cpusets)
          (pools, colors) =
        .ok ((List.range n).map (fun i => .ofCpuset (cpusets[f i]?.getD ∅)) ++ pools.drop n,
          (List.range n).map (fun i => (f i : Int)) ++ colors.drop n) := by
  intro n
  induction n with
  | zero =>
      intro _ _
      simp [pure, Except.pure]
  | succ n ih =>
      intro bound below
      rw [List.range_succ, List.map_append, List.foldlM_append,
        ih (by omega) fun i less => below i (by omega)]
      have inPieces : f n < cpusets.length := below n (by omega)
      have found : cpusets[f n]? = some cpusets[f n] := List.getElem?_eq_getElem inPieces
      have poolRest : pools.drop n = pools[n] :: pools.drop (n + 1) :=
        List.drop_eq_getElem_cons (by omega)
      have colorRest : colors.drop n = colors[n] :: colors.drop (n + 1) :=
        List.drop_eq_getElem_cons (by omega)
      have room : n < ((List.range n).map (fun i => Hwpool.ofCpuset (cpusets[f i]?.getD ∅)) ++
          pools.drop n).length ∧
          n < ((List.range n).map (fun i => (f i : Int)) ++ colors.drop n).length := by
        simp only [List.length_append, List.length_map, List.length_range, List.length_drop]
        omega
      simp only [bind, Except.bind, List.map_cons, List.map_nil, List.foldlM_cons, List.foldlM_nil,
        assignTask, QviMap.toList_singleton, found, room, and_self, if_true, pure, Except.pure]
      rw [List.set_append_right _ _ (by simp), List.set_append_right _ _ (by simp), poolRest, colorRest]
      simp only [List.length_map, List.length_range, Nat.sub_self, List.set_cons_zero, List.map_append,
        List.map_cons, List.map_nil, List.append_assoc, List.singleton_append, found,
        Option.getD_some]

/-- A map that assigns every task a piece gives it the piece's colour and cpuset. -/
theorem assignTasks_eq (cpusets : List Bitmap) {pools : List Hwpool} {colors : List Int}
    {map : QviMap} {f : Nat → Nat} (same : colors.length = pools.length)
    (assigns : map.Assigns pools.length f) (below : ∀ i < pools.length, f i < cpusets.length) :
    map.toList.foldlM (assignTask cpusets) (pools, colors) =
      .ok ((List.range pools.length).map (fun i => .ofCpuset (cpusets[f i]?.getD ∅)),
        (List.range pools.length).map fun i => (f i : Int)) := by
  rw [assigns.toList, assignTasks_loop same pools.length le_rfl below]
  simp [← same]

/-! ## Handing out the devices -/

/-- What one type of the device stage does: cpusets and the other types stay, and
the devices of this type go where `g` says. -/
structure Distributed (devs : List HwpoolDev) (t : HwObjType) (before after : List Hwpool)
    (g : Nat → Nat) : Prop where
  length : after.length = before.length
  cpuset : after.map Hwpool.cpuset = before.map Hwpool.cpuset
  other : ∀ (i : Nat) (p p' : Hwpool), before[i]? = some p → after[i]? = some p' →
    ∀ t' ≠ t, p'.devices t' = p.devices t'
  mem : ∀ (i : Nat) (p p' : Hwpool), before[i]? = some p → after[i]? = some p' → ∀ d,
    d ∈ p'.devices t ↔ d ∈ p.devices t ∨ ∃ j, devs[j]? = some d ∧ g j = i
  count : ∀ (i : Nat) (p p' : Hwpool), before[i]? = some p → after[i]? = some p' →
    (p'.devices t).length =
      (p.devices t).length + ((Finset.range devs.length).filter fun j => g j = i).card

theorem Distributed.none_ (t : HwObjType) (pools : List Hwpool) (g : Nat → Nat) :
    Distributed [] t pools pools g where
  length := rfl
  cpuset := rfl
  other := fun i p p' found found' t' _ => by
    rw [Option.some.inj (found.symm.trans found')]
  mem := fun i p p' found found' d => by
    rw [Option.some.inj (found.symm.trans found')]
    simp
  count := fun i p p' found found' => by
    rw [Option.some.inj (found.symm.trans found')]
    simp

/-- What is found in a list with one element replaced. -/
theorem getElem?_set_cases {α : Type} {l : List α} {k i : Nat} {x y : α}
    (found : (l.set k x)[i]? = some y) : (k = i ∧ y = x) ∨ (k ≠ i ∧ l[i]? = some y) := by
  rw [List.getElem?_set] at found
  by_cases here : k = i
  · rw [if_pos here] at found
    split at found
    · exact .inl ⟨here, (Option.some.inj found).symm⟩
    · cases found
  · rw [if_neg here] at found
    exact .inr ⟨here, found⟩

/-- Where an element of a list with one more can be. -/
theorem exists_getElem?_concat {α : Type} {l : List α} {x y : α} {good : Nat → Prop} :
    (∃ j, (l ++ [x])[j]? = some y ∧ good j) ↔
      (∃ j, l[j]? = some y ∧ good j) ∨ (y = x ∧ good l.length) := by
  constructor
  · rintro ⟨j, at_, here⟩
    rw [List.getElem?_append] at at_
    split at at_
    · exact .inl ⟨j, at_, here⟩
    · rename_i late
      have inList := (List.getElem?_eq_some_iff.1 at_).1
      have last : j = l.length := by
        rw [List.length_singleton] at inList
        omega
      subst last
      rw [Nat.sub_self, List.getElem?_cons_zero, Option.some.injEq] at at_
      exact .inr ⟨at_.symm, here⟩
  · rintro (⟨j, at_, here⟩ | ⟨rfl, here⟩)
    · have inList := (List.getElem?_eq_some_iff.1 at_).1
      exact ⟨j, by rw [List.getElem?_append_left inList]; exact at_, here⟩
    · exact ⟨l.length, by simp, here⟩

theorem card_filter_range_succ (g : Nat → Nat) (n i : Nat) :
    ((Finset.range (n + 1)).filter fun j => g j = i).card =
      ((Finset.range n).filter fun j => g j = i).card + if g n = i then 1 else 0 := by
  rw [Finset.range_add_one, Finset.filter_insert]
  split
  · rw [Finset.card_insert_of_notMem (by simp)]
  · rfl

/-- One more device, new to its pool. -/
theorem Distributed.snoc {devs : List HwpoolDev} {t : HwObjType} {before after : List Hwpool}
    {g : Nat → Nat} (done : Distributed devs t before after g) {dev : HwpoolDev} {pool : Hwpool}
    (typed : dev.type = t) (found : after[g devs.length]? = some pool)
    (absent : ¬ pool.Has t dev.pciBusId) :
    Distributed (devs ++ [dev]) t before (after.set (g devs.length) (pool.addDevice dev)) g where
  length := by rw [List.length_set, done.length]
  cpuset := by
    rw [← done.cpuset]
    apply List.ext_getElem?
    intro i
    simp only [List.getElem?_map, List.getElem?_set]
    by_cases here : g devs.length = i
    · subst here
      have inList := (List.getElem?_eq_some_iff.1 found).1
      simp [inList, (List.getElem?_eq_some_iff.1 found).2]
    · simp [here]
  other := by
    intro i p p' found₀ found' t' apart
    obtain ⟨rfl, rfl⟩ | ⟨-, found'⟩ := getElem?_set_cases found'
    · rw [Hwpool.devices_addDevice_other (by rw [typed]; exact apart)]
      exact done.other _ p pool found₀ found t' apart
    · exact done.other i p p' found₀ found' t' apart
  mem := by
    intro i p p' found₀ found' d
    rw [exists_getElem?_concat]
    obtain ⟨rfl, rfl⟩ | ⟨notHere, found'⟩ := getElem?_set_cases found'
    · rw [Hwpool.mem_addDevice, done.mem _ p pool found₀ found d, typed]
      simp [absent, or_assoc]
    · rw [done.mem i p p' found₀ found' d]
      simp [notHere]
  count := by
    intro i p p' found₀ found'
    rw [List.length_append, List.length_singleton, card_filter_range_succ]
    obtain ⟨rfl, rfl⟩ | ⟨notHere, found'⟩ := getElem?_set_cases found'
    · rw [Hwpool.length_addDevice (by rw [typed]; exact absent), done.count _ p pool found₀ found]
      simp [typed, Nat.add_assoc]
    · rw [done.count i p p' found₀ found', if_neg notHere, Nat.add_zero]

/-- Pools that got only earlier devices of a pool's list do not have the next one: the
bus IDs of the list differ. -/
theorem Distributed.not_has_next {base : Hwpool} {t : HwObjType} {pools after : List Hwpool}
    {g : Nat → Nat} {n : Nat} (done : Distributed ((base.devices t).take n) t pools after g)
    (clean : ∀ p ∈ pools, p.devices t = []) (inDevs : n < (base.devices t).length) {i : Nat}
    {pool : Hwpool} (found : after[i]? = some pool) :
    ¬ pool.Has t (base.devices t)[n].pciBusId := by
  rintro ⟨d, member, same⟩
  have inBefore : i < pools.length := by
    rw [← done.length]
    exact (List.getElem?_eq_some_iff.1 found).1
  rw [done.mem i pools[i] pool (List.getElem?_eq_getElem inBefore) found d,
    clean _ (List.getElem_mem inBefore)] at member
  cases member with
  | inl old => cases old
  | inr early =>
      obtain ⟨j, early, -⟩ := early
      rw [List.getElem?_take] at early
      split at early
      · rename_i less
        have distinct := List.pairwise_iff_getElem.1 (base.distinct t) j n
          (show j < (base.devices t).length by omega) inDevs less
        rw [List.getElem?_eq_getElem (by omega), Option.some.injEq] at early
        rw [← early] at same
        exact distinct same
      · cases early

/-- The loop over a device map that assigns every device one pool. -/
theorem handOut_loop (base : Hwpool) (t : HwObjType) {pools : List Hwpool} {g : Nat → Nat}
    (clean : ∀ p ∈ pools, p.devices t = []) :
    ∀ n ≤ (base.devices t).length, (∀ j < n, g j < pools.length) →
      ∃ after, ((List.range n).map fun j => (j, ({g j} : ExtTreeSet Nat))).foldlM
          (fun (hwpools : List Hwpool) (entry : Nat × ExtTreeSet Nat) => entry.2.toList.foldlM
            (fun (hwpools : List Hwpool) (pooli : Nat) =>
              match (base.devices t)[entry.1]?, hwpools[pooli]? with
              | some dev, some pool => .ok (hwpools.set pooli (pool.addDevice dev))
              | _, _ => .error .trap) hwpools) pools = (.ok after : Qv (List Hwpool)) ∧
        Distributed ((base.devices t).take n) t pools after g := by
  intro n
  induction n with
  | zero =>
      intro _ _
      exact ⟨pools, by simp [pure, Except.pure], by simpa using Distributed.none_ t pools g⟩
  | succ n ih =>
      intro bound below
      obtain ⟨after, run, done⟩ := ih (by omega) fun j less => below j (by omega)
      have inDevs : n < (base.devices t).length := by omega
      have long : ((base.devices t).take n).length = n := by
        rw [List.length_take]
        omega
      have inPools : g n < after.length := by
        rw [done.length]
        exact below n (by omega)
      have poolAt : after[g n]? = some after[g n] := List.getElem?_eq_getElem inPools
      have devAt : (base.devices t)[n]? = some (base.devices t)[n] := List.getElem?_eq_getElem inDevs
      have absent := done.not_has_next clean inDevs poolAt
      have typed : (base.devices t)[n].type = t := base.typed t _ (List.getElem_mem inDevs)
      refine ⟨after.set (g n) (after[g n].addDevice (base.devices t)[n]), ?_, ?_⟩
      · rw [List.range_succ, List.map_append, List.foldlM_append, run]
        simp only [bind, Except.bind, List.map_cons, List.map_nil, List.foldlM_cons,
          List.foldlM_nil, QviMap.toList_singleton, devAt, poolAt, pure, Except.pure]
      · rw [List.take_add_one, devAt, Option.toList_some]
        have more := done.snoc typed (by rw [long]; exact poolAt) absent
        rwa [long] at more

/-- **One device type**: no failure, and every device goes to one pool, at most
`ceil(ndev / k)` of them to the same. -/
theorem assignDevices_spec (base : Hwpool) (t : HwObjType) {pools : List Hwpool}
    (device : objResClass t = .dev) (pos : 0 < pools.length)
    (clean : ∀ p ∈ pools, p.devices t = []) :
    ∃ after g, assignDevices base (pools.map Hwpool.cpuset) pools t = .ok after ∧
      Distributed (base.devices t) t pools after g ∧
      (∀ j < (base.devices t).length, g j < pools.length) ∧
      ∀ i, ((Finset.range (base.devices t).length).filter fun j => g j = i).card ≤
        qviMaxiperk (base.devices t).length pools.length := by
  by_cases empty : base.devices t = []
  · refine ⟨pools, fun _ => 0, ?_, ?_, ?_, ?_⟩
    · simp [assignDevices, empty, pure, Except.pure]
    · rw [empty]
      exact Distributed.none_ t pools _
    · simp [empty]
    · simp [empty]
  · obtain ⟨map, g, run, assigns, below, capacity⟩ := qviMapClose_assigns
      { srcAffinities := (base.devices t).map fun d => d.affinity,
        dstAffinities := pools.map Hwpool.cpuset, mapFn := .close }
      (by simpa using pos) ∅
    simp only [List.length_map] at assigns below capacity
    have uniq : (if (pools.map Hwpool.cpuset).length > ((base.devices t).map fun d => d.affinity).length
        then qviMapUniq map else map) = map := by
      split
      · rename_i more
        exact qviMapUniq_close (by simpa using pos) (by simpa using more.le) run
      · rfl
    obtain ⟨after, loop, done⟩ := handOut_loop base t (g := g) clean _ le_rfl below
    rw [List.take_length] at done
    refine ⟨after, g, ?_, done, below, capacity⟩
    simp only [assignDevices, empty, if_false, Hwpool.deviceAffinities, device, bind, Except.bind,
      run, uniq, assigns.toList]
    exact loop

end Hwsplit

end QuoVadis.Kernel
