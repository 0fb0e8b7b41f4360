/-
# Kernel.Map -- mapping sources to destinations

`qvi_map_t` maps source IDs to sets of destination IDs; both containers are
ordered, and their order is the order of the loops that walk them.  This module
has the mappers that need no affinity: by colour, packed and spread, and the
passes over a finished map (`invert_map`, `qvi_map_uniq`).

The mappers a split uses give every source exactly one destination.  `Assigns`
says so, and from it everything a caller reads off a map follows: its entries in
order (`Assigns.toList`) and its size (`Assigns.size`).

* `qviMapColors_assigns`, `qviMapPacked_assigns`, `qviMapSpread_assigns`;
* `qviMapUniq_uniq`, `qviMapUniq_of_unique`: what `qvi_map_uniq` keeps, and where it keeps
  everything;
* `mem_clampColors_iff`, `idxOf_colorSet_lt_iff`, `clampColors_clampColors`: clamping
  replaces colours by their places among the distinct ones.
-/
import QuoVadis.Kernel.Base
import QuoVadis.Theory.BalancedBlocks
import Std.Data.ExtTreeMap
import Std.Data.ExtTreeSet

namespace QuoVadis.Kernel

open QuoVadis.Theory
open Std (ExtTreeMap ExtTreeSet)

set_option autoImplicit false

/-- `qvi_map_t`. -/
abbrev QviMap := ExtTreeMap Nat (ExtTreeSet Nat)

/-- The mapping functions a configuration can name. -/
inductive MapFn where
  | colors
  | packed
  | spread
  | close
  deriving DecidableEq, Repr

/-- `qvi_map_config`, without the verbosity. -/
structure MapConfig where
  nsrc : Nat := 0
  ndst : Nat := 0
  srcAffinities : List Bitmap := []
  dstAffinities : List Bitmap := []
  srcColors : List Int := []
  mapFn : MapFn

namespace QviMap

/-- `map[src].insert(dst)`. -/
def insertDst (map : QviMap) (src dst : Nat) : QviMap :=
  map.alter src fun dsts => some ((dsts.getD ∅).insert dst)

theorem getElem?_insertDst (map : QviMap) (src dst k : Nat) :
    (map.insertDst src dst)[k]? =
      if src = k then some ((map[src]?.getD ∅).insert dst) else map[k]? := by
  rw [insertDst, ExtTreeMap.getElem?_alter]
  simp

/-- Every source below `n`, and no other, is mapped to exactly one destination. -/
def Assigns (map : QviMap) (n : Nat) (f : Nat → Nat) : Prop :=
  ∀ s, map[s]? = if s < n then some {f s} else none

theorem assigns_zero (f : Nat → Nat) : Assigns ∅ 0 f := by
  intro s
  simp

/-- The next source. -/
theorem Assigns.insertDst {map : QviMap} {n dst : Nat} {f g : Nat → Nat} (assigns : map.Assigns n f)
    (now : g n = dst) (old : ∀ s < n, g s = f s) : (map.insertDst n dst).Assigns (n + 1) g := by
  intro s
  have absent : map[n]? = none := by rw [assigns]; simp
  rw [getElem?_insertDst, absent]
  by_cases same : n = s
  · subst same
    simp [now]
  · rw [if_neg same, assigns]
    by_cases below : s < n
    · rw [if_pos below, if_pos (by omega), old s below]
    · rw [if_neg below, if_neg (by omega)]

theorem Assigns.congr {map : QviMap} {n : Nat} {f g : Nat → Nat} (assigns : map.Assigns n f)
    (same : ∀ s < n, g s = f s) : map.Assigns n g := by
  intro s
  rw [assigns]
  by_cases below : s < n
  · rw [if_pos below, if_pos below, same s below]
  · rw [if_neg below, if_neg below]

/-- The entries of a map, in the order of the loops. -/
theorem toList_ordered (map : QviMap) :
    (ExtTreeMap.toList map).Pairwise fun a b => a.1 < b.1 :=
  (ExtTreeMap.ordered_keys_toList (t := map)).imp fun less => Nat.compare_eq_lt.1 less

/-- The entries of an assignment, in the order the loops see them. -/
theorem Assigns.toList {map : QviMap} {n : Nat} {f : Nat → Nat} (assigns : map.Assigns n f) :
    ExtTreeMap.toList map = (List.range n).map fun s => (s, ({f s} : ExtTreeSet Nat)) := by
  have ordered := map.toList_ordered
  have ordered' : ((List.range n).map fun s => (s, ({f s} : ExtTreeSet Nat))).Pairwise
      fun a b => a.1 < b.1 :=
    List.pairwise_map.2 List.pairwise_lt_range
  refine List.Perm.eq_of_pairwise ?_ ordered ordered' ?_
  · intro a b _ _ less more
    omega
  · refine (List.perm_ext_iff_of_nodup ?_ ?_).2 ?_
    · exact ordered.imp fun {a b} less same => by rw [same] at less; omega
    · exact ordered'.imp fun {a b} less same => by rw [same] at less; omega
    · rintro ⟨s, ds⟩
      rw [ExtTreeMap.mem_toList_iff_getElem?_eq_some, assigns s]
      simp only [List.mem_map, List.mem_range, Prod.mk.injEq]
      constructor
      · intro found
        by_cases below : s < n
        · rw [if_pos below, Option.some.injEq] at found
          exact ⟨s, below, rfl, found⟩
        · simp [below] at found
      · rintro ⟨s', below, rfl, rfl⟩
        simp [below]

theorem Assigns.size {map : QviMap} {n : Nat} {f : Nat → Nat} (assigns : map.Assigns n f) :
    map.size = n := by
  rw [← ExtTreeMap.length_toList, assigns.toList]
  simp

theorem toList_singleton (d : Nat) : ({d} : ExtTreeSet Nat).toList = [d] := by
  have long : ({d} : ExtTreeSet Nat).toList.length = 1 := by
    rw [ExtTreeSet.length_toList]
    exact ExtTreeSet.size_insert.trans (by simp)
  obtain ⟨x, only⟩ := List.length_eq_one_iff.1 long
  have member : d ∈ ({d} : ExtTreeSet Nat).toList := by
    rw [ExtTreeSet.mem_toList]
    exact ExtTreeSet.mem_insert_self
  rw [only, List.mem_singleton] at member
  rw [only, member]

/-- A map sends a source to a destination. -/
def Maps (map : QviMap) (s d : Nat) : Prop := ∃ ds, map[s]? = some ds ∧ d ∈ ds

theorem maps_insertDst {map : QviMap} {src dst s d : Nat} :
    (map.insertDst src dst).Maps s d ↔ (s = src ∧ d = dst) ∨ map.Maps s d := by
  unfold Maps
  rw [getElem?_insertDst]
  by_cases same : src = s
  · subst same
    simp only [if_true, Option.some.injEq, exists_eq_left', ExtTreeSet.mem_insert,
      Nat.compare_eq_eq, true_and]
    cases found : map[src]? with
    | none => simp [eq_comm]
    | some ds => simp [eq_comm]
  · have : ¬ s = src := fun e => same e.symm
    simp [same, this]

@[simp] theorem not_maps_empty (s d : Nat) : ¬ Maps ∅ s d := by
  rintro ⟨ds, found, -⟩
  simp at found

/-- What an assignment maps where. -/
theorem Assigns.maps_iff {map : QviMap} {n : Nat} {f : Nat → Nat} (assigns : map.Assigns n f)
    {s d : Nat} : map.Maps s d ↔ s < n ∧ f s = d := by
  unfold Maps
  rw [assigns]
  by_cases below : s < n
  · simp [below]
  · simp [below]

end QviMap

/-! ## The mappers -/

/-- `invert_map`. -/
def invertMap (original : QviMap) : QviMap :=
  original.toList.foldl
    (fun inverted entry => entry.2.toList.foldl
      (fun inverted value => inverted.insertDst value entry.1) inverted) ∅

/-- The destination `qvi_map_uniq` keeps of one source: the first not seen. -/
def uniqStep (acc : QviMap × ExtTreeSet Nat) (entry : Nat × ExtTreeSet Nat) :
    QviMap × ExtTreeSet Nat :=
  match entry.2.toList.find? fun dst => !acc.2.contains dst with
  | none => acc
  | some dst => (acc.1.insertIfNew entry.1 {dst}, acc.2.insert dst)

/-- `qvi_map_uniq`. -/
def qviMapUniq (map : QviMap) : QviMap :=
  (map.toList.foldl uniqStep (∅, ∅)).1

/-- `qvi_map_calc_affinities`. -/
def qviMapCalcAffinities (src dst : List Bitmap) : QviMap :=
  src.zipIdx.foldl
    (fun result s => dst.zipIdx.foldl
      (fun result d => if Disjoint s.1 d.1 then result else result.insertDst s.2 d.2) result) ∅

/-- `qvi_map_colors`.  The assertion on the colours is the source's own. -/
def qviMapColors (config : MapConfig) (map : QviMap) : Qv QviMap :=
  if config.srcColors.all fun val => 0 ≤ val then
    .ok (config.srcColors.zipIdx.foldl (fun map c => map.insertDst c.2 c.1.toNat) map)
  else .error .trap

/-- One destination of `qvi_map_packed`: the next `count` sources go to it. -/
def packInto (destId : Nat) : Nat → Nat × QviMap → Nat × QviMap
  | 0, st => st
  | count + 1, (sourceId, map) => packInto destId count (sourceId + 1, map.insertDst sourceId destId)

/-- `qvi_map_packed`. -/
def qviMapPacked (config : MapConfig) (map : QviMap) : Qv QviMap :=
  let inverted : Bool := config.nsrc < config.ndst
  let (n, m) := if inverted then (config.ndst, config.nsrc) else (config.nsrc, config.ndst)
  if n = 0 ∨ m = 0 then .ok ∅
  else
    let baseCount := n / m
    let extra := n % m
    let (_, map) := (List.range m).foldl
      (fun st destId => packInto destId (baseCount + if destId < extra then 1 else 0) st) (0, map)
    .ok (if inverted then invertMap map else map)

/-- `qvi_map_spread`.  The remainder by a zero `m` is a division by zero. -/
def qviMapSpread (config : MapConfig) (map : QviMap) : Qv QviMap := do
  let inverted : Bool := config.nsrc < config.ndst
  let (n, m) := if inverted then (config.ndst, config.nsrc) else (config.nsrc, config.ndst)
  let map ← (List.range n).foldlM
    (fun map srci => if m = 0 then .error .trap else .ok (map.insertDst srci (srci % m))) map
  return if inverted then invertMap map else map

/-- The values of a colour vector in the order of a `std::set<int>`. -/
def colorSet (colors : List Int) : ExtTreeSet Int := ExtTreeSet.ofList colors

/-- `qvi_map_clamp_colors`: a colour becomes its position in the ordered set. -/
def qviMapClampColors (colors : List Int) : List Int :=
  colors.map fun c => ((colorSet colors).toList.idxOf c : Int)

/-! ## What the mappers assign -/

section Assigns

variable (config : MapConfig)

theorem colors_loop (colors : List Int) :
    ∀ (start : Nat) (map : QviMap) (f : Nat → Nat), map.Assigns start f →
      ((colors.zipIdx start).foldl (fun map c => map.insertDst c.2 c.1.toNat) map).Assigns
        (start + colors.length)
        (fun s => if s < start then f s else (colors[s - start]?.getD 0).toNat) := by
  induction colors with
  | nil =>
      intro start map f assigns
      exact assigns.congr fun s below => if_pos below
  | cons c rest ih =>
      intro start map f assigns
      rw [List.zipIdx_cons, List.foldl_cons, List.length_cons]
      have next : (map.insertDst start c.toNat).Assigns (start + 1)
          (fun s => if s < start then f s else c.toNat) :=
        assigns.insertDst (by simp) fun s below => if_pos below
      have loop := ih (start + 1) _ _ next
      rw [show start + 1 + rest.length = start + (rest.length + 1) by omega] at loop
      refine loop.congr fun s _ => ?_
      by_cases before : s < start
      · simp [before, Nat.lt_succ_of_lt before]
      · by_cases here : s = start
        · simp [here]
        · have later : s - start = (s - (start + 1)) + 1 := by omega
          have notYet : ¬ s < start + 1 := by omega
          rw [if_neg before, if_neg notYet, later, List.getElem?_cons_succ]

theorem qviMapColors_assigns (nonneg : ∀ c ∈ config.srcColors, 0 ≤ c) :
    ∃ map, qviMapColors config ∅ = .ok map ∧
      map.Assigns config.srcColors.length fun s => (config.srcColors[s]?.getD 0).toNat := by
  have check : config.srcColors.all (fun val => 0 ≤ val) = true := by simpa using nonneg
  refine ⟨_, by rw [qviMapColors, if_pos check], ?_⟩
  have loop := colors_loop config.srcColors 0 ∅ (fun _ => 0) (QviMap.assigns_zero _)
  simpa using loop

/-- A negative colour fails the assertion. -/
theorem qviMapColors_trap {c : Int} (member : c ∈ config.srcColors) (neg : c < 0) (map : QviMap) :
    qviMapColors config map = .error .trap := by
  have check : ¬ config.srcColors.all (fun val => decide (0 ≤ val)) = true := by
    intro all
    have := List.all_eq_true.1 all c member
    simp only [decide_eq_true_eq] at this
    omega
  rw [qviMapColors, if_neg check]

theorem packInto_assigns (destId : Nat) :
    ∀ (count sourceId : Nat) (map : QviMap) (f : Nat → Nat), map.Assigns sourceId f →
      (packInto destId count (sourceId, map)).1 = sourceId + count ∧
        (packInto destId count (sourceId, map)).2.Assigns (sourceId + count)
          (fun s => if s < sourceId then f s else destId) := by
  intro count
  induction count with
  | zero =>
      intro sourceId map f assigns
      exact ⟨rfl, assigns.congr fun s below => if_pos below⟩
  | succ count ih =>
      intro sourceId map f assigns
      have next : (map.insertDst sourceId destId).Assigns (sourceId + 1)
          (fun s => if s < sourceId then f s else destId) :=
        assigns.insertDst (by simp) fun s below => if_pos below
      obtain ⟨moved, loop⟩ := ih (sourceId + 1) _ _ next
      rw [show sourceId + 1 + count = sourceId + (count + 1) by omega] at moved loop
      refine ⟨moved, loop.congr fun s _ => ?_⟩
      by_cases before : s < sourceId
      · simp [before, Nat.lt_succ_of_lt before]
      · by_cases here : s < sourceId + 1 <;> simp [before, here]

/-- Packing fills the destinations in order: after `j` of them, the sources of the
first `j` blocks are placed, each in its block. -/
theorem packed_loop {n m : Nat} :
    ∀ j ≤ m, ∃ map : QviMap,
      (List.range j).foldl
        (fun st destId => packInto destId (n / m + if destId < n % m then 1 else 0) st)
        ((0, ∅) : Nat × QviMap) = (BalancedBlocks.start n m j, map) ∧
        map.Assigns (BalancedBlocks.start n m j) (BalancedBlocks.blockOf n m) := by
  intro j
  induction j with
  | zero =>
      intro _
      exact ⟨∅, by simp, by simpa using QviMap.assigns_zero _⟩
  | succ j ih =>
      intro bound
      obtain ⟨map, run, assigns⟩ := ih (by omega)
      have placed := packInto_assigns j (BalancedBlocks.size n m j) _ _ _ assigns
      rw [← BalancedBlocks.start_succ] at placed
      refine ⟨(packInto j (BalancedBlocks.size n m j) (BalancedBlocks.start n m j, map)).2, ?_, ?_⟩
      · rw [List.range_succ, List.foldl_append, run]
        exact Prod.ext placed.1 rfl
      · refine placed.2.congr fun s below => ?_
        by_cases before : s < BalancedBlocks.start n m j
        · rw [if_pos before]
        · rw [if_neg before]
          exact BalancedBlocks.blockOf_eq bound ⟨by omega, below⟩

theorem qviMapPacked_assigns (pos : 0 < config.ndst) (enough : config.ndst ≤ config.nsrc) :
    ∃ map, qviMapPacked config ∅ = .ok map ∧
      map.Assigns config.nsrc (BalancedBlocks.blockOf config.nsrc config.ndst) := by
  obtain ⟨map, run, assigns⟩ := packed_loop (n := config.nsrc) config.ndst le_rfl
  rw [BalancedBlocks.start_end pos] at run assigns
  refine ⟨map, ?_, assigns⟩
  have straight : ¬ config.nsrc < config.ndst := by omega
  have busy : ¬ (config.nsrc = 0 ∨ config.ndst = 0) := by omega
  simp only [qviMapPacked, straight, decide_false, Bool.false_eq_true, if_false, busy]
  rw [run]

theorem qviMapPacked_nothing (none_ : config.nsrc = 0 ∨ config.ndst = 0) (map : QviMap) :
    qviMapPacked config map = .ok ∅ := by
  simp only [qviMapPacked]
  by_cases inverted : config.nsrc < config.ndst
  · have busy : config.ndst = 0 ∨ config.nsrc = 0 := none_.symm
    simp [inverted, busy]
  · simp [inverted, none_]

theorem spread_loop {m : Nat} (pos : 0 < m) :
    ∀ n, ∃ map : QviMap,
      (List.range n).foldlM
        (fun map srci => if m = 0 then .error .trap else .ok (QviMap.insertDst map srci (srci % m)))
        (∅ : QviMap) = (.ok map : Qv QviMap) ∧ map.Assigns n fun s => s % m := by
  intro n
  induction n with
  | zero => exact ⟨∅, rfl, QviMap.assigns_zero _⟩
  | succ n ih =>
      obtain ⟨map, run, assigns⟩ := ih
      have nonzero : m ≠ 0 := by omega
      refine ⟨map.insertDst n (n % m), ?_, assigns.insertDst rfl fun _ _ => rfl⟩
      rw [List.range_succ, List.foldlM_append, run]
      simp [bind, Except.bind, nonzero, pure, Except.pure]

theorem qviMapSpread_assigns (pos : 0 < config.ndst) (enough : config.ndst ≤ config.nsrc) :
    ∃ map, qviMapSpread config ∅ = .ok map ∧ map.Assigns config.nsrc fun s => s % config.ndst := by
  obtain ⟨map, run, assigns⟩ := spread_loop pos config.nsrc
  refine ⟨map, ?_, assigns⟩
  have straight : ¬ config.nsrc < config.ndst := by omega
  simp only [qviMapSpread, straight, decide_false, Bool.false_eq_true, if_false]
  rw [run]
  rfl

/-- Spreading over no destination divides by zero. -/
theorem qviMapSpread_trap (none_ : config.ndst = 0) (some_ : 0 < config.nsrc) (map : QviMap) :
    qviMapSpread config map = .error .trap := by
  have straight : ¬ config.nsrc < config.ndst := by omega
  obtain ⟨n, same⟩ : ∃ n, config.nsrc = n + 1 := ⟨config.nsrc - 1, by omega⟩
  simp only [qviMapSpread, straight, decide_false, Bool.false_eq_true, if_false]
  rw [same, none_, List.range_succ_eq_map, List.foldlM_cons]
  rfl

end Assigns

/-! ## Inversion -/

/-- One entry of the inversion: every destination of it gets the source. -/
theorem maps_invertEntry (src : Nat) (dsts : List Nat) {s d : Nat} :
    ∀ inverted : QviMap,
      (dsts.foldl (fun inverted value => inverted.insertDst value src) inverted).Maps s d ↔
        inverted.Maps s d ∨ (d = src ∧ s ∈ dsts) := by
  induction dsts with
  | nil => simp
  | cons dst rest ih =>
      intro inverted
      rw [List.foldl_cons, ih, QviMap.maps_insertDst, List.mem_cons]
      tauto

/-- **`invert_map` is the converse of the relation.** -/
theorem maps_invertMap {original : QviMap} {s d : Nat} :
    (invertMap original).Maps s d ↔ original.Maps d s := by
  have entries : ∀ (entries : List (Nat × ExtTreeSet Nat)) (inverted : QviMap),
      (entries.foldl (fun inverted entry => entry.2.toList.foldl
        (fun inverted value => inverted.insertDst value entry.1) inverted) inverted).Maps s d ↔
          inverted.Maps s d ∨ ∃ entry ∈ entries, d = entry.1 ∧ s ∈ entry.2.toList := by
    intro entries
    induction entries with
    | nil => simp
    | cons entry rest ih =>
        intro inverted
        rw [List.foldl_cons, ih, maps_invertEntry, or_assoc, List.exists_mem_cons_iff]
  rw [invertMap, entries]
  simp only [QviMap.not_maps_empty, false_or]
  constructor
  · rintro ⟨⟨src, dsts⟩, member, rfl, inside⟩
    exact ⟨dsts, ExtTreeMap.mem_toList_iff_getElem?_eq_some.1 member, ExtTreeSet.mem_toList.1 inside⟩
  · rintro ⟨dsts, found, inside⟩
    exact ⟨(d, dsts), ExtTreeMap.mem_toList_iff_getElem?_eq_some.2 found, rfl,
      ExtTreeSet.mem_toList.2 inside⟩

/-! ## `qvi_map_uniq` -/

/-- A source that is not in the map is inserted with its first destination. -/
theorem insertIfNew_eq_insertDst {map : QviMap} {src : Nat} (absent : map[src]? = none) (dst : Nat) :
    map.insertIfNew src {dst} = map.insertDst src dst := by
  apply ExtTreeMap.ext_getElem?
  intro k
  rw [ExtTreeMap.getElem?_insertIfNew, QviMap.getElem?_insertDst, absent]
  have notMem : src ∉ map := by
    rw [ExtTreeMap.mem_iff_isSome_getElem?, absent]
    simp
  by_cases here : src = k
  · subst here
    simp [notMem]
  · simp [here]

/-- What the loop has made of the entries before: `result` takes from each of them one
destination that no smaller source has taken, and leaves out a source only if there is
none. -/
structure UniqInv (before : List (Nat × ExtTreeSet Nat)) (acc : QviMap × ExtTreeSet Nat) : Prop where
  seen : ∀ d, d ∈ acc.2 ↔ ∃ s, acc.1.Maps s d
  one : ∀ s ds, acc.1[s]? = some ds → ∃ d, ds = {d} ∧ ∃ dsts, (s, dsts) ∈ before ∧ d ∈ dsts
  injective : ∀ s s' d, acc.1.Maps s d → acc.1.Maps s' d → s = s'
  missing : ∀ s dsts, (s, dsts) ∈ before → acc.1[s]? = none →
    ∀ d ∈ dsts, ∃ s' < s, acc.1.Maps s' d

theorem uniqInv_nil : UniqInv [] (∅, ∅) where
  seen := by simp
  one := by simp
  injective := by simp
  missing := by simp

section UniqStep

variable {before : List (Nat × ExtTreeSet Nat)} {acc : QviMap × ExtTreeSet Nat}
  {entry : Nat × ExtTreeSet Nat}

/-- The next source is new to the result. -/
theorem UniqInv.absent (inv : UniqInv before acc) (above : ∀ e ∈ before, e.1 < entry.1) :
    acc.1[entry.1]? = none := by
  cases found : acc.1[entry.1]? with
  | none => rfl
  | some ds =>
      obtain ⟨-, -, dsts, member, -⟩ := inv.one _ _ found
      exact absurd (above _ member) (Nat.lt_irrefl _)

/-- All destinations of the next source are taken. -/
theorem UniqInv.skip (inv : UniqInv before acc) (above : ∀ e ∈ before, e.1 < entry.1)
    (taken : ∀ d ∈ entry.2, d ∈ acc.2) : UniqInv (before ++ [entry]) acc where
  seen := inv.seen
  one := by
    intro s ds found
    obtain ⟨d, only, dsts, member, inside⟩ := inv.one s ds found
    exact ⟨d, only, dsts, List.mem_append_left _ member, inside⟩
  injective := inv.injective
  missing := by
    intro s dsts member gone d inside
    rcases List.mem_append.1 member with old | new
    · exact inv.missing s dsts old gone d inside
    · rw [List.mem_singleton] at new
      subst new
      obtain ⟨s', maps⟩ := (inv.seen d).1 (taken d inside)
      obtain ⟨ds, found, -⟩ := id maps
      obtain ⟨-, -, dsts', member', -⟩ := inv.one _ _ found
      exact ⟨s', above _ member', maps⟩

/-- The next source takes a destination. -/
theorem UniqInv.take (inv : UniqInv before acc) (above : ∀ e ∈ before, e.1 < entry.1) {dst : Nat}
    (inside : dst ∈ entry.2) (fresh : dst ∉ acc.2) :
    UniqInv (before ++ [entry]) (acc.1.insertDst entry.1 dst, acc.2.insert dst) := by
  have absent := inv.absent above
  have kept : ∀ {s d}, acc.1.Maps s d → (acc.1.insertDst entry.1 dst).Maps s d :=
    fun maps => QviMap.maps_insertDst.2 (Or.inr maps)
  refine ⟨?_, ?_, ?_, ?_⟩
  · intro d
    rw [ExtTreeSet.mem_insert, Nat.compare_eq_eq, inv.seen]
    simp only [QviMap.maps_insertDst, exists_or, exists_eq_left]
    rw [eq_comm]
  · intro s ds found
    rw [QviMap.getElem?_insertDst, absent] at found
    by_cases same : entry.1 = s
    · subst same
      refine ⟨dst, by simpa using found.symm, entry.2, List.mem_append_right _ ?_, inside⟩
      exact List.mem_singleton_self _
    · rw [if_neg same] at found
      obtain ⟨d, only, dsts, member, inside⟩ := inv.one s ds found
      exact ⟨d, only, dsts, List.mem_append_left _ member, inside⟩
  · intro s s' d maps maps'
    rcases QviMap.maps_insertDst.1 maps with ⟨rfl, rfl⟩ | old
    · rcases QviMap.maps_insertDst.1 maps' with ⟨rfl, -⟩ | old'
      · rfl
      · exact absurd ((inv.seen _).2 ⟨_, old'⟩) fresh
    · rcases QviMap.maps_insertDst.1 maps' with ⟨rfl, rfl⟩ | old'
      · exact absurd ((inv.seen _).2 ⟨_, old⟩) fresh
      · exact inv.injective s s' d old old'
  · intro s dsts member gone d inDsts
    rw [QviMap.getElem?_insertDst] at gone
    by_cases same : entry.1 = s
    · rw [if_pos same] at gone
      cases gone
    · rw [if_neg same] at gone
      rcases List.mem_append.1 member with old | new
      · obtain ⟨s', less, maps⟩ := inv.missing s dsts old gone d inDsts
        exact ⟨s', less, kept maps⟩
      · rw [← List.mem_singleton.1 new] at same
        exact absurd rfl same

theorem uniqInv_step (inv : UniqInv before acc) (above : ∀ e ∈ before, e.1 < entry.1) :
    UniqInv (before ++ [entry]) (uniqStep acc entry) := by
  unfold uniqStep
  split
  · rename_i none_
    refine inv.skip above fun d inside => ?_
    have := List.find?_eq_none.1 none_ d (ExtTreeSet.mem_toList.2 inside)
    simpa [ExtTreeSet.contains_iff_mem] using this
  · rename_i dst first
    rw [insertIfNew_eq_insertDst (inv.absent above)]
    refine inv.take above (ExtTreeSet.mem_toList.1 (List.mem_of_find?_eq_some first)) fun seen => ?_
    have := List.find?_some first
    rw [ExtTreeSet.contains_iff_mem.2 seen] at this
    cases this

end UniqStep

theorem uniqInv_loop {entries : List (Nat × ExtTreeSet Nat)}
    (ordered : entries.Pairwise fun a b => a.1 < b.1) :
    UniqInv entries (entries.foldl uniqStep (∅, ∅)) := by
  induction entries using List.reverseRecOn with
  | nil => exact uniqInv_nil
  | append_singleton before entry ih =>
      rw [List.pairwise_append] at ordered
      rw [List.foldl_append]
      exact uniqInv_step (ih ordered.1)
        fun e member => ordered.2.2 e member entry (List.mem_singleton_self _)

/-- A result of `qvi_map_uniq`: every source has one of its destinations to itself, and
is left out only if smaller sources have them all. -/
structure Uniq (map result : QviMap) : Prop where
  one : ∀ s ds, result[s]? = some ds → ∃ d, ds = {d} ∧ map.Maps s d
  injective : ∀ s s' d, result.Maps s d → result.Maps s' d → s = s'
  missing : ∀ s dsts, map[s]? = some dsts → result[s]? = none →
    ∀ d ∈ dsts, ∃ s' < s, result.Maps s' d

theorem qviMapUniq_uniq (map : QviMap) : Uniq map (qviMapUniq map) := by
  have inv := uniqInv_loop map.toList_ordered
  refine ⟨?_, inv.injective, ?_⟩
  · intro s ds found
    obtain ⟨d, only, dsts, member, inside⟩ := inv.one s ds found
    exact ⟨d, only, dsts, ExtTreeMap.mem_toList_iff_getElem?_eq_some.1 member, inside⟩
  · intro s dsts found
    exact inv.missing s dsts (ExtTreeMap.mem_toList_iff_getElem?_eq_some.2 found)

/-- **Where destinations are unique already, `qvi_map_uniq` is the identity.** -/
theorem qviMapUniq_of_unique {map : QviMap}
    (one : ∀ (s : Nat) (ds : ExtTreeSet Nat), map[s]? = some ds → ∃ d, ds = {d})
    (injective : ∀ s s' d, map.Maps s d → map.Maps s' d → s = s') : qviMapUniq map = map := by
  have uniq := qviMapUniq_uniq map
  have sub : ∀ {s d}, (qviMapUniq map).Maps s d → map.Maps s d := by
    rintro s d ⟨ds, found, inside⟩
    obtain ⟨d', rfl, maps⟩ := uniq.one s ds found
    have same : d' = d := by simpa using inside
    exact same ▸ maps
  apply ExtTreeMap.ext_getElem?
  intro s
  cases found : map[s]? with
  | none =>
      cases kept : (qviMapUniq map)[s]? with
      | none => rfl
      | some ds =>
          obtain ⟨d, -, ds', found', -⟩ := uniq.one s ds kept
          rw [found] at found'
          cases found'
  | some ds =>
      obtain ⟨d, rfl⟩ := one s ds found
      have maps : map.Maps s d := ⟨{d}, found, by simp⟩
      cases kept : (qviMapUniq map)[s]? with
      | none =>
          -- whoever has taken the destination has it in the map too
          obtain ⟨s', less, taken⟩ := uniq.missing s _ found kept d (by simp)
          have := injective s' s d (sub taken) maps
          omega
      | some ds' =>
          obtain ⟨d', rfl, ds, found', inside⟩ := uniq.one s ds' kept
          rw [found] at found'
          cases found'
          have same : d = d' := by simpa using inside
          rw [same]

theorem qviMapUniq_assigns {map : QviMap} {n : Nat} {f : Nat → Nat} (assigns : map.Assigns n f)
    (injective : ∀ s < n, ∀ s' < n, f s = f s' → s = s') : qviMapUniq map = map := by
  refine qviMapUniq_of_unique ?_ ?_
  · intro s ds found
    rw [assigns] at found
    split at found
    · exact ⟨f s, (Option.some.inj found).symm⟩
    · cases found
  · intro s s' d maps maps'
    obtain ⟨below, rfl⟩ := assigns.maps_iff.1 maps
    obtain ⟨below', same⟩ := assigns.maps_iff.1 maps'
    exact injective s below s' below' same.symm

/-! ## Clamping -/

theorem mem_colorSet {colors : List Int} {c : Int} : c ∈ (colorSet colors).toList ↔ c ∈ colors := by
  rw [ExtTreeSet.mem_toList, colorSet, ExtTreeSet.mem_ofList, List.contains_iff_mem]

theorem nodup_colorSet (colors : List Int) : (colorSet colors).toList.Nodup :=
  (ExtTreeSet.distinct_toList (t := colorSet colors)).imp fun {a b} apart same =>
    apart (by rw [same]; exact Std.ReflCmp.compare_self)

/-- The size of the set is the number of distinct colours. -/
theorem size_colorSet (colors : List Int) : (colorSet colors).size = colors.toFinset.card := by
  rw [← ExtTreeSet.length_toList, ← List.toFinset_card_of_nodup (nodup_colorSet colors)]
  congr 1
  ext c
  rw [List.mem_toFinset, List.mem_toFinset, mem_colorSet]

theorem length_clampColors (colors : List Int) :
    (qviMapClampColors colors).length = colors.length := by
  simp [qviMapClampColors]

/-- A clamped colour lies in `[0, number of distinct colours)`. -/
theorem clampColors_lt {colors : List Int} {c : Int} (member : c ∈ qviMapClampColors colors) :
    0 ≤ c ∧ c < (colorSet colors).size := by
  simp only [qviMapClampColors, List.mem_map] at member
  obtain ⟨c', found, rfl⟩ := member
  have := List.idxOf_lt_length_of_mem (mem_colorSet.2 found)
  rw [ExtTreeSet.length_toList] at this
  exact ⟨by omega, by omega⟩

theorem clampColors_injOn (colors : List Int) :
    Set.InjOn (fun c => ((colorSet colors).toList.idxOf c : Int)) {c | c ∈ colors} := by
  intro a memA b memB same
  exact (List.idxOf_inj (mem_colorSet.2 memA)).1 (by simpa using same)

/-- Clamping keeps the number of distinct colours. -/
theorem distinct_clampColors (colors : List Int) :
    (colorSet (qviMapClampColors colors)).size = (colorSet colors).size := by
  rw [size_colorSet, size_colorSet]
  have image : (qviMapClampColors colors).toFinset =
      colors.toFinset.image fun c => ((colorSet colors).toList.idxOf c : Int) := by
    ext c
    simp [qviMapClampColors]
  rw [image]
  refine Finset.card_image_of_injOn ?_
  have := clampColors_injOn colors
  simpa [List.coe_toFinset] using this

/-- A `std::set<int>` is walked in ascending order. -/
theorem colorSet_sorted (colors : List Int) : (colorSet colors).toList.Pairwise (· < ·) :=
  (ExtTreeSet.ordered_toList (t := colorSet colors)).imp fun less => compare_lt_iff_lt.1 less

/-- Smaller colours have smaller places. -/
theorem idxOf_colorSet_lt_iff {colors : List Int} {a b : Int} (memA : a ∈ colors)
    (memB : b ∈ colors) :
    (colorSet colors).toList.idxOf a < (colorSet colors).toList.idxOf b ↔ a < b := by
  have boundA := List.idxOf_lt_length_of_mem (mem_colorSet.2 memA)
  have boundB := List.idxOf_lt_length_of_mem (mem_colorSet.2 memB)
  have order := (colorSet_sorted colors).sortedLT.getElem_lt_getElem_iff.symm
    (a := (colorSet colors).toList[(colorSet colors).toList.idxOf a] <
      (colorSet colors).toList[(colorSet colors).toList.idxOf b])
  rwa [List.getElem_idxOf, List.getElem_idxOf] at order

/-- What is found in the clamped vector. -/
theorem getElem?_clampColors (colors : List Int) (i : Nat) :
    (qviMapClampColors colors)[i]? =
      colors[i]?.map fun c => ((colorSet colors).toList.idxOf c : Int) := by
  simp [qviMapClampColors]

/-- The clamped colours are exactly `0 .. number of distinct colours - 1`. -/
theorem mem_clampColors_iff {colors : List Int} {c : Int} :
    c ∈ qviMapClampColors colors ↔ 0 ≤ c ∧ c < (colorSet colors).size := by
  constructor
  · exact clampColors_lt
  · rintro ⟨nonneg, below⟩
    obtain ⟨j, rfl⟩ := Int.eq_ofNat_of_zero_le nonneg
    have inList : j < (colorSet colors).toList.length := by
      rw [ExtTreeSet.length_toList]
      omega
    refine List.mem_map.2 ⟨(colorSet colors).toList[j], mem_colorSet.1 (List.getElem_mem inList), ?_⟩
    rw [(nodup_colorSet colors).idxOf_getElem j inList]

/-- **Clamping again changes nothing.** -/
theorem clampColors_clampColors (colors : List Int) :
    qviMapClampColors (qviMapClampColors colors) = qviMapClampColors colors := by
  -- the clamped colours, in order, are the numbers from zero on
  have ordered : (colorSet (qviMapClampColors colors)).toList =
      (List.range (colorSet colors).size).map Int.ofNat := by
    refine (colorSet_sorted _).eq_of_mem_iff ?_ fun c => ?_
    · rw [List.pairwise_map]
      exact List.pairwise_lt_range.imp fun less => Int.ofNat_lt.2 less
    · rw [mem_colorSet, mem_clampColors_iff, List.mem_map]
      constructor
      · rintro ⟨nonneg, below⟩
        exact ⟨c.toNat, List.mem_range.2 (by omega), Int.toNat_of_nonneg nonneg⟩
      · rintro ⟨j, inRange, rfl⟩
        have := List.mem_range.1 inRange
        simp only [Int.ofNat_eq_natCast]
        omega
  have place : ∀ c ∈ qviMapClampColors colors,
      ((colorSet (qviMapClampColors colors)).toList.idxOf c : Int) = c := by
    intro c member
    obtain ⟨nonneg, below⟩ := mem_clampColors_iff.1 member
    obtain ⟨j, rfl⟩ := Int.eq_ofNat_of_zero_le nonneg
    have inList : j < (colorSet (qviMapClampColors colors)).toList.length := by
      rw [ordered, List.length_map, List.length_range]
      omega
    have found : (colorSet (qviMapClampColors colors)).toList[j] = (j : Int) := by
      simp [ordered]
    rw [← found, (nodup_colorSet _).idxOf_getElem j inList, found]
  conv_rhs => rw [← List.map_id (qviMapClampColors colors)]
  exact List.map_congr_left place

end QuoVadis.Kernel
