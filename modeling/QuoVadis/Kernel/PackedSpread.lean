/-
# Kernel.PackedSpread -- the two mappers that only count

`qvi_map_packed` and `qvi_map_spread` read nothing but the two counts.  With
fewer sources than destinations both solve the problem the other way round and
invert the result, so what they owe their callers has two halves:

* `PackedBlocks`: consecutive blocks of sources per destination, or consecutive
  blocks of destinations per source (`qviMapPacked_packedBlocks`);
* `RoundRobin`: sources dealt to the destinations in turn, or destinations dealt
  to the sources (`qviMapSpread_roundRobin_iff`).

A count of zero is where they differ.  PACKED returns the empty map; SPREAD
takes a remainder by the zero unless both counts are zero, and a split over an
empty cut does hand it one (`mSplit_spread_onePu_stops`).
-/
import QuoVadis.Kernel.SplitOutcome

namespace QuoVadis.Kernel

open QuoVadis.Theory
open Std (ExtTreeMap ExtTreeSet)

set_option autoImplicit false

/-- The problem with sources and destinations exchanged. -/
def MapConfig.swapped (config : MapConfig) : MapConfig :=
  { config with nsrc := config.ndst, ndst := config.nsrc }

/-- The inversion of an assignment: a destination goes back to its one source. -/
theorem QviMap.Assigns.maps_invertMap {map : QviMap} {n : Nat} {f : Nat → Nat}
    (assigns : map.Assigns n f) {s d : Nat} : (invertMap map).Maps s d ↔ d < n ∧ f d = s := by
  rw [Kernel.maps_invertMap, assigns.maps_iff]

/-- Every destination of an inverted assignment has one source. -/
theorem QviMap.Assigns.existsUnique_invertMap {map : QviMap} {n : Nat} {f : Nat → Nat}
    (assigns : map.Assigns n f) {d : Nat} (below : d < n) : ∃! s, (invertMap map).Maps s d := by
  refine ⟨f d, assigns.maps_invertMap.2 ⟨below, rfl⟩, ?_⟩
  intro s maps
  exact (assigns.maps_invertMap.1 maps).2.symm

/-! ## PACKED -/

/-- A balanced block map in both directions. -/
structure PackedBlocks (config : MapConfig) (map : QviMap) : Prop where
  nothing : config.nsrc = 0 ∨ config.ndst = 0 → map = ∅
  /-- Consecutive sources share a destination; the larger blocks come first. -/
  blocks : 1 ≤ config.ndst → config.ndst ≤ config.nsrc →
    ∃ f : Nat → Nat, map.Assigns config.nsrc f ∧ MonotoneOn f (Set.Iio config.nsrc) ∧
      (∀ s < config.nsrc, f s < config.ndst) ∧
      ∀ d < config.ndst, (∃ s < config.nsrc, f s = d) ∧
        ((Finset.range config.nsrc).filter fun s => f s = d).card =
          config.nsrc / config.ndst + if d < config.nsrc % config.ndst then 1 else 0
  /-- Fewer sources than destinations: the map of the exchanged problem, backwards. -/
  converse : config.nsrc < config.ndst →
    ∃ exchanged, qviMapPacked config.swapped ∅ = .ok exchanged ∧
      ∀ s d, map.Maps s d ↔ exchanged.Maps d s
  owner : 1 ≤ config.nsrc → config.nsrc < config.ndst → ∀ d < config.ndst, ∃! s, map.Maps s d
  interval : 1 ≤ config.nsrc → config.nsrc < config.ndst → ∀ s < config.nsrc,
    ∃ first last, first < last ∧ last ≤ config.ndst ∧
      ∀ d, map.Maps s d ↔ first ≤ d ∧ d < last

section Packed

variable (config : MapConfig)

/-- With fewer sources the exchanged problem is solved and inverted. -/
theorem qviMapPacked_inverted (pos : 0 < config.nsrc) (few : config.nsrc < config.ndst) :
    ∃ exchanged, qviMapPacked config.swapped ∅ = .ok exchanged ∧
      exchanged.Assigns config.ndst (BalancedBlocks.blockOf config.ndst config.nsrc) ∧
      qviMapPacked config ∅ = .ok (invertMap exchanged) := by
  obtain ⟨exchanged, run, assigns⟩ := qviMapPacked_assigns config.swapped pos few.le
  refine ⟨exchanged, run, assigns, ?_⟩
  have straight : ¬ config.ndst < config.nsrc := by omega
  have busy : ¬ (config.ndst = 0 ∨ config.nsrc = 0) := by omega
  simp only [qviMapPacked, MapConfig.swapped, straight, decide_false, Bool.false_eq_true, if_false,
    busy, Except.ok.injEq] at run
  simp only [qviMapPacked, few, decide_true, if_true, busy, if_false, run]

end Packed

theorem packedBlocks_straight {config : MapConfig} {map : QviMap} (pos : 0 < config.ndst)
    (enough : config.ndst ≤ config.nsrc)
    (assigns : map.Assigns config.nsrc (BalancedBlocks.blockOf config.nsrc config.ndst)) :
    PackedBlocks config map where
  nothing := by omega
  blocks _ _ := by
    refine ⟨_, assigns, ?_, fun s below => (BalancedBlocks.blockOf_bounds pos below).1, ?_⟩
    · exact fun s below s' below' le => BalancedBlocks.blockOf_mono config.nsrc config.ndst le
    · intro d inside
      have card := BalancedBlocks.card_blockOf (n := config.nsrc) inside
      have some_ := BalancedBlocks.size_pos pos enough d
      rw [← card] at some_
      obtain ⟨s, member⟩ := Finset.card_pos.1 some_
      rw [Finset.mem_filter, Finset.mem_range] at member
      exact ⟨⟨s, member⟩, card⟩
  converse few := by omega
  owner _ few := by omega
  interval _ few := by omega

theorem packedBlocks_inverted {config : MapConfig} {exchanged : QviMap} (pos : 0 < config.nsrc)
    (few : config.nsrc < config.ndst) (run : qviMapPacked config.swapped ∅ = .ok exchanged)
    (assigns : exchanged.Assigns config.ndst
      (BalancedBlocks.blockOf config.ndst config.nsrc)) :
    PackedBlocks config (invertMap exchanged) where
  nothing := by omega
  blocks _ enough := by omega
  converse _ := ⟨exchanged, run, fun s d => maps_invertMap⟩
  owner _ _ d below := assigns.existsUnique_invertMap below
  interval _ _ s below := by
    -- the destinations of a source are its block
    have ends := BalancedBlocks.start_succ_le (n := config.ndst) below
    refine ⟨BalancedBlocks.start config.ndst config.nsrc s,
      BalancedBlocks.start config.ndst config.nsrc (s + 1), ?_, ends, fun d => ?_⟩
    · have := BalancedBlocks.size_pos pos few.le s
      rw [BalancedBlocks.start_succ]
      omega
    · rw [assigns.maps_invertMap]
      constructor
      · rintro ⟨inside, rfl⟩
        exact (BalancedBlocks.blockOf_bounds pos inside).2
      · intro bounds
        exact ⟨by omega, BalancedBlocks.blockOf_eq below bounds⟩

/-- **PACKED is a balanced block map**, for all counts. -/
theorem qviMapPacked_packedBlocks (config : MapConfig) :
    ∃ map, qviMapPacked config ∅ = .ok map ∧ PackedBlocks config map := by
  by_cases none_ : config.nsrc = 0 ∨ config.ndst = 0
  · refine ⟨∅, qviMapPacked_nothing config none_ ∅, fun _ => rfl, by omega, fun few => ?_, by omega,
      by omega⟩
    refine ⟨∅, qviMapPacked_nothing config.swapped none_.symm ∅, fun s d => ?_⟩
    simp
  · by_cases few : config.nsrc < config.ndst
    · obtain ⟨exchanged, run, assigns, inverted⟩ := qviMapPacked_inverted config (by omega) few
      exact ⟨_, inverted, packedBlocks_inverted (by omega) few run assigns⟩
    · obtain ⟨map, run, assigns⟩ := qviMapPacked_assigns config (by omega) (by omega)
      exact ⟨map, run, packedBlocks_straight (by omega) (by omega) assigns⟩

/-! ## SPREAD -/

/-- What dealing in turn should give. -/
structure RoundRobin (config : MapConfig) (map : QviMap) : Prop where
  nothing : config.nsrc = 0 ∨ config.ndst = 0 → map = ∅
  many : 1 ≤ config.ndst → config.ndst ≤ config.nsrc →
    map.Assigns config.nsrc fun s => s % config.ndst
  few : 1 ≤ config.nsrc → config.nsrc < config.ndst →
    ∀ s d, map.Maps s d ↔ s < config.nsrc ∧ d < config.ndst ∧ d % config.nsrc = s
  once : 1 ≤ config.nsrc → config.nsrc < config.ndst → ∀ d < config.ndst, ∃! s, map.Maps s d

section Spread

variable (config : MapConfig)

theorem qviMapSpread_inverted (pos : 0 < config.nsrc) (few : config.nsrc < config.ndst) :
    ∃ exchanged : QviMap, exchanged.Assigns config.ndst (fun d => d % config.nsrc) ∧
      qviMapSpread config ∅ = .ok (invertMap exchanged) := by
  obtain ⟨exchanged, run, assigns⟩ := spread_loop pos config.ndst
  refine ⟨exchanged, assigns, ?_⟩
  simp only [qviMapSpread, few, decide_true, if_true]
  rw [run]
  rfl

/-- Without sources the destinations are dealt to nobody. -/
theorem qviMapSpread_trap_inverted (none_ : config.nsrc = 0) (some_ : 0 < config.ndst)
    (map : QviMap) : qviMapSpread config map = .error .trap := by
  obtain ⟨n, same⟩ : ∃ n, config.ndst = n + 1 := ⟨config.ndst - 1, by omega⟩
  have few : config.nsrc < config.ndst := by omega
  simp only [qviMapSpread, few, decide_true, if_true]
  rw [same, none_, List.range_succ_eq_map, List.foldlM_cons]
  rfl

theorem qviMapSpread_nothing (noSrc : config.nsrc = 0) (noDst : config.ndst = 0) :
    qviMapSpread config ∅ = .ok ∅ := by
  simp only [qviMapSpread, noSrc, noDst]
  rfl

end Spread

/-- **When SPREAD deals in turn**: unless exactly one of the counts is zero, where it
divides by that zero. -/
theorem qviMapSpread_roundRobin_iff (config : MapConfig) :
    (∃ map, qviMapSpread config ∅ = .ok map ∧ RoundRobin config map) ↔
      (config.nsrc = 0 ↔ config.ndst = 0) := by
  constructor
  · rintro ⟨map, run, -⟩
    by_contra one
    have stops : qviMapSpread config ∅ = .error .trap := by
      by_cases noDst : config.ndst = 0
      · exact qviMapSpread_trap config noDst (by omega) ∅
      · exact qviMapSpread_trap_inverted config (by omega) (by omega) ∅
    rw [stops] at run
    cases run
  · intro both
    by_cases noSrc : config.nsrc = 0
    · exact ⟨∅, qviMapSpread_nothing config noSrc (both.1 noSrc), fun _ => rfl, by omega, by omega,
        by omega⟩
    · by_cases few : config.nsrc < config.ndst
      · obtain ⟨exchanged, assigns, run⟩ := qviMapSpread_inverted config (by omega) few
        refine ⟨_, run, by omega, by omega, fun pos _ s d => ?_, fun _ _ d below =>
          assigns.existsUnique_invertMap below⟩
        rw [assigns.maps_invertMap]
        constructor
        · rintro ⟨below, rfl⟩
          exact ⟨Nat.mod_lt d pos, below, rfl⟩
        · rintro ⟨-, below, same⟩
          exact ⟨below, same⟩
      · obtain ⟨map, run, assigns⟩ := qviMapSpread_assigns config (by omega) (by omega)
        exact ⟨map, run, by omega, fun _ _ => assigns, by omega, by omega⟩

/-- Two tasks ask for their machine's one PU in two pieces, spread: the cut is empty,
and the mapper that the split hands its zero pieces divides by them. -/
theorem mSplit_spread_onePu_stops :
    ∃ config colors,
      (Hwsplit.prepared (.onePackage 1 []) 2 .last (.ofCpuset {0}) [splitSpread, splitSpread]
        [{0}, {0}]).cut.mDetermineMapping = .ok (colors, config) ∧
      config.mapFn = .spread ∧ config.nsrc = 2 ∧ config.ndst = 0 ∧
      qviMapSpread config ∅ = .error .trap ∧
      ¬ ∃ map, qviMapSpread config ∅ = .ok map ∧ RoundRobin config map := by
  have none_ : (Hwsplit.prepared (.onePackage 1 []) 2 .last (.ofCpuset {0})
      [splitSpread, splitSpread] [{0}, {0}]).pieces = [] :=
    Hwsplit.pieces_eq_nil_iff.2 (by decide)
  refine ⟨{ nsrc := 2, ndst := 0, mapFn := .spread }, [splitSpread, splitSpread], ?_, rfl, rfl, rfl,
    rfl, ?_⟩
  · rw [Hwsplit.mDetermineMapping_negative _ (by decide) (by decide)]
    rw [if_neg (by decide), if_neg (by decide), if_pos (by decide)]
    simp only [Hwsplit.cut, none_]
    rfl
  · rintro ⟨map, run, -⟩
    cases run

end QuoVadis.Kernel
