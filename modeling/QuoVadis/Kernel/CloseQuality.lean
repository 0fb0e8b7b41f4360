/-
# Kernel.CloseQuality -- how well CLOSE places the sources

Two measures of the close mapping.

* Balance: when no source can be told from another by its affinities, the sources
  fill the destinations in order, `ceil(n / m)` in each (`qviMapClose_inOrder`).  So
  the last destinations can stay idle (`qviMapClose_loads`).
* Affinity: a source keeps its affinity when it intersects a destination that is not
  overbooked, and at least half as many sources keep it as under any other
  assignment (`qviMapClose_affinity`).  It is a heuristic: an assignment in which
  everybody keeps it can be missed.
-/
import QuoVadis.Kernel.CloseMapping
import QuoVadis.Theory.Capacity
import Mathlib.GroupTheory.GroupAction.Ring

namespace QuoVadis.Kernel

open QuoVadis.Theory
open StableMarriageSolver

set_option autoImplicit false

variable {config : MapConfig}

/-! ## Balance -/

/-- All sources have the same affinities: for no destination, or for all. -/
def Indistinct (config : MapConfig) : Prop :=
  (∀ s < config.srcAffinities.length, ∀ d < config.dstAffinities.length,
    intersects config s d = false) ∨
  ∀ s < config.srcAffinities.length, ∀ d < config.dstAffinities.length, intersects config s d = true

instance (config : MapConfig) : Decidable (Indistinct config) :=
  inferInstanceAs (Decidable (_ ∨ _))

theorem Indistinct.same (alike : Indistinct config) {s s' d d' : Nat}
    (memS : s < config.srcAffinities.length) (memS' : s' < config.srcAffinities.length)
    (memD : d < config.dstAffinities.length) (memD' : d' < config.dstAffinities.length) :
    intersects config s d = intersects config s' d' := by
  rcases alike with none_ | all
  · rw [none_ s memS d memD, none_ s' memS' d' memD']
  · rw [all s memS d memD, all s' memS' d' memD']

/-- Every destination is wanted by as many. -/
theorem Indistinct.contention (alike : Indistinct config) {d d' : Nat}
    (memD : d < config.dstAffinities.length) (memD' : d' < config.dstAffinities.length) :
    contention config d = contention config d' := by
  unfold Kernel.contention
  congr 1
  refine Finset.filter_congr fun s member => ?_
  have memS := Finset.mem_range.1 member
  rw [alike.same memS memS memD memD']

/-- So a source goes by the numbers of the destinations. -/
theorem Indistinct.ranksAhead (alike : Indistinct config) {s d d' : Nat}
    (memS : s < config.srcAffinities.length) (memD : d < config.dstAffinities.length)
    (before : d' < d) : RanksAhead config s d' d :=
  Or.inr ⟨alike.same memS memS (before.trans memD) memD,
    Or.inr ⟨alike.contention (before.trans memD) memD, before⟩⟩

/-- And a destination by the numbers of the sources. -/
theorem Indistinct.lt_of_outranks (alike : Indistinct config) {d r s : Nat}
    (memR : r < config.srcAffinities.length) (memS : s < config.srcAffinities.length)
    (memD : d < config.dstAffinities.length) (outranks : Outranks config d r s) : r < s := by
  have same := alike.same memR memS memD memD
  rcases outranks with ⟨yes, no⟩ | ⟨-, less⟩
  · exact absurd (same.symm.trans yes) no
  · exact less

/-- **Indistinct sources fill the destinations in order.** -/
theorem qviMapClose_inOrder (alike : Indistinct config) (pos : 0 < config.dstAffinities.length)
    (map : QviMap) :
    ∃ result, qviMapClose config map = .ok result ∧
      result.Assigns config.srcAffinities.length
        fun s => s / (config.srcAffinities.length ⌈/⌉ config.dstAffinities.length) := by
  obtain ⟨st, -, solved, result⟩ := qviMapClose_solved config pos map
  refine ⟨_, result, (getMatching_assigns solved.placed).congr fun s memS => ?_⟩
  refine (Capacity.eq_div_of_filled (fun d => ?_) (fun s memS d before => ?_) memS).symm
  · rw [← qviMaxiperk_eq_ceilDiv]
    exact card_destination solved.inv solved.placed d
  · have own : destinationOf st s < config.dstAffinities.length := destinationOf_lt solved memS
    have memD := before.trans own
    have ahead := alike.ranksAhead memS own before
    refine ⟨full_of_ranksAhead solved memS memD ahead, ?_⟩
    rintro r memR rfl
    exact alike.lt_of_outranks memR memS memD (outranks_of_ranksAhead solved memS memR ahead)

/-- How many sources a destination has. -/
def loadOf (config : MapConfig) (f : Nat → Nat) (d : Nat) : Nat :=
  ((Finset.range config.srcAffinities.length).filter fun s => f s = d).card

/-- **The loads under indistinguishable affinities**: the destinations are filled in
order. -/
theorem qviMapClose_loads (config : MapConfig) (alike : Indistinct config)
    (pos : 0 < config.dstAffinities.length) (map : QviMap) (n m : Nat)
    (sources : config.srcAffinities.length = n) (dests : config.dstAffinities.length = m) :
    ∃ result f, qviMapClose config map = .ok result ∧ result.Assigns n f ∧
      (∀ s < n, f s = s / (n ⌈/⌉ m)) ∧
      (∀ d < m, loadOf config f d = min (n ⌈/⌉ m) (n - d * (n ⌈/⌉ m))) ∧
      ((∀ d < m, loadOf config f d = n / m ∨ loadOf config f d = n ⌈/⌉ m) ↔
        n ≤ m ∨ m ∣ n ∨ m ∣ n + 1) ∧
      ((∃ d < m, ∃ d' < m, loadOf config f d = 0 ∧ 2 ≤ loadOf config f d') ↔
        m < n ∧ n ≤ (m - 1) * (n ⌈/⌉ m)) := by
  subst sources dests
  obtain ⟨result, run, assigns⟩ := qviMapClose_inOrder alike pos map
  have loads : ∀ d, loadOf config (fun s =>
      s / (config.srcAffinities.length ⌈/⌉ config.dstAffinities.length)) d =
        Capacity.load config.srcAffinities.length
          (config.srcAffinities.length ⌈/⌉ config.dstAffinities.length) d := by
    intro d
    unfold loadOf
    by_cases none_ : config.srcAffinities.length = 0
    · simp [none_, Capacity.load]
    · exact Capacity.card_div (Nat.div_pos (by omega) pos) d
  refine ⟨result, _, run, assigns, fun s _ => rfl, fun d _ => loads d, ?_, ?_⟩
  · simp only [loads]
    exact Capacity.load_balanced_iff pos
  · simp only [loads]
    exact Capacity.load_idle_iff pos

/-- Four sources that run anywhere on three PUs. -/
def fourOnThree : MapConfig where
  srcAffinities := [{0, 1, 2}, {0, 1, 2}, {0, 1, 2}, {0, 1, 2}]
  dstAffinities := [{0}, {1}, {2}]
  mapFn := .close

theorem qviMapClose_loads_fourOnThree :
    Indistinct fourOnThree ∧
      ∃ result f, qviMapClose fourOnThree ∅ = .ok result ∧ result.Assigns 4 f ∧
        loadOf fourOnThree f 1 = 2 := by
  have alike : Indistinct fourOnThree := by decide
  obtain ⟨result, f, run, assigns, -, loads, -⟩ :=
    qviMapClose_loads fourOnThree alike (by decide) ∅ 4 3 rfl rfl
  exact ⟨alike, result, f, run, assigns, loads 1 (by decide)⟩

/-- Two of the three PUs get two sources each, and the third none. -/
theorem qviMapClose_fourOnThree_idle :
    Indistinct fourOnThree ∧
      ∃ result f, qviMapClose fourOnThree ∅ = .ok result ∧ result.Assigns 4 f ∧
        loadOf fourOnThree f 0 = 2 ∧ loadOf fourOnThree f 1 = 2 ∧ loadOf fourOnThree f 2 = 0 ∧
        ¬ ∀ d < 3, loadOf fourOnThree f d = 4 / 3 ∨ loadOf fourOnThree f d = 4 ⌈/⌉ 3 := by
  have alike : Indistinct fourOnThree := by decide
  obtain ⟨result, run, assigns⟩ := qviMapClose_inOrder alike (by decide) ∅
  refine ⟨alike, result, _, run, assigns, by decide, by decide, by decide, fun balanced => ?_⟩
  exact absurd (balanced 2 (by decide)) (by decide)

/-! ## Affinity -/

/-- An assignment with at most `ceil(n / m)` sources on a destination, in which every
source that intersects a destination is on one that it intersects. -/
structure Preserves (config : MapConfig) (f : Nat → Nat) : Prop where
  below : ∀ s < config.srcAffinities.length, f s < config.dstAffinities.length
  room : ∀ d, loadOf config f d ≤ config.srcAffinities.length ⌈/⌉ config.dstAffinities.length
  affine : ∀ s < config.srcAffinities.length,
    (∃ d < config.dstAffinities.length, intersects config s d) → intersects config s (f s)

/-- How many sources are on a destination they intersect. -/
def affineCount (config : MapConfig) (f : Nat → Nat) : Nat :=
  ((Finset.range config.srcAffinities.length).filter fun s => intersects config s (f s)).card

section Solved

variable {pos : 0 < (closeSolver config).ndsts} {st : Matching}

/-- Who intersects a destination that is not overbooked keeps an affinity. -/
theorem intersects_of_notOverbooked
    (solved : (closeSolver config).Solved (closeSolver_bounded config) pos st) {s d : Nat}
    (memS : s < config.srcAffinities.length) (memD : d < config.dstAffinities.length)
    (meets : intersects config s d = true)
    (enough : contention config d ≤ config.srcAffinities.length ⌈/⌉ config.dstAffinities.length) :
    intersects config s (destinationOf st s) = true := by
  by_contra misses
  obtain ⟨full, holders⟩ := full_of_misses solved memS misses memD meets
  -- the destination is full of others that want it, and this source wants it too
  have more : ((Finset.range config.srcAffinities.length).filter fun r =>
      destinationOf st r = d).card < contention config d := by
    refine Finset.card_lt_card (Finset.ssubset_iff_of_subset ?_ |>.2 ⟨s, ?_, ?_⟩)
    · intro r member
      rw [Finset.mem_filter, Finset.mem_range] at member
      exact Finset.mem_filter.2 ⟨Finset.mem_range.2 member.1, (holders r member.1 member.2).2⟩
    · exact Finset.mem_filter.2 ⟨Finset.mem_range.2 memS, meets⟩
    · intro member
      exact Nat.lt_irrefl s (holders s memS (Finset.mem_filter.1 member).2).1
  unfold Full at full
  omega

/-- Half as many sources as in any assignment keep an affinity. -/
theorem affineCount_le_two_mul
    (solved : (closeSolver config).Solved (closeSolver_bounded config) pos st) {g : Nat → Nat}
    (room : ∀ d, loadOf config g d ≤ config.srcAffinities.length ⌈/⌉ config.dstAffinities.length) :
    affineCount config g ≤ 2 * affineCount config (destinationOf st) := by
  refine Capacity.card_le_two_mul (f := destinationOf st) (Finset.filter_subset _ _) room
    fun s best notGood => ?_
  rw [Finset.mem_filter, Finset.mem_range] at best
  obtain ⟨memS, meets⟩ := best
  have misses : ¬ intersects config s (destinationOf st s) := fun affine =>
    notGood (Finset.mem_filter.2 ⟨Finset.mem_range.2 memS, affine⟩)
  obtain ⟨full, holders⟩ := full_of_misses solved memS misses (intersects_dst_lt meets) meets
  rw [← full]
  refine Finset.card_le_card fun r member => ?_
  rw [Finset.mem_filter, Finset.mem_range] at member
  obtain ⟨memR, there⟩ := member
  refine Finset.mem_filter.2 ⟨Finset.mem_filter.2 ⟨Finset.mem_range.2 memR, ?_⟩, there⟩
  rw [there]
  exact (holders r memR there).2

end Solved

/-- **How well affinity is preserved.** -/
theorem qviMapClose_affinity (config : MapConfig) (pos : 0 < config.dstAffinities.length)
    (map : QviMap) :
    ∃ result f, qviMapClose config map = .ok result ∧
      result.Assigns config.srcAffinities.length f ∧
      (∀ s < config.srcAffinities.length, ∀ d < config.dstAffinities.length,
        intersects config s d →
          contention config d ≤ config.srcAffinities.length ⌈/⌉ config.dstAffinities.length →
            intersects config s (f s)) ∧
      (∀ g, (∀ d, loadOf config g d ≤
          config.srcAffinities.length ⌈/⌉ config.dstAffinities.length) →
        affineCount config g ≤ 2 * affineCount config f) ∧
      ((∃ g, Preserves config g) →
        ((Finset.range config.srcAffinities.length).filter fun s =>
          ∃ d < config.dstAffinities.length, intersects config s d).card ≤
            2 * affineCount config f) := by
  obtain ⟨st, -, solved, result⟩ := qviMapClose_solved config pos map
  refine ⟨_, destinationOf st, result, getMatching_assigns solved.placed, ?_, ?_, ?_⟩
  · intro s memS d memD meets enough
    exact intersects_of_notOverbooked solved memS memD meets enough
  · intro g room
    exact affineCount_le_two_mul solved room
  · rintro ⟨g, preserves⟩
    refine le_trans (Finset.card_le_card fun s member => ?_)
      (affineCount_le_two_mul solved preserves.room)
    rw [Finset.mem_filter, Finset.mem_range] at member
    exact Finset.mem_filter.2 ⟨Finset.mem_range.2 member.1, preserves.affine s member.1 member.2⟩

/-- Three sources on three PUs: the first runs on two of them, the second only on the
first of these. -/
def chainOfThree : MapConfig where
  srcAffinities := [{0, 1}, {0}, {1, 2}]
  dstAffinities := [{0}, {1}, {2}]
  mapFn := .close

/-- The last source keeps its affinity: nobody else wants the last PU. -/
theorem qviMapClose_affinity_chainOfThree :
    ∃ result f, qviMapClose chainOfThree ∅ = .ok result ∧ result.Assigns 3 f ∧
      intersects chainOfThree 2 (f 2) := by
  obtain ⟨result, f, run, assigns, kept, -⟩ := qviMapClose_affinity chainOfThree (by decide) ∅
  exact ⟨result, f, run, assigns, kept 2 (by decide) 2 (by decide) (by decide) (by decide)⟩

/-- A PU for each source that it runs on. -/
def chainAssignment (s : Nat) : Nat := if s = 0 then 1 else if s = 1 then 0 else 2

/-- The first source takes the only PU the second runs on. -/
theorem qviMapClose_chainOfThree_misses :
    Preserves chainOfThree chainAssignment ∧
      ∀ result f, qviMapClose chainOfThree ∅ = .ok result → result.Assigns 3 f →
        ¬ Preserves chainOfThree f := by
  constructor
  · have injective : ∀ a < 3, ∀ b < 3, chainAssignment a = chainAssignment b → a = b := by decide
    refine ⟨by decide, fun d => Finset.card_le_one.2 fun a memA b memB => ?_, by decide⟩
    rw [Finset.mem_filter, Finset.mem_range] at memA memB
    exact injective a memA.1 b memB.1 (memA.2.trans memB.2.symm)
  · intro result f run assigns preserves
    have matched : (qviMapClose chainOfThree ∅).map (fun map => map[1]?.map fun ds => ds.toList) =
        .ok (some [1]) := by decide +kernel
    obtain ⟨result', run', second⟩ := map_ok matched
    obtain rfl := Except.ok.inj (run.symm.trans run')
    rw [assigns 1, if_pos (by decide), Option.map_some, QviMap.toList_singleton] at second
    have placed : f 1 = 1 := by simpa using second
    have affine := preserves.affine 1 (by decide) ⟨0, by decide, by decide⟩
    rw [placed] at affine
    exact absurd affine (by decide)

end QuoVadis.Kernel
