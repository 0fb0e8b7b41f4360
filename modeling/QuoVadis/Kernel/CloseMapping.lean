/-
# Kernel.CloseMapping -- what a caller of `qvi_map_close` can rely on

The solver works on slots; a caller sees destinations.  This module states the
guarantees on destinations, in terms of the bitmaps the caller handed in:

* a source ranks the destinations it intersects first, then the less contended,
  then the lower numbered (`RanksAhead`);
* a destination ranks the sources it intersects first, then the lower numbered
  (`Outranks`).

The two preference lists of the solver are these orders (`pairwise_srcPrefs`,
`outranks_of_rank_lt`), so that stability of the slots becomes

* `qviMapClose_total`: every source gets one destination, no destination gets
  more than its share, and only a mapping without destinations throws;
* `qviMapClose_full`: whatever a source ranks ahead of its destination is full of
  sources that outrank it;
* `qviMapClose_best`: no stable assignment to slots is better for any source, and
  no order of the proposals ends in another one.
-/
import QuoVadis.Kernel.StableMarriage
import Mathlib.Algebra.Order.Floor.Div
import Mathlib.Data.Prod.Lex

namespace QuoVadis.Kernel

open QuoVadis.Theory
open Std (ExtTreeMap ExtTreeSet)
open StableMarriageSolver

set_option autoImplicit false

/-! ## Affinity, contention and the two orders -/

variable (config : MapConfig)

/-- Whether the bitmaps of a source and a destination intersect. -/
def intersects (s d : Nat) : Bool :=
  match config.srcAffinities[s]?, config.dstAffinities[d]? with
  | some a, some b => !decide (Disjoint a b)
  | _, _ => false

/-- How many sources want a destination. -/
def contention (d : Nat) : Nat :=
  ((Finset.range config.srcAffinities.length).filter fun s => intersects config s d).card

/-- `s` ranks `d'` strictly ahead of `d`. -/
def RanksAhead (s d' d : Nat) : Prop :=
  (intersects config s d' ∧ ¬ intersects config s d) ∨
    (intersects config s d' = intersects config s d ∧
      (contention config d' < contention config d ∨
        (contention config d' = contention config d ∧ d' < d)))

/-- At `d`, `r` is ranked ahead of `s`. -/
def Outranks (d r s : Nat) : Prop :=
  (intersects config r d ∧ ¬ intersects config s d) ∨
    (intersects config r d = intersects config s d ∧ r < s)

variable {config}

theorem ranksAhead_irrefl (s d : Nat) : ¬ RanksAhead config s d d := by
  rintro (⟨yes, no⟩ | ⟨-, less | ⟨-, less⟩⟩)
  · exact no yes
  · exact Nat.lt_irrefl _ less
  · exact Nat.lt_irrefl _ less

theorem maps_iff_intersects {s d : Nat} :
    (closeSolver config).affinities.Maps s d ↔ intersects config s d = true := by
  change (qviMapCalcAffinities config.srcAffinities config.dstAffinities).Maps s d ↔ _
  rw [maps_calcAffinities]
  unfold intersects
  cases inSrc : config.srcAffinities[s]? with
  | none => simp
  | some a => cases inDst : config.dstAffinities[d]? <;> simp

theorem intersects_lt {s d : Nat} (meets : intersects config s d = true) :
    s < config.srcAffinities.length := by
  obtain ⟨a, b, inSrc, -, -⟩ := maps_calcAffinities.1 (maps_iff_intersects.2 meets)
  exact (List.getElem?_eq_some_iff.1 inSrc).1

theorem intersects_dst_lt {s d : Nat} (meets : intersects config s d = true) :
    d < config.dstAffinities.length := by
  obtain ⟨a, b, -, inDst, -⟩ := maps_calcAffinities.1 (maps_iff_intersects.2 meets)
  exact (List.getElem?_eq_some_iff.1 inDst).1

/-- What the solver reads in the affinities of a source that it finds there. -/
theorem mem_affinities {s d : Nat} {ds : ExtTreeSet Nat}
    (found : (closeSolver config).affinities[s]? = some ds) :
    d ∈ ds ↔ intersects config s d = true := by
  rw [← maps_iff_intersects]
  constructor
  · intro member
    exact ⟨ds, found, member⟩
  · rintro ⟨ds', found', member⟩
    rw [found] at found'
    cases found'
    exact member

theorem affinities_nonempty {s : Nat} {ds : ExtTreeSet Nat}
    (found : (closeSolver config).affinities[s]? = some ds) : ds.isEmpty = false :=
  calcAffinities_noEmptySet _ _ s ds found

/-- A source the affinities do not list intersects nothing. -/
theorem not_intersects {s : Nat} (absent : (closeSolver config).affinities[s]? = none) (d : Nat) :
    intersects config s d = false := by
  rw [← Bool.not_eq_true, ← maps_iff_intersects]
  rintro ⟨ds, found, -⟩
  rw [absent] at found
  simp at found

/-- The contention the solver counts. -/
theorem mCalculateDstContention_eq (d : Nat) :
    (closeSolver config).mCalculateDstContention d = contention config d := by
  let wants : Nat × ExtTreeSet Nat → Bool := fun entry => entry.2.contains d
  have counted : (closeSolver config).mCalculateDstContention d =
      (closeSolver config).affinities.toList.countP wants := by
    unfold mCalculateDstContention
    refine List.countP_congr fun entry member => ?_
    have found := ExtTreeMap.mem_toList_iff_getElem?_eq_some.1 member
    simp [wants, affinities_nonempty found]
  have distinct : (((closeSolver config).affinities.toList.filter wants).map Prod.fst).Nodup := by
    have keys : ((closeSolver config).affinities.toList.map Prod.fst).Nodup := by
      rw [List.nodup_iff_pairwise_ne, List.pairwise_map]
      refine (ExtTreeMap.ordered_keys_toList (t := (closeSolver config).affinities)).imp ?_
      intro a b less same
      rw [same, Nat.compare_eq_lt] at less
      omega
    exact keys.sublist (List.filter_sublist.map _)
  rw [counted, List.countP_eq_length_filter, ← List.length_map Prod.fst,
    ← List.toFinset_card_of_nodup distinct, contention]
  congr 1
  ext s
  rw [List.mem_toFinset, List.mem_map, Finset.mem_filter, Finset.mem_range]
  constructor
  · rintro ⟨⟨s', ds⟩, member, rfl⟩
    obtain ⟨inMap, wanted⟩ := List.mem_filter.1 member
    have found := ExtTreeMap.mem_toList_iff_getElem?_eq_some.1 inMap
    have meets := (mem_affinities found).1 (ExtTreeSet.contains_iff_mem.1 wanted)
    exact ⟨intersects_lt meets, meets⟩
  · rintro ⟨-, meets⟩
    obtain ⟨ds, found, member⟩ := maps_iff_intersects.2 meets
    refine ⟨(s, ds), List.mem_filter.2 ⟨?_, ExtTreeSet.contains_iff_mem.2 member⟩, rfl⟩
    exact ExtTreeMap.mem_toList_iff_getElem?_eq_some.2 found

/-! ## The preference lists -/

/-- The comparison of the solver, as the order of a key. -/
theorem preferenceSorter_iff (a b : Nat) :
    (closeSolver config).preferenceSorter a b = true ↔
      toLex (contention config a, a) < toLex (contention config b, b) := by
  rw [Prod.Lex.toLex_lt_toLex]
  simp only [preferenceSorter, mCalculateDstContention_eq]
  by_cases same : contention config a = contention config b
  · simp [same]
  · simp [same]

/-- Among destinations it treats alike, a source lists none after one it ranks
behind. -/
theorem pairwise_sorted (s : Nat) {dests : List Nat} {meets : Bool}
    (alike : ∀ d ∈ dests, intersects config s d = meets) :
    (stdSort (closeSolver config).preferenceSorter dests).Pairwise
      fun d d' => ¬ RanksAhead config s d' d := by
  refine (stdSort_pairwise preferenceSorter_iff dests).imp_of_mem ?_
  intro d d' memD memD' ordered ahead
  have sameD := alike d (mem_stdSort.1 memD)
  have sameD' := alike d' (mem_stdSort.1 memD')
  rw [Prod.Lex.toLex_le_toLex] at ordered
  rcases ahead with ⟨yes, no⟩ | ⟨-, less⟩
  · rw [sameD'] at yes
    rw [sameD] at no
    exact no yes
  · omega

theorem pairwise_destOrder {s : Nat} {affinities : ExtTreeSet Nat}
    (affine : ∀ d, d ∈ affinities ↔ intersects config s d = true) :
    ((closeSolver config).destOrder affinities false).Pairwise
      fun d d' => ¬ RanksAhead config s d' d := by
  have meets : ∀ d ∈ affinities.toList, intersects config s d = true := by
    intro d member
    exact (affine d).1 (ExtTreeSet.mem_toList.1 member)
  have misses : ∀ d ∈ (List.range (closeSolver config).ndsts).filter
      (fun dst => !affinities.contains dst), intersects config s d = false := by
    intro d member
    have absent := (List.mem_filter.1 member).2
    rw [Bool.not_eq_true', ← Bool.not_eq_true, ExtTreeSet.contains_iff_mem, affine] at absent
    simpa using absent
  unfold destOrder
  rw [List.pairwise_append]
  refine ⟨pairwise_sorted s meets, ?_, ?_⟩
  · split
    · exact pairwise_sorted s misses
    · exact List.Pairwise.nil
  · intro d memD d' memD' ahead
    split at memD'
    · -- affinity destinations come before the others
      have yes := meets d (mem_stdSort.1 memD)
      have no := misses d' (mem_stdSort.1 memD')
      rcases ahead with ⟨yes', -⟩ | ⟨same, -⟩
      · rw [no] at yes'
        exact absurd yes' (by simp)
      · rw [yes, no] at same
        simp at same
    · simp at memD'

/-- A source lists no slot after one of a destination it ranks behind. -/
theorem pairwise_srcPrefs (s : Nat) :
    ((closeSolver config).srcPrefs s).Pairwise
      fun slot slot' => ¬ RanksAhead config s slot'.destination slot.destination := by
  obtain ⟨affinities, eq, affine⟩ : ∃ affinities,
      (closeSolver config).srcPrefs s = (closeSolver config).mBuildSrcPrefs affinities false ∧
        ∀ d, d ∈ affinities ↔ intersects config s d = true := by
    unfold srcPrefs
    cases found : (closeSolver config).affinities[s]? with
    | none => exact ⟨∅, rfl, fun d => by simp [not_intersects found d]⟩
    | some ds => exact ⟨ds, by simp [affinities_nonempty found], fun d => mem_affinities found⟩
  rw [eq, mBuildSrcPrefs_eq, List.pairwise_flatMap]
  constructor
  · intro d _
    refine List.pairwise_of_forall_mem_list fun slot memSlot slot' memSlot' => ?_
    rw [(mem_slotsOf.1 memSlot).1, (mem_slotsOf.1 memSlot').1]
    exact ranksAhead_irrefl s d
  · refine (pairwise_destOrder affine).imp fun {d d'} notAhead slot memSlot slot' memSlot' => ?_
    rw [(mem_slotsOf.1 memSlot).1, (mem_slotsOf.1 memSlot').1]
    exact notAhead

/-- The slots of a destination that is ranked ahead come first. -/
theorem index_lt_of_ranksAhead {s i j : Nat} {slot slot' : Slot}
    (here : ((closeSolver config).srcPrefs s)[j]? = some slot)
    (there : ((closeSolver config).srcPrefs s)[i]? = some slot')
    (ahead : RanksAhead config s slot'.destination slot.destination) : i < j := by
  obtain ⟨boundJ, atJ⟩ := List.getElem?_eq_some_iff.1 here
  obtain ⟨boundI, atI⟩ := List.getElem?_eq_some_iff.1 there
  rcases Nat.lt_trichotomy i j with before | same | after
  · exact before
  · subst same
    rw [← atI, ← atJ] at ahead
    exact absurd ahead (ranksAhead_irrefl _ _)
  · have sorted : ((closeSolver config).srcPrefs s).Pairwise
        fun slot slot' => ¬ RanksAhead config s slot'.destination slot.destination :=
      pairwise_srcPrefs s
    have behind := List.pairwise_iff_getElem.1 sorted j i boundJ boundI after
    rw [atI, atJ] at behind
    exact absurd ahead behind

theorem hasAffinity_eq (slot : Slot) (s : Nat) :
    (closeSolver config).hasAffinity slot s = intersects config s slot.destination := by
  unfold hasAffinity
  cases found : (closeSolver config).affinities[s]? with
  | none => exact (not_intersects found _).symm
  | some ds =>
      rw [Bool.eq_iff_iff, ← mem_affinities found]
      simp [affinities_nonempty found]

/-- A slot's list is in the order of the destination. -/
theorem pairwise_slotPreferences (slot : Slot) :
    ((closeSolver config).mBuildSlotPreferences slot).Pairwise
      fun r s => Outranks config slot.destination r s := by
  have sorted : ∀ (p : Nat → Bool), (stdSort (fun a b => decide (a < b))
      ((List.range (closeSolver config).nsrcs).filter p)).Pairwise (· < ·) := by
    intro p
    have byNumber : (stdSort (fun a b => decide (a < b))
        ((List.range (closeSolver config).nsrcs).filter p)).Pairwise fun a b => id a ≤ id b :=
      stdSort_pairwise (by simp) _
    have distinct : (stdSort (fun a b => decide (a < b))
        ((List.range (closeSolver config).nsrcs).filter p)).Nodup :=
      (stdSort_perm _ _).nodup_iff.2 (List.nodup_range.filter _)
    exact (byNumber.and distinct).imp fun {a b} ⟨le, ne⟩ => lt_of_le_of_ne le ne
  have mem : ∀ {p : Nat → Bool} {x : Nat}, x ∈ stdSort (fun a b => decide (a < b))
      ((List.range (closeSolver config).nsrcs).filter p) → p x = true := by
    intro p x member
    exact (List.mem_filter.1 (mem_stdSort.1 member)).2
  simp only [mBuildSlotPreferences, hasAffinity_eq]
  rw [List.pairwise_append]
  refine ⟨(sorted _).imp_of_mem ?_, (sorted _).imp_of_mem ?_, ?_⟩
  · intro r s memR memS less
    exact Or.inr ⟨(mem memR).trans (mem memS).symm, less⟩
  · intro r s memR memS less
    have same := (mem memR).trans (mem memS).symm
    exact Or.inr ⟨by simpa using same, less⟩
  · intro r memR s memS
    have yes := mem memR
    have no := mem memS
    exact Or.inl ⟨yes, by simpa using no⟩

theorem outranks_of_rank_lt {slot : Slot} {r s : Nat} (memS : s < (closeSolver config).nsrcs)
    (better : (closeSolver config).rank slot r < (closeSolver config).rank slot s) :
    Outranks config slot.destination r s := by
  unfold rank at better
  have boundS := List.idxOf_lt_length_of_mem (mem_slotPreferences slot memS)
  have boundR := better.trans boundS
  have sorted : ((closeSolver config).mBuildSlotPreferences slot).Pairwise
      fun r s => Outranks config slot.destination r s :=
    pairwise_slotPreferences slot
  have order := List.pairwise_iff_getElem.1 sorted _ _ boundR boundS better
  rwa [List.getElem_idxOf, List.getElem_idxOf] at order

/-! ## Everyone is placed -/

theorem qviMaxiperk_eq_ceilDiv (i k : Nat) : qviMaxiperk i k = i ⌈/⌉ k := by
  unfold qviMaxiperk
  split
  · rename_i zero
    rw [zero, ceilDiv_zero]
  · rfl

/-- Nothing to map. -/
theorem qviMapClose_nothing (none_ : config.srcAffinities = []) (map : QviMap) :
    qviMapClose config map = .ok ∅ := by
  simp [qviMapClose, solveApMapping, none_, solve, solveLoop, fuel, stable, getMatching, bind,
    Except.bind, pure, Except.pure]

/-- **The close mapping is total.**  With a destination, or nothing to map, every
source gets exactly one destination and no destination more than its share; it
throws exactly when there are sources and no destination. -/
theorem qviMapClose_total (config : MapConfig) (map : QviMap) :
    (0 < config.dstAffinities.length ∨ config.srcAffinities.length = 0 →
      ∃ result f, qviMapClose config map = .ok result ∧
        result.Assigns config.srcAffinities.length f ∧
        (∀ s < config.srcAffinities.length, f s < config.dstAffinities.length) ∧
        ∀ d, ((Finset.range config.srcAffinities.length).filter fun s => f s = d).card ≤
          config.srcAffinities.length ⌈/⌉ config.dstAffinities.length) ∧
      (qviMapClose config map = .error (.thrown .errNotSupported) ↔
        config.dstAffinities.length = 0 ∧ 0 < config.srcAffinities.length) := by
  refine ⟨?_, ?_, ?_⟩
  · rintro (pos | none_)
    · simp only [← qviMaxiperk_eq_ceilDiv]
      exact qviMapClose_assigns config pos map
    · refine ⟨∅, id, qviMapClose_nothing (List.length_eq_zero_iff.1 none_) map, ?_, ?_, ?_⟩
      · rw [none_]
        exact QviMap.assigns_zero _
      · intro s below
        omega
      · intro d
        simp [none_]
  · intro throws
    constructor
    · by_contra some_
      obtain ⟨result, f, ok, -⟩ := qviMapClose_assigns config (Nat.pos_of_ne_zero some_) map
      rw [ok] at throws
      simp at throws
    · by_contra none_
      rw [qviMapClose_nothing (List.length_eq_zero_iff.1 (by omega)) map] at throws
      simp at throws
  · rintro ⟨none_, some_⟩
    exact qviMapClose_throws (List.length_eq_zero_iff.1 none_) some_ map

/-! ## Unique destinations -/

/-- **`qvi_map_uniq` keeps a greedy maximal injective restriction**: every source in
the result has one of its destinations, and no two have the same; a source is left out
only if smaller ones have taken all of its destinations; and a second pass changes
nothing.  Neither does a first one on a close mapping with a destination for every
source. -/
theorem qviMapUniq_greedy (map : QviMap) :
    (∀ s ds, (qviMapUniq map)[s]? = some ds → ∃ d, ds = {d} ∧ map.Maps s d) ∧
    (∀ s s' d, (qviMapUniq map).Maps s d → (qviMapUniq map).Maps s' d → s = s') ∧
    (∀ (s : Nat) (dsts : ExtTreeSet Nat), map[s]? = some dsts → (qviMapUniq map)[s]? = none →
      ∀ d ∈ dsts, ∃ s' < s, (qviMapUniq map).Maps s' d) ∧
    qviMapUniq (qviMapUniq map) = qviMapUniq map ∧
    ∀ (config : MapConfig) (before result : QviMap), 1 ≤ config.dstAffinities.length →
      config.srcAffinities.length ≤ config.dstAffinities.length →
      qviMapClose config before = .ok result → qviMapUniq result = result := by
  have uniq := qviMapUniq_uniq map
  refine ⟨uniq.one, uniq.injective, uniq.missing, qviMapUniq_of_unique ?_ uniq.injective, ?_⟩
  · intro s ds found
    obtain ⟨d, only, -⟩ := uniq.one s ds found
    exact ⟨d, only⟩
  · intro config before result pos enough run
    exact qviMapUniq_close pos enough run

/-! ## Stability -/

/-- A destination has all the sources it can take. -/
def Full (config : MapConfig) (f : Nat → Nat) (d : Nat) : Prop :=
  ((Finset.range config.srcAffinities.length).filter fun r => f r = d).card =
    config.srcAffinities.length ⌈/⌉ config.dstAffinities.length

section Solved

variable {pos : 0 < (closeSolver config).ndsts} {st : Matching}

/-- A slot of a destination that `s` ranks ahead of its own is held by a source
that outranks it. -/
theorem slot_held (solved : (closeSolver config).Solved (closeSolver_bounded config) pos st)
    {s d' i : Nat} (memS : s < (closeSolver config).nsrcs) (memD : d' < (closeSolver config).ndsts)
    (ahead : RanksAhead config s d' (destinationOf st s))
    (index : i < (closeSolver config).slotsPerDst) :
    ∃ h < (closeSolver config).nsrcs, st.held ⟨d', i⟩ = some h ∧ Outranks config d' h s := by
  have inMarket : s ∈ ((closeSolver config).market (closeSolver_bounded config) pos).sources :=
    Finset.mem_range.2 memS
  obtain ⟨slot, got⟩ : ∃ slot, st.assigned s = some slot :=
    Option.ne_none_iff_exists'.1 (solved.placed s memS)
  obtain ⟨-, last⟩ := solved.inv.last s slot got
  have inList : (⟨d', i⟩ : Slot) ∈ (closeSolver config).srcPrefs s :=
    ((srcPrefs_spec (closeSolver_bounded config) s).2 _).2 (mem_slots.2 ⟨memD, index⟩)
  obtain ⟨k, there⟩ := List.mem_iff_getElem?.1 inList
  have destination : destinationOf st s = slot.destination := by simp [destinationOf, got]
  rw [destination] at ahead
  have before := index_lt_of_ranksAhead last there ahead
  obtain ⟨h, holds, better⟩ := solved.inv.no_blocking inMarket got last there before
  have memH := Finset.mem_range.1 (solved.inv.held_mem h _ holds).1
  exact ⟨h, memH, holds, outranks_of_rank_lt memS better⟩

theorem full_of_ranksAhead
    (solved : (closeSolver config).Solved (closeSolver_bounded config) pos st)
    {s d' : Nat} (memS : s < (closeSolver config).nsrcs) (memD : d' < (closeSolver config).ndsts)
    (ahead : RanksAhead config s d' (destinationOf st s)) :
    Full config (destinationOf st) d' := by
  have most := card_destination solved.inv solved.placed d'
  -- every slot has a holder of its own
  have holder : ∀ i < (closeSolver config).slotsPerDst, ∃ h < (closeSolver config).nsrcs,
      st.held ⟨d', i⟩ = some h := by
    intro i index
    obtain ⟨h, memH, holds, -⟩ := slot_held solved memS memD ahead index
    exact ⟨h, memH, holds⟩
  choose! h memH holds using holder
  have least : (Finset.range (closeSolver config).slotsPerDst).card ≤
      ((Finset.range (closeSolver config).nsrcs).filter fun r => destinationOf st r = d').card := by
    apply Finset.card_le_card_of_injOn h
    · intro i member
      have index := Finset.mem_range.1 member
      have got := (solved.inv.held_iff _ _).1 (holds i index)
      exact Finset.mem_filter.2 ⟨Finset.mem_range.2 (memH i index), by simp [destinationOf, got]⟩
    · intro i memI j memJ same
      have holdsI := holds i (Finset.mem_range.1 memI)
      have holdsJ := holds j (Finset.mem_range.1 memJ)
      rw [same] at holdsI
      exact congrArg Slot.slotIndex (solved.inv.held_unique holdsI holdsJ)
  rw [Finset.card_range] at least
  unfold Full
  rw [← qviMaxiperk_eq_ceilDiv]
  exact le_antisymm most least

theorem outranks_of_ranksAhead
    (solved : (closeSolver config).Solved (closeSolver_bounded config) pos st)
    {s r : Nat} (memS : s < (closeSolver config).nsrcs) (memR : r < (closeSolver config).nsrcs)
    (ahead : RanksAhead config s (destinationOf st r) (destinationOf st s)) :
    Outranks config (destinationOf st r) r s := by
  obtain ⟨slot, got⟩ : ∃ slot, st.assigned r = some slot :=
    Option.ne_none_iff_exists'.1 (solved.placed r memR)
  have destination : destinationOf st r = slot.destination := by simp [destinationOf, got]
  have holds := (solved.inv.held_iff r slot).2 got
  have inSlots := mem_slots.1 (solved.inv.held_mem r slot holds).2
  rw [destination] at ahead ⊢
  obtain ⟨h, -, holds', better⟩ := slot_held solved memS inSlots.1 ahead inSlots.2
  have same : h = r := Option.some.inj (holds'.symm.trans holds)
  rwa [same] at better

/-- A source that misses its affinity finds its affinity destinations full of
lower-numbered sources that have affinity too. -/
theorem full_of_misses
    (solved : (closeSolver config).Solved (closeSolver_bounded config) pos st)
    {s d' : Nat} (memS : s < (closeSolver config).nsrcs)
    (misses : ¬ intersects config s (destinationOf st s)) (memD : d' < (closeSolver config).ndsts)
    (meets : intersects config s d') :
    Full config (destinationOf st) d' ∧
      ∀ r < (closeSolver config).nsrcs, destinationOf st r = d' → r < s ∧ intersects config r d' := by
  have ahead : RanksAhead config s d' (destinationOf st s) := Or.inl ⟨meets, misses⟩
  refine ⟨full_of_ranksAhead solved memS memD ahead, ?_⟩
  rintro r memR rfl
  rcases outranks_of_ranksAhead solved memS memR ahead with ⟨-, no⟩ | ⟨same, less⟩
  · exact absurd meets no
  · exact ⟨less, same.trans meets⟩

end Solved

/-- **Stability, on destinations.**  A destination that a source ranks ahead of
the one it got is full of sources that outrank it there.  So a source with some
affinity misses it only when all its affinity destinations are full of
lower-numbered sources that have affinity too, and the solver's check passes. -/
theorem qviMapClose_full (config : MapConfig) (pos : 0 < config.dstAffinities.length)
    (map : QviMap) :
    ∃ result f, qviMapClose config map = .ok result ∧
      result.Assigns config.srcAffinities.length f ∧
      (∀ s < config.srcAffinities.length, ∀ d' < config.dstAffinities.length,
        RanksAhead config s d' (f s) → Full config f d' ∧
          ∀ r < config.srcAffinities.length, f r = d' → Outranks config d' r s) ∧
      (∀ s < config.srcAffinities.length, ¬ intersects config s (f s) →
        ∀ d' < config.dstAffinities.length, intersects config s d' → Full config f d' ∧
          ∀ r < config.srcAffinities.length, f r = d' → r < s ∧ intersects config r d') ∧
      ∃ st, (closeSolver config).solve = .ok st ∧ (closeSolver config).stable st = true := by
  obtain ⟨st, run, solved, result⟩ := qviMapClose_solved config pos map
  refine ⟨_, destinationOf st, result, getMatching_assigns solved.placed, ?_, ?_, st, run,
    stable_solved solved.inv solved.placed⟩
  · intro s memS d' memD ahead
    refine ⟨full_of_ranksAhead solved memS memD ahead, ?_⟩
    rintro r memR rfl
    exact outranks_of_ranksAhead solved memS memR ahead
  · intro s memS misses d' memD meets
    exact full_of_misses solved memS misses memD meets

/-- Two sources that both want the first of two destinations. -/
def twoOnOne : MapConfig where
  srcAffinities := [{0}, {0}]
  dstAffinities := [{0}, {1}]
  mapFn := .close

theorem qviMapClose_full_twoOnOne :
    0 < twoOnOne.dstAffinities.length ∧
      ∃ result f, qviMapClose twoOnOne ∅ = .ok result ∧ result.Assigns 2 f ∧
        (f 1 = 1 → Full twoOnOne f 0 ∧ ∀ r < 2, f r = 0 → r < 1 ∧ intersects twoOnOne r 0) := by
  refine ⟨by decide, ?_⟩
  obtain ⟨result, f, ok, assigns, -, affine, -⟩ := qviMapClose_full twoOnOne (by decide) ∅
  refine ⟨result, f, ok, assigns, fun second => ?_⟩
  exact affine 1 (by decide) (by rw [second]; decide) 0 (by decide) (by decide)

/-! ## The best stable assignment -/

/-- A stable assignment of the sources to slots, by the solver's lists: a slot
that a source prefers is taken, and does not prefer the source. -/
structure StableAssignment (sv : StableMarriageSolver) (assignment : Nat → Slot) : Prop where
  mem : ∀ s < sv.nsrcs, assignment s ∈ sv.slots
  injective : ∀ s < sv.nsrcs, ∀ r < sv.nsrcs, assignment s = assignment r → s = r
  taken : ∀ s < sv.nsrcs, ∀ slot ∈ sv.slots,
    (sv.srcPrefs s).idxOf slot < (sv.srcPrefs s).idxOf (assignment s) →
      ∃ h < sv.nsrcs, assignment h = slot ∧ sv.mSlotPrefers slot s h = false

section Best

variable {sv : StableMarriageSolver} {bounded : sv.Bounded} {pos : 0 < sv.ndsts}

theorem stableAssignment_iff {assignment : Nat → Slot} :
    StableAssignment sv assignment ↔
      DeferredAcceptance.Stable (sv.market bounded pos) assignment := by
  have prefers : ∀ slot s h, sv.mSlotPrefers slot s h = false ↔
      ¬ sv.rank slot s < sv.rank slot h := by
    intro slot s h
    simp [mSlotPrefers]
  constructor
  · rintro ⟨mem, injective, taken⟩
    refine ⟨fun s memS => mem s (Finset.mem_range.1 memS), ?_, ?_⟩
    · intro s memS r memR
      exact injective s (Finset.mem_range.1 memS) r (Finset.mem_range.1 memR)
    · intro s memS slot memSlot likes
      obtain ⟨h, memH, has, worse⟩ := taken s (Finset.mem_range.1 memS) slot memSlot likes
      exact ⟨h, Finset.mem_range.2 memH, has, (prefers slot s h).1 worse⟩
  · rintro ⟨mem, injective, taken⟩
    refine ⟨fun s memS => mem s (Finset.mem_range.2 memS), ?_, ?_⟩
    · intro s memS r memR
      exact injective s (Finset.mem_range.2 memS) r (Finset.mem_range.2 memR)
    · intro s memS slot memSlot likes
      obtain ⟨h, memH, has, worse⟩ := taken s (Finset.mem_range.2 memS) slot memSlot likes
      exact ⟨h, Finset.mem_range.1 memH, has, (prefers slot s h).2 worse⟩

/-- The slot of a source. -/
def slotOf (st : Matching) (s : Nat) : Slot := (st.assigned s).getD ⟨0, 0⟩

theorem StableMarriageSolver.Solved.assigned_eq {st : Matching} (solved : sv.Solved bounded pos st) :
    ∀ s ∈ (sv.market bounded pos).sources, st.assigned s = some (slotOf st s) := by
  intro s member
  obtain ⟨slot, got⟩ :=
    Option.ne_none_iff_exists'.1 (solved.placed s (Finset.mem_range.1 member))
  simp [slotOf, got]

/-- All finished runs of the loop leave the same matching. -/
theorem StableMarriageSolver.Solved.unique {st st' : Matching} (solved : sv.Solved bounded pos st)
    (solved' : sv.Solved bounded pos st') : st.assigned = st'.assigned ∧ st.held = st'.held := by
  have assigned : st.assigned = st'.assigned := by
    funext s
    by_cases member : s ∈ (sv.market bounded pos).sources
    · rw [solved.assigned_eq s member, solved'.assigned_eq s member]
      congr 1
      exact DeferredAcceptance.Fair.unique solved.inv solved.fair solved'.inv solved'.fair
        solved.assigned_eq solved'.assigned_eq member
    · -- nobody else is assigned anything
      have nothing : ∀ {st : Matching}, sv.Solved bounded pos st → st.assigned s = none := by
        intro st solved
        by_contra some_
        obtain ⟨slot, got⟩ := Option.ne_none_iff_exists'.1 some_
        exact member (solved.inv.held_mem s slot ((solved.inv.held_iff s slot).2 got)).1
      rw [nothing solved, nothing solved']
  refine ⟨assigned, ?_⟩
  funext slot
  apply Option.ext
  intro s
  rw [solved.inv.held_iff, solved'.inv.held_iff, assigned]

end Best

/-- **The close mapping is the best stable one, in any order.**  The solver's
matching is stable, gives every source a slot it likes at least as much as the one
any stable assignment gives it, and is the matching that any order of the initial
queue and any choice of the next free source end in. -/
theorem qviMapClose_best (config : MapConfig) (pos : 0 < config.dstAffinities.length) :
    ∃ st, (closeSolver config).solve = .ok st ∧
      (∀ s < config.srcAffinities.length, st.assigned s = some (slotOf st s)) ∧
      StableAssignment (closeSolver config) (slotOf st) ∧
      (∀ assignment, StableAssignment (closeSolver config) assignment →
        ∀ s < config.srcAffinities.length,
          ((closeSolver config).srcPrefs s).idxOf (slotOf st s) ≤
            ((closeSolver config).srcPrefs s).idxOf (assignment s)) ∧
      ∀ (pick : Nat → Nat) (queue : List Nat),
        queue.Perm (List.range config.srcAffinities.length) →
          ∃ st', (closeSolver config).solveWith pick queue = .ok st' ∧
            st'.assigned = st.assigned ∧ st'.held = st.held ∧
            (closeSolver config).getMatching st' = (closeSolver config).getMatching st := by
  obtain ⟨st, run, solved⟩ := solve_ends (closeSolver_bounded config) pos
  refine ⟨st, run, fun s memS => solved.assigned_eq s (Finset.mem_range.2 memS),
    stableAssignment_iff.2 (solved.inv.stable solved.assigned_eq), ?_, ?_⟩
  · intro assignment stable s memS
    have member := Finset.mem_range.2 memS
    have best := solved.fair.best solved.inv (stableAssignment_iff.1 stable) member
      (solved.assigned_eq s member)
    exact Nat.le_of_not_lt best
  · intro pick queue everyone
    obtain ⟨st', run', solved'⟩ := solveWith_ends (closeSolver_bounded config) pos pick everyone
    obtain ⟨assigned, held⟩ := Solved.unique solved' solved
    refine ⟨st', run', assigned, held, ?_⟩
    unfold getMatching
    rw [assigned]

/-- The second source may propose first. -/
theorem qviMapClose_best_twoOnOne :
    0 < twoOnOne.dstAffinities.length ∧
      ∃ st, (closeSolver twoOnOne).solve = .ok st ∧
        ∃ st', (closeSolver twoOnOne).solveWith (fun _ => 1) [1, 0] = .ok st' ∧
          st'.assigned = st.assigned := by
  refine ⟨by decide, ?_⟩
  obtain ⟨st, run, -, -, -, anyOrder⟩ := qviMapClose_best twoOnOne (by decide)
  obtain ⟨st', run', assigned, -⟩ := anyOrder (fun _ => 1) [1, 0] (by decide)
  exact ⟨st, run, st', run', assigned⟩

end QuoVadis.Kernel
