/-
# Kernel.StableMarriage -- the affinity-preserving mapper

`qvi_map_close` places sources on destinations with a Gale-Shapley solver: every
destination has `ceil(n / m)` slots, a source proposes to the slots of the
destinations it has affinity with first, and a slot prefers the sources that
have affinity with its destination.

The proposals of `solve` are the proposals of `Theory.DeferredAcceptance`
(`propose_eq_offer`) over the market of sources and slots (`market`), taken in
the order of a queue.  With at least one destination there are as many slots as
sources, so

* `solve_ends`: the work queue runs empty, no source exhausts its preferences,
  and every source has a slot;
* `stable_solved`: the solver's own check never fails;
* `qviMapClose_assigns`: every source gets one destination, and no destination
  gets more than `ceil(n / m)` sources.

Without destinations the first source finds an empty preference list and the
solver throws (`qviMapClose_throws`).
-/
import QuoVadis.Kernel.Map
import QuoVadis.Theory.DeferredAcceptance

namespace QuoVadis.Kernel

open QuoVadis.Theory
open Std (ExtTreeMap ExtTreeSet)

set_option autoImplicit false

/-! ## The solver -/

/-- `stable_marriage_solver::slot`. -/
@[ext]
structure Slot where
  destination : Nat
  slotIndex : Nat
  deriving DecidableEq, Repr

/-- What the constructor of the solver is given.  Its preference lists are
functions of these. -/
structure StableMarriageSolver where
  nsrcs : Nat
  ndsts : Nat
  affinities : QviMap

namespace StableMarriageSolver

variable (sv : StableMarriageSolver)

/-- The matching state: `m_src_to_slot`, `m_slot_to_src` (where `SIZE_MAX` is
`none`) and `m_src_next_proposal`. -/
abbrev Matching := DeferredAcceptance.State Nat Slot

def slotsPerDst : Nat := qviMaxiperk sv.nsrcs sv.ndsts

/-- `m_calculate_dst_contention`: how many sources want a destination; an empty
affinity wants them all. -/
def mCalculateDstContention (dst : Nat) : Nat :=
  sv.affinities.toList.countP fun entry =>
    if entry.2.isEmpty then dst < sv.ndsts else entry.2.contains dst

/-- The comparison of `m_build_src_prefs`: less contention, then lower number. -/
def preferenceSorter (a b : Nat) : Bool :=
  let contA := sv.mCalculateDstContention a
  let contB := sv.mCalculateDstContention b
  if contA ≠ contB then contA < contB else a < b

/-- All slots of a destination, in order. -/
def slotsOf (dst : Nat) : List Slot :=
  (List.range sv.slotsPerDst).map fun slot => ⟨dst, slot⟩

/-- `m_build_src_prefs`. -/
def mBuildSrcPrefs (affinities : ExtTreeSet Nat) (hasEmptyAffinity : Bool) : List Slot :=
  let preferredDests := stdSort sv.preferenceSorter affinities.toList
  let preferences := preferredDests.flatMap sv.slotsOf
  if !hasEmptyAffinity && affinities.size < sv.ndsts then
    let nonPreferred := stdSort sv.preferenceSorter
      ((List.range sv.ndsts).filter fun dst => !affinities.contains dst)
    preferences ++ nonPreferred.flatMap sv.slotsOf
  else preferences

/-- `m_src_prefs[src]`, as the constructor builds it. -/
def srcPrefs (src : Nat) : List Slot :=
  match sv.affinities[src]? with
  | none => sv.mBuildSrcPrefs ∅ false
  | some affinities =>
      if affinities.isEmpty then sv.mBuildSrcPrefs (ExtTreeSet.ofList (List.range sv.ndsts)) true
      else sv.mBuildSrcPrefs affinities false

/-- Whether a slot treats a source as having affinity. -/
def hasAffinity (slot : Slot) (src : Nat) : Bool :=
  match sv.affinities[src]? with
  | none => false
  | some dsts => if dsts.isEmpty then true else dsts.contains slot.destination

/-- `m_build_slot_preferences`. -/
def mBuildSlotPreferences (slot : Slot) : List Nat :=
  let withAffinity := (List.range sv.nsrcs).filter fun src => sv.hasAffinity slot src
  let withoutAffinity := (List.range sv.nsrcs).filter fun src => !sv.hasAffinity slot src
  stdSort (fun a b => decide (a < b)) withAffinity ++
    stdSort (fun a b => decide (a < b)) withoutAffinity

/-- The position of a source in a slot's list; the length when it is absent. -/
def rank (slot : Slot) (src : Nat) : Nat :=
  (sv.mBuildSlotPreferences slot).idxOf src

/-- `m_slot_prefers`. -/
def mSlotPrefers (slot : Slot) (newSource curSource : Nat) : Bool :=
  sv.rank slot newSource < sv.rank slot curSource

/-- The body of the loop of `solve` from the proposal on: the state after it, and
what is pushed to the queue. -/
def propose (st : Matching) (source : Nat) (slot : Slot) : Matching × List Nat :=
  let cursor := Function.update st.cursor source (st.cursor source + 1)
  match st.held slot with
  -- the slot is free
  | none =>
      ({ held := Function.update st.held slot (some source)
         assigned := Function.update st.assigned source (some slot)
         cursor }, [])
  | some currentMatch =>
      -- the slot is occupied and prefers the new source
      if sv.mSlotPrefers slot source currentMatch then
        ({ held := Function.update st.held slot (some source)
           assigned := Function.update (Function.update st.assigned source (some slot))
             currentMatch none
           cursor }, [currentMatch])
      -- the slot is occupied and rejects the new source
      else ({ st with cursor }, [source])

/-- The loop of `solve`; `none` when the fuel does not last. -/
def solveLoop : Nat → List Nat → Matching → Option (Qv Matching)
  | _, [], st => some (.ok st)
  | 0, _ :: _, _ => none
  | fuel + 1, source :: freeSources, st =>
      match (sv.srcPrefs source)[st.cursor source]? with
      | none => some (.error (.thrown .errNotSupported))
      | some slot =>
          let (st, pushed) := sv.propose st source slot
          solveLoop fuel (freeSources ++ pushed) st

/-- One proposal for every source and slot: `solve_ends` shows that the loop has
ended by then. -/
def fuel : Nat := sv.nsrcs * (sv.ndsts * sv.slotsPerDst) + 1

/-- `solve`. -/
def solve : Qv Matching :=
  (sv.solveLoop sv.fuel (List.range sv.nsrcs) .initial).getD (.error .trap)

/-- `get_matching`. -/
def getMatching (st : Matching) : QviMap :=
  (List.range sv.nsrcs).foldl
    (fun result source =>
      match st.assigned source with
      | some slot => result.insertDst source slot.destination
      | none => result) ∅

/-- `stable`: every source is matched, and no slot it prefers is free or would
take it. -/
def stable (st : Matching) : Bool :=
  (List.range sv.nsrcs).all fun src =>
    match st.assigned src with
    | none => false
    | some currentSlot =>
        ((sv.srcPrefs src).takeWhile fun slot => slot ≠ currentSlot).all fun preferredSlot =>
          match st.held preferredSlot with
          | none => false
          | some otherSource => !sv.mSlotPrefers preferredSlot src otherSource

end StableMarriageSolver

/-- `solve_ap_mapping`. -/
def solveApMapping (n m : Nat) (affinities : QviMap) : Qv QviMap := do
  let solver : StableMarriageSolver := ⟨n, m, affinities⟩
  let st ← solver.solve
  if !solver.stable st then
    throw (.thrown .errNotSupported)
  return solver.getMatching st

/-- `qvi_map_close`. -/
def qviMapClose (config : MapConfig) (_map : QviMap) : Qv QviMap :=
  solveApMapping config.srcAffinities.length config.dstAffinities.length
    (qviMapCalcAffinities config.srcAffinities config.dstAffinities)

/-! ## Affinities -/

/-- The row of one source: the destinations it intersects are added. -/
theorem maps_affinity_row (a : Bitmap) (s : Nat) (dst : List Bitmap) {x y : Nat} :
    ∀ (start : Nat) (map : QviMap),
      ((dst.zipIdx start).foldl
        (fun result d => if Disjoint a d.1 then result else result.insertDst s d.2) map).Maps x y ↔
      map.Maps x y ∨ (x = s ∧ ∃ d ∈ dst.zipIdx start, d.2 = y ∧ ¬ Disjoint a d.1) := by
  induction dst with
  | nil => intro start map; simp
  | cons b rest ih =>
      intro start map
      rw [List.zipIdx_cons, List.foldl_cons, ih]
      simp only [List.mem_cons, exists_eq_or_imp]
      by_cases apart : Disjoint a b
      · simp [apart]
      · simp only [apart, if_false, QviMap.maps_insertDst, not_false_eq_true, and_true]
        constructor
        · rintro ((⟨rfl, rfl⟩ | old) | ⟨rfl, later⟩)
          · exact Or.inr ⟨rfl, Or.inl rfl⟩
          · exact Or.inl old
          · exact Or.inr ⟨rfl, Or.inr later⟩
        · rintro (old | ⟨rfl, rfl | later⟩)
          · exact Or.inl (Or.inr old)
          · exact Or.inl (Or.inl ⟨rfl, rfl⟩)
          · exact Or.inr ⟨rfl, later⟩

/-- A source has affinity to the destinations it intersects. -/
theorem maps_calcAffinities {src dst : List Bitmap} {s d : Nat} :
    (qviMapCalcAffinities src dst).Maps s d ↔
      ∃ a b, src[s]? = some a ∧ dst[d]? = some b ∧ ¬ Disjoint a b := by
  have rows : ∀ (rows : List (Bitmap × Nat)) (map : QviMap),
      (rows.foldl
        (fun result s => dst.zipIdx.foldl
          (fun result d => if Disjoint s.1 d.1 then result else result.insertDst s.2 d.2) result)
        map).Maps s d ↔ map.Maps s d ∨
          ∃ row ∈ rows, s = row.2 ∧ ∃ col ∈ dst.zipIdx, col.2 = d ∧ ¬ Disjoint row.1 col.1 := by
    intro rows
    induction rows with
    | nil => intro map; simp
    | cons row rest ih =>
        intro map
        rw [List.foldl_cons, ih, maps_affinity_row, or_assoc]
        simp only [List.mem_cons, exists_eq_or_imp]
  have nothing : ¬ (∅ : QviMap).Maps s d := by
    rintro ⟨ds, found, -⟩
    simp at found
  rw [qviMapCalcAffinities, rows]
  simp only [nothing, false_or]
  constructor
  · rintro ⟨⟨a, i⟩, inSrc, rfl, ⟨b, j⟩, inDst, rfl, meets⟩
    exact ⟨a, b, List.mem_zipIdx_iff_getElem?.1 inSrc, List.mem_zipIdx_iff_getElem?.1 inDst, meets⟩
  · rintro ⟨a, b, inSrc, inDst, meets⟩
    exact ⟨(a, s), List.mem_zipIdx_iff_getElem?.2 inSrc, rfl, (b, d),
      List.mem_zipIdx_iff_getElem?.2 inDst, rfl, meets⟩

/-- Affinities only name destinations there are. -/
theorem calcAffinities_lt {src dst : List Bitmap} {s d : Nat}
    (maps : (qviMapCalcAffinities src dst).Maps s d) : d < dst.length := by
  obtain ⟨a, b, -, inDst, -⟩ := maps_calcAffinities.1 maps
  exact (List.getElem?_eq_some_iff.1 inDst).1

/-- A source is listed only with a destination. -/
def QviMap.NoEmptySet (map : QviMap) : Prop :=
  ∀ (s : Nat) (ds : ExtTreeSet Nat), map[s]? = some ds → ds.isEmpty = false

theorem QviMap.NoEmptySet.insertDst {map : QviMap} (full : map.NoEmptySet) (src dst : Nat) :
    (map.insertDst src dst).NoEmptySet := by
  intro s ds found
  rw [QviMap.getElem?_insertDst] at found
  split at found
  · cases found
    simp
  · exact full s ds found

theorem calcAffinities_noEmptySet (src dst : List Bitmap) :
    (qviMapCalcAffinities src dst).NoEmptySet := by
  unfold qviMapCalcAffinities
  apply List.foldlRecOn
  · intro s ds found
    simp at found
  · intro map full row _
    apply List.foldlRecOn
    · exact full
    · intro map full col _
      split
      · exact full
      · exact full.insertDst _ _

namespace StableMarriageSolver

variable {sv : StableMarriageSolver}

/-- The affinities name destinations there are. -/
def Bounded (sv : StableMarriageSolver) : Prop :=
  ∀ s d, sv.affinities.Maps s d → d < sv.ndsts

/-! ## The market of sources and slots -/

/-- The slots there are. -/
def slots (sv : StableMarriageSolver) : Finset Slot :=
  (Finset.range sv.ndsts ×ˢ Finset.range sv.slotsPerDst).image fun p => ⟨p.1, p.2⟩

theorem mem_slots {slot : Slot} :
    slot ∈ sv.slots ↔ slot.destination < sv.ndsts ∧ slot.slotIndex < sv.slotsPerDst := by
  simp only [slots, Finset.mem_image, Finset.mem_product, Finset.mem_range, Prod.exists]
  constructor
  · rintro ⟨d, i, bounds, rfl⟩
    exact bounds
  · intro bounds
    exact ⟨slot.destination, slot.slotIndex, bounds, rfl⟩

theorem card_slots : sv.slots.card = sv.ndsts * sv.slotsPerDst := by
  have injective : Function.Injective fun p : Nat × Nat => (⟨p.1, p.2⟩ : Slot) := by
    rintro ⟨a, b⟩ ⟨c, d⟩ same
    simpa using same
  rw [slots, Finset.card_image_of_injective _ injective, Finset.card_product, Finset.card_range,
    Finset.card_range]

theorem mem_slotsOf {dst : Nat} {slot : Slot} :
    slot ∈ sv.slotsOf dst ↔ slot.destination = dst ∧ slot.slotIndex < sv.slotsPerDst := by
  simp only [slotsOf, List.mem_map, List.mem_range]
  constructor
  · rintro ⟨i, below, rfl⟩
    exact ⟨rfl, below⟩
  · rintro ⟨rfl, below⟩
    exact ⟨slot.slotIndex, below, rfl⟩

theorem nodup_flatMap_slotsOf {dests : List Nat} (nodup : dests.Nodup) :
    (dests.flatMap sv.slotsOf).Nodup := by
  rw [List.nodup_flatMap]
  constructor
  · intro dst _
    refine List.Nodup.map ?_ List.nodup_range
    intro i j same
    simpa using same
  · refine nodup.imp fun {a b} apart => ?_
    intro slot inA inB
    exact apart ((mem_slotsOf.1 inA).1.symm.trans (mem_slotsOf.1 inB).1)

/-- The destinations of a preference list, best first. -/
def destOrder (sv : StableMarriageSolver) (affinities : ExtTreeSet Nat) (hasEmptyAffinity : Bool) :
    List Nat :=
  stdSort sv.preferenceSorter affinities.toList ++
    if !hasEmptyAffinity && affinities.size < sv.ndsts then
      stdSort sv.preferenceSorter
        ((List.range sv.ndsts).filter fun dst => !affinities.contains dst)
    else []

theorem mBuildSrcPrefs_eq (affinities : ExtTreeSet Nat) (hasEmptyAffinity : Bool) :
    sv.mBuildSrcPrefs affinities hasEmptyAffinity =
      (sv.destOrder affinities hasEmptyAffinity).flatMap sv.slotsOf := by
  unfold mBuildSrcPrefs destOrder
  split <;> simp

theorem nodup_toList (s : ExtTreeSet Nat) : s.toList.Nodup :=
  (ExtTreeSet.distinct_toList (t := s)).imp fun {a b} apart same =>
    apart (by rw [same]; exact Std.ReflCmp.compare_self)

/-- A set of destinations with as many members as there are destinations has all
of them. -/
theorem mem_of_full {affinities : ExtTreeSet Nat} (bounded : ∀ d ∈ affinities, d < sv.ndsts)
    (full : ¬ affinities.size < sv.ndsts) {d : Nat} (below : d < sv.ndsts) : d ∈ affinities := by
  have sub : affinities.toList.toFinset ⊆ Finset.range sv.ndsts := by
    intro x member
    rw [List.mem_toFinset, ExtTreeSet.mem_toList] at member
    exact Finset.mem_range.2 (bounded x member)
  have large : (Finset.range sv.ndsts).card ≤ affinities.toList.toFinset.card := by
    rw [List.toFinset_card_of_nodup (nodup_toList affinities), ExtTreeSet.length_toList,
      Finset.card_range]
    omega
  have all := Finset.eq_of_subset_of_card_le sub large
  have member : d ∈ affinities.toList.toFinset := by
    rw [all]
    exact Finset.mem_range.2 below
  rwa [List.mem_toFinset, ExtTreeSet.mem_toList] at member

theorem destOrder_spec {affinities : ExtTreeSet Nat} {hasEmptyAffinity : Bool}
    (bounded : ∀ d ∈ affinities, d < sv.ndsts)
    (whole : hasEmptyAffinity = true → ∀ d < sv.ndsts, d ∈ affinities) :
    (sv.destOrder affinities hasEmptyAffinity).Nodup ∧
      ∀ d, d ∈ sv.destOrder affinities hasEmptyAffinity ↔ d < sv.ndsts := by
  have first : (stdSort sv.preferenceSorter affinities.toList).Nodup :=
    (stdSort_perm _ _).nodup_iff.2 (nodup_toList affinities)
  unfold destOrder
  by_cases fallback : (!hasEmptyAffinity && decide (affinities.size < sv.ndsts)) = true
  · rw [if_pos fallback]
    constructor
    · refine first.append ((stdSort_perm _ _).nodup_iff.2 (List.nodup_range.filter _)) ?_
      intro d inFirst inSecond
      rw [mem_stdSort, ExtTreeSet.mem_toList] at inFirst
      rw [mem_stdSort, List.mem_filter] at inSecond
      have absent := inSecond.2
      rw [Bool.not_eq_true', ← Bool.not_eq_true, ExtTreeSet.contains_iff_mem] at absent
      exact absent inFirst
    · intro d
      rw [List.mem_append, mem_stdSort, ExtTreeSet.mem_toList, mem_stdSort, List.mem_filter,
        List.mem_range, Bool.not_eq_true', ← Bool.not_eq_true, ExtTreeSet.contains_iff_mem]
      constructor
      · rintro (inFirst | ⟨below, -⟩)
        · exact bounded d inFirst
        · exact below
      · intro below
        by_cases member : d ∈ affinities
        · exact Or.inl member
        · exact Or.inr ⟨below, member⟩
  · rw [if_neg fallback, List.append_nil]
    refine ⟨first, fun d => ?_⟩
    rw [mem_stdSort, ExtTreeSet.mem_toList]
    constructor
    · exact bounded d
    · intro below
      cases hasEmptyAffinity with
      | true => exact whole rfl d below
      | false => exact mem_of_full bounded (by simpa using fallback) below

/-- Every source lists every slot once. -/
theorem srcPrefs_spec (bounded : sv.Bounded) (src : Nat) :
    (sv.srcPrefs src).Nodup ∧ ∀ slot, slot ∈ sv.srcPrefs src ↔ slot ∈ sv.slots := by
  obtain ⟨affinities, hasEmptyAffinity, eq, below, whole⟩ :
      ∃ affinities hasEmptyAffinity,
        sv.srcPrefs src = sv.mBuildSrcPrefs affinities hasEmptyAffinity ∧
          (∀ d ∈ affinities, d < sv.ndsts) ∧
          (hasEmptyAffinity = true → ∀ d < sv.ndsts, d ∈ affinities) := by
    unfold srcPrefs
    cases found : sv.affinities[src]? with
    | none => exact ⟨∅, false, rfl, by simp, by simp⟩
    | some affinities =>
        by_cases empty : affinities.isEmpty = true
        · refine ⟨ExtTreeSet.ofList (List.range sv.ndsts), true, by simp [empty], ?_, ?_⟩
          · intro d member
            rw [ExtTreeSet.mem_ofList, List.contains_iff_mem] at member
            exact List.mem_range.1 member
          · intro _ d inside
            rw [ExtTreeSet.mem_ofList, List.contains_iff_mem]
            exact List.mem_range.2 inside
        · exact ⟨affinities, false, by simp [empty], fun d member =>
            bounded src d ⟨affinities, found, member⟩, by simp⟩
  obtain ⟨nodup, mem⟩ := destOrder_spec below whole
  rw [eq, mBuildSrcPrefs_eq]
  refine ⟨nodup_flatMap_slotsOf nodup, fun slot => ?_⟩
  simp only [List.mem_flatMap, mem_slotsOf, mem_slots, mem]
  constructor
  · rintro ⟨d, inside, rfl, index⟩
    exact ⟨inside, index⟩
  · rintro ⟨inside, index⟩
    exact ⟨_, inside, rfl, index⟩

theorem mem_slotPreferences (slot : Slot) {s : Nat} (member : s < sv.nsrcs) :
    s ∈ sv.mBuildSlotPreferences slot := by
  unfold mBuildSlotPreferences
  rw [List.mem_append, mem_stdSort, mem_stdSort, List.mem_filter, List.mem_filter]
  have := List.mem_range.2 member
  cases sv.hasAffinity slot s <;> simp [this]

/-- A slot's list has every source, so its ranks have no ties. -/
theorem rank_inj (slot : Slot) {s r : Nat} (member : s < sv.nsrcs)
    (same : sv.rank slot s = sv.rank slot r) : s = r :=
  (List.idxOf_inj (mem_slotPreferences slot member)).1 same

/-- The market `solve` works on. -/
def market (sv : StableMarriageSolver) (bounded : sv.Bounded) (pos : 0 < sv.ndsts) :
    DeferredAcceptance.Market Nat Slot where
  sources := Finset.range sv.nsrcs
  targets := sv.slots
  pref := sv.srcPrefs
  rank := sv.rank
  pref_nodup := fun s _ => (srcPrefs_spec bounded s).1
  mem_pref := fun s _ => (srcPrefs_spec bounded s).2
  rank_inj := fun slot _ s member r _ same => rank_inj slot (Finset.mem_range.1 member) same
  room := by
    rw [Finset.card_range, card_slots]
    exact le_mul_qviMaxiperk _ pos

/-! ## The loop -/

/-- A proposal of the source is a proposal of the algorithm. -/
theorem propose_eq_offer (st : Matching) (source : Nat) (slot : Slot) :
    sv.propose st source slot =
      ((st.offer sv.rank source slot).1, (st.offer sv.rank source slot).2.toList) := by
  unfold propose DeferredAcceptance.State.offer
  cases holder : st.held slot with
  | none => simp [DeferredAcceptance.State.accept, holder]
  | some old =>
      by_cases better : sv.rank slot source < sv.rank slot old
      · simp [mSlotPrefers, better, DeferredAcceptance.State.accept, holder]
      · simp [mSlotPrefers, better, DeferredAcceptance.State.reject]

/-- The queue holds exactly the free sources, each once. -/
structure QueueInv (sv : StableMarriageSolver) (queue : List Nat) (st : Matching) : Prop where
  nodup : queue.Nodup
  mem_iff : ∀ s, s ∈ queue ↔ s < sv.nsrcs ∧ st.assigned s = none

variable {bounded : sv.Bounded} {pos : 0 < sv.ndsts}

/-- Behind the first of the queue wait the other free sources. -/
theorem QueueInv.mem_rest_iff {st : Matching} {source : Nat} {rest : List Nat}
    (queue : sv.QueueInv (source :: rest) st) (x : Nat) :
    x ∈ rest ↔ x ≠ source ∧ x < sv.nsrcs ∧ st.assigned x = none := by
  obtain ⟨notRest, -⟩ := List.nodup_cons.1 queue.nodup
  constructor
  · intro inRest
    exact ⟨fun e => notRest (e ▸ inRest), (queue.mem_iff x).1 (List.mem_cons_of_mem _ inRest)⟩
  · rintro ⟨other, facts⟩
    exact (List.mem_cons.1 ((queue.mem_iff x).2 facts)).resolve_left other

/-- One round keeps the queue and the algorithm's invariant in step. -/
theorem queueInv_offer {st : Matching} {source : Nat} {rest : List Nat} {slot : Slot}
    (inv : DeferredAcceptance.Inv (sv.market bounded pos) st)
    (queue : sv.QueueInv (source :: rest) st) :
    sv.QueueInv (rest ++ (st.offer sv.rank source slot).2.toList)
      (st.offer sv.rank source slot).1 := by
  obtain ⟨member, free⟩ := (queue.mem_iff source).1 List.mem_cons_self
  have nodup := (List.nodup_cons.1 queue.nodup).2
  have inMarket : source ∈ (sv.market bounded pos).sources := Finset.mem_range.2 member
  have freeIff := DeferredAcceptance.offer_free (t := slot) inv free
  constructor
  · refine nodup.append (by cases (st.offer sv.rank source slot).2 <;> simp) ?_
    intro x inRest inFreed
    obtain ⟨other, below, wasFree⟩ := (queue.mem_rest_iff x).1 inRest
    have freed : (st.offer sv.rank source slot).2 = some x := by
      simpa using inFreed
    -- the freed source is the proposer or was held, so it did not wait in the queue
    have wasHeld := DeferredAcceptance.offer_freed_held inv freed other
    rw [wasFree] at wasHeld
    cases wasHeld
  · intro x
    rw [List.mem_append, queue.mem_rest_iff, Option.mem_toList]
    have := freeIff x
    change _ ↔ x < sv.nsrcs ∧ (st.offer sv.rank source slot).1.assigned x = none
    constructor
    · rintro (⟨other, below, wasFree⟩ | freed)
      · exact ⟨below, this.2 (Or.inr ⟨other, wasFree⟩)⟩
      · have inSources := DeferredAcceptance.offer_freed_mem inv inMarket freed
        exact ⟨Finset.mem_range.1 inSources, this.2 (Or.inl freed)⟩
    · rintro ⟨below, nowFree⟩
      rcases this.1 nowFree with freed | ⟨other, wasFree⟩
      · exact Or.inr freed
      · exact Or.inl ⟨other, below, wasFree⟩

/-- The loop of `solve` with the next source taken from any place of the queue:
`pick k` when `k` proposals are left to the fuel.  Every schedule is one `pick`. -/
def solveLoopWith (sv : StableMarriageSolver) (pick : Nat → Nat) :
    Nat → List Nat → Matching → Option (Qv Matching)
  | _, [], st => some (.ok st)
  | 0, _ :: _, _ => none
  | fuel + 1, first :: others, st =>
      let queue := first :: others
      let place := pick fuel % queue.length
      let source := queue[place]?.getD first
      match (sv.srcPrefs source)[st.cursor source]? with
      | none => some (.error (.thrown .errNotSupported))
      | some slot =>
          let (st, pushed) := sv.propose st source slot
          solveLoopWith sv pick fuel (queue.eraseIdx place ++ pushed) st

/-- The source takes the front. -/
theorem solveLoop_eq_with :
    ∀ (fuel : Nat) (queue : List Nat) (st : Matching),
      sv.solveLoop fuel queue st = sv.solveLoopWith (fun _ => 0) fuel queue st
  | fuel, [], st => by cases fuel <;> rfl
  | 0, _ :: _, _ => rfl
  | fuel + 1, source :: rest, st => by
      simp only [solveLoop, solveLoopWith, Nat.zero_mod, List.getElem?_cons_zero, Option.getD_some,
        List.eraseIdx_cons_zero]
      cases (sv.srcPrefs source)[st.cursor source]? with
      | none => rfl
      | some slot => exact solveLoop_eq_with fuel _ _

/-- The queue invariant does not see the order. -/
theorem QueueInv.perm {queue queue' : List Nat} {st : Matching} (inv : sv.QueueInv queue st)
    (same : queue.Perm queue') : sv.QueueInv queue' st :=
  ⟨same.nodup_iff.1 inv.nodup, fun s => same.mem_iff.symm.trans (inv.mem_iff s)⟩

/-- What a finished run of the loop leaves behind. -/
structure Solved (sv : StableMarriageSolver) (bounded : sv.Bounded) (pos : 0 < sv.ndsts)
    (done : Matching) : Prop where
  inv : DeferredAcceptance.Inv (sv.market bounded pos) done
  fair : DeferredAcceptance.Fair (sv.market bounded pos) done
  placed : ∀ s < sv.nsrcs, done.assigned s ≠ none

/-- In any order, the loop ends when the fuel covers the proposals left, with
everyone placed. -/
theorem solveLoopWith_ends (pick : Nat → Nat) :
    ∀ (fuel : Nat) (queue : List Nat) (st : Matching),
      DeferredAcceptance.Inv (sv.market bounded pos) st →
      DeferredAcceptance.Fair (sv.market bounded pos) st → sv.QueueInv queue st →
      DeferredAcceptance.remaining (sv.market bounded pos) st < fuel →
      ∃ done, sv.solveLoopWith pick fuel queue st = some (.ok done) ∧ sv.Solved bounded pos done
  | fuel, [], st, inv, fair, queue, _ => by
      refine ⟨st, by cases fuel <;> rfl, inv, fair, fun s below free => ?_⟩
      have := (queue.mem_iff s).2 ⟨below, free⟩
      simp at this
  | 0, source :: rest, st, _, _, _, enough => by omega
  | fuel + 1, first :: others, st, inv, fair, queue, enough => by
      -- the chosen source, brought to the front
      let place := pick fuel % (first :: others).length
      have inQueue : place < (first :: others).length := Nat.mod_lt _ (by simp)
      obtain ⟨source, chosen⟩ : ∃ source, (first :: others)[place]? = some source :=
        ⟨_, List.getElem?_eq_getElem inQueue⟩
      have front : (first :: others).Perm (source :: (first :: others).eraseIdx place) := by
        obtain ⟨bound, rfl⟩ := List.getElem?_eq_some_iff.1 chosen
        exact (List.getElem_cons_eraseIdx_perm bound).symm
      have queue' := queue.perm front
      obtain ⟨member, free⟩ := (queue'.mem_iff source).1 List.mem_cons_self
      have inMarket : source ∈ (sv.market bounded pos).sources := Finset.mem_range.2 member
      have left : st.cursor source < (sv.srcPrefs source).length := inv.cursor_lt inMarket free
      have next : (sv.srcPrefs source)[st.cursor source]? =
          some (sv.srcPrefs source)[st.cursor source] := List.getElem?_eq_getElem left
      have fewer := DeferredAcceptance.remaining_offer (M := sv.market bounded pos) inMarket next
      obtain ⟨done, run, facts⟩ := solveLoopWith_ends pick fuel _ _
        (DeferredAcceptance.offer_inv inv inMarket free next)
        (DeferredAcceptance.offer_fair inv fair inMarket free next) (queueInv_offer inv queue')
        (show DeferredAcceptance.remaining _ (st.offer sv.rank source _).1 < fuel by
          have : (sv.market bounded pos).rank = sv.rank := rfl
          rw [this] at fewer
          omega)
      refine ⟨done, ?_, facts⟩
      simp only [solveLoopWith]
      rw [show (first :: others)[pick fuel % (first :: others).length]? = some source from chosen]
      simp only [Option.getD_some, next, propose_eq_offer]
      exact run

theorem remaining_initial :
    DeferredAcceptance.remaining (sv.market bounded pos) .initial < sv.fuel := by
  have long : ∀ s, (sv.srcPrefs s).length = sv.ndsts * sv.slotsPerDst := by
    intro s
    obtain ⟨nodup, mem⟩ := srcPrefs_spec bounded s
    rw [← card_slots, ← List.toFinset_card_of_nodup nodup]
    congr 1
    ext slot
    rw [List.mem_toFinset, mem]
  have sum : DeferredAcceptance.remaining (sv.market bounded pos) .initial =
      sv.nsrcs * (sv.ndsts * sv.slotsPerDst) := by
    simp [DeferredAcceptance.remaining, DeferredAcceptance.State.initial, market, long]
  rw [sum, fuel]
  omega

/-- `solve` with the queue in another order at the start, and the next source
taken from any place of it. -/
def solveWith (sv : StableMarriageSolver) (pick : Nat → Nat) (queue : List Nat) : Qv Matching :=
  (sv.solveLoopWith pick sv.fuel queue .initial).getD (.error .trap)

theorem solve_eq_with : sv.solve = sv.solveWith (fun _ => 0) (List.range sv.nsrcs) := by
  rw [solve, solveWith, solveLoop_eq_with]

/-- In any order the solver ends, and everyone is placed. -/
theorem solveWith_ends (bounded : sv.Bounded) (pos : 0 < sv.ndsts) (pick : Nat → Nat)
    {queue : List Nat} (everyone : queue.Perm (List.range sv.nsrcs)) :
    ∃ done, sv.solveWith pick queue = .ok done ∧ sv.Solved bounded pos done := by
  have start : sv.QueueInv (List.range sv.nsrcs) .initial :=
    ⟨List.nodup_range, fun s => by simp [DeferredAcceptance.State.initial]⟩
  obtain ⟨done, run, facts⟩ := solveLoopWith_ends pick sv.fuel _ _
    (DeferredAcceptance.inv_initial (sv.market bounded pos)) (DeferredAcceptance.fair_initial _)
    (start.perm everyone.symm) remaining_initial
  exact ⟨done, by rw [solveWith, run]; rfl, facts⟩

/-- **The solver ends, and everyone is placed.** -/
theorem solve_ends (bounded : sv.Bounded) (pos : 0 < sv.ndsts) :
    ∃ done, sv.solve = .ok done ∧ sv.Solved bounded pos done := by
  rw [solve_eq_with]
  exact solveWith_ends bounded pos _ (List.Perm.refl _)

/-- What stands before an element in a list stands at a smaller index. -/
theorem exists_index_of_mem_takeWhile {x y : Slot} :
    ∀ {l : List Slot} {j : Nat}, y ∈ l.takeWhile (fun slot => slot ≠ x) → l[j]? = some x →
      ∃ i < j, l[i]? = some y
  | [], _, ahead, _ => by simp at ahead
  | z :: rest, 0, ahead, here => by
      simp only [List.getElem?_cons_zero, Option.some.injEq] at here
      simp [here] at ahead
  | z :: rest, j + 1, ahead, here => by
      rw [List.getElem?_cons_succ] at here
      rw [List.takeWhile_cons] at ahead
      split at ahead
      · rcases List.mem_cons.1 ahead with rfl | later
        · exact ⟨0, by omega, rfl⟩
        · obtain ⟨i, before, found⟩ := exists_index_of_mem_takeWhile later here
          exact ⟨i + 1, by omega, found⟩
      · simp at ahead

/-- The solver's own check never fails. -/
theorem stable_solved {done : Matching} (inv : DeferredAcceptance.Inv (sv.market bounded pos) done)
    (placed : ∀ s < sv.nsrcs, done.assigned s ≠ none) : sv.stable done = true := by
  unfold stable
  rw [List.all_eq_true]
  intro src member
  have below := List.mem_range.1 member
  cases got : done.assigned src with
  | none => exact absurd got (placed src below)
  | some current =>
      simp only [List.all_eq_true]
      intro preferred ahead
      have inMarket : src ∈ (sv.market bounded pos).sources := Finset.mem_range.2 below
      obtain ⟨-, last⟩ := inv.last src current got
      obtain ⟨i, before, inList⟩ := exists_index_of_mem_takeWhile ahead last
      obtain ⟨h, holds, better⟩ := inv.no_blocking inMarket got last inList before
      rw [holds]
      simp only [mSlotPrefers, Bool.not_eq_true', decide_eq_false_iff_not]
      change sv.rank preferred h < sv.rank preferred src at better
      omega

/-! ## The mapping -/

/-- The destination of a source. -/
def destinationOf (st : Matching) (s : Nat) : Nat :=
  match st.assigned s with
  | some slot => slot.destination
  | none => 0

theorem getMatching_assigns {st : Matching} (placed : ∀ s < sv.nsrcs, st.assigned s ≠ none) :
    (sv.getMatching st).Assigns sv.nsrcs (destinationOf st) := by
  have loop : ∀ n ≤ sv.nsrcs, ((List.range n).foldl
      (fun result source =>
        match st.assigned source with
        | some slot => result.insertDst source slot.destination
        | none => result) (∅ : QviMap)).Assigns n (destinationOf st) := by
    intro n
    induction n with
    | zero => intro _; exact QviMap.assigns_zero _
    | succ n ih =>
        intro bound
        rw [List.range_succ, List.foldl_append]
        cases got : st.assigned n with
        | none => exact absurd got (placed n (by omega))
        | some slot =>
            simp only [List.foldl_cons, List.foldl_nil, got]
            exact (ih (by omega)).insertDst (by simp [destinationOf, got]) fun _ _ => rfl
  exact loop _ le_rfl

/-- A destination has no more sources than slots. -/
theorem card_destination {st : Matching} (inv : DeferredAcceptance.Inv (sv.market bounded pos) st)
    (placed : ∀ s < sv.nsrcs, st.assigned s ≠ none) (d : Nat) :
    ((Finset.range sv.nsrcs).filter fun s => destinationOf st s = d).card ≤ sv.slotsPerDst := by
  rw [← Finset.card_range sv.slotsPerDst]
  refine Finset.card_le_card_of_injOn
    (fun s => match st.assigned s with | some slot => slot.slotIndex | none => 0) ?_ ?_
  · intro s member
    have below := Finset.mem_range.1 (Finset.mem_filter.1 member).1
    cases got : st.assigned s with
    | none => exact absurd got (placed s below)
    | some slot =>
        have inSlots := (inv.held_mem s slot ((inv.held_iff s slot).2 got)).2
        simpa [got] using (mem_slots.1 inSlots).2
  · intro s memS r memR same
    obtain ⟨belowS, destS⟩ := Finset.mem_filter.1 memS
    obtain ⟨belowR, destR⟩ := Finset.mem_filter.1 memR
    cases gotS : st.assigned s with
    | none => exact absurd gotS (placed s (Finset.mem_range.1 belowS))
    | some slotS =>
        cases gotR : st.assigned r with
        | none => exact absurd gotR (placed r (Finset.mem_range.1 belowR))
        | some slotR =>
            -- the same destination and the same slot index: the same slot
            simp only [destinationOf, gotS] at destS
            simp only [destinationOf, gotR] at destR
            simp only [gotS, gotR] at same
            have slotSame : slotS = slotR := Slot.ext (destS.trans destR.symm) same
            have heldS := (inv.held_iff s slotS).2 gotS
            have heldR := (inv.held_iff r slotR).2 gotR
            rw [slotSame, heldR] at heldS
            exact (Option.some.inj heldS).symm

/-- A source is placed on a destination there is. -/
theorem destinationOf_lt {st : Matching} (solved : sv.Solved bounded pos st) {s : Nat}
    (below : s < sv.nsrcs) : destinationOf st s < sv.ndsts := by
  cases got : st.assigned s with
  | none => exact absurd got (solved.placed s below)
  | some slot =>
      have inSlots := (solved.inv.held_mem s slot ((solved.inv.held_iff s slot).2 got)).2
      simpa [destinationOf, got] using (mem_slots.1 inSlots).1

end StableMarriageSolver

open StableMarriageSolver

/-- The solver `qvi_map_close` sets up. -/
def closeSolver (config : MapConfig) : StableMarriageSolver :=
  ⟨config.srcAffinities.length, config.dstAffinities.length,
    qviMapCalcAffinities config.srcAffinities config.dstAffinities⟩

theorem closeSolver_bounded (config : MapConfig) : (closeSolver config).Bounded :=
  fun _ _ maps => calcAffinities_lt maps

/-- With a destination, `qvi_map_close` returns what the solver found. -/
theorem qviMapClose_solved (config : MapConfig) (pos : 0 < (closeSolver config).ndsts)
    (map : QviMap) :
    ∃ done, (closeSolver config).solve = .ok done ∧
      (closeSolver config).Solved (closeSolver_bounded config) pos done ∧
      qviMapClose config map = .ok ((closeSolver config).getMatching done) := by
  obtain ⟨done, run, solved⟩ := solve_ends (closeSolver_bounded config) pos
  refine ⟨done, run, solved, ?_⟩
  have ok := stable_solved solved.inv solved.placed
  change solveApMapping (closeSolver config).nsrcs (closeSolver config).ndsts
    (closeSolver config).affinities = _
  have same : (⟨(closeSolver config).nsrcs, (closeSolver config).ndsts,
    (closeSolver config).affinities⟩ : StableMarriageSolver) = closeSolver config := rfl
  simp only [solveApMapping, same, run, bind, Except.bind, ok, Bool.not_true, Bool.false_eq_true,
    if_false]
  rfl

/-- **The close mapping is total and respects capacity.** -/
theorem qviMapClose_assigns (config : MapConfig) (pos : 0 < config.dstAffinities.length)
    (map : QviMap) :
    ∃ result f, qviMapClose config map = .ok result ∧
      result.Assigns config.srcAffinities.length f ∧
      (∀ s < config.srcAffinities.length, f s < config.dstAffinities.length) ∧
      ∀ d, ((Finset.range config.srcAffinities.length).filter fun s => f s = d).card ≤
        qviMaxiperk config.srcAffinities.length config.dstAffinities.length := by
  obtain ⟨done, -, solved, result⟩ := qviMapClose_solved config pos map
  refine ⟨_, destinationOf done, result, getMatching_assigns solved.placed, ?_,
    card_destination solved.inv solved.placed⟩
  intro s below
  exact destinationOf_lt solved below

/-- With at least as many destinations as sources, a destination of the close mapping
has one slot, so the pass that makes destinations unique drops nothing. -/
theorem qviMapUniq_close {config : MapConfig} {map result : QviMap}
    (pos : 0 < config.dstAffinities.length)
    (enough : config.srcAffinities.length ≤ config.dstAffinities.length)
    (run : qviMapClose config map = .ok result) : qviMapUniq result = result := by
  obtain ⟨_, g, run', assigns, -, capacity⟩ := qviMapClose_assigns config pos map
  obtain rfl := Except.ok.inj (run.symm.trans run')
  refine qviMapUniq_assigns assigns fun s below s' below' same => ?_
  have one : qviMaxiperk config.srcAffinities.length config.dstAffinities.length ≤ 1 := by
    unfold qviMaxiperk
    split
    · omega
    · have := Nat.div_lt_of_lt_mul
        (m := config.srcAffinities.length + config.dstAffinities.length - 1)
        (n := config.dstAffinities.length) (k := 2) (by omega)
      omega
  have few := (capacity (g s')).trans one
  exact Finset.card_le_one.1 few s (by simp [below, same]) s' (by simp [below'])

/-- Without destinations the first source has nowhere to propose. -/
theorem qviMapClose_throws {config : MapConfig} (none_ : config.dstAffinities = [])
    (some_ : 0 < config.srcAffinities.length) (map : QviMap) :
    qviMapClose config map = .error (.thrown .errNotSupported) := by
  let sv : StableMarriageSolver := ⟨config.srcAffinities.length, 0,
    qviMapCalcAffinities config.srcAffinities config.dstAffinities⟩
  have noSlots : ∀ src, sv.srcPrefs src = [] := by
    intro src
    have bounded : sv.Bounded := fun s d maps => by
      have := calcAffinities_lt maps
      rw [none_] at this
      simp at this
    have mem := (StableMarriageSolver.srcPrefs_spec bounded src).2
    rw [List.eq_nil_iff_forall_not_mem]
    intro slot member
    have := (StableMarriageSolver.mem_slots.1 ((mem slot).1 member)).1
    simp [sv] at this
  obtain ⟨n, same⟩ : ∃ n, config.srcAffinities.length = n + 1 :=
    ⟨config.srcAffinities.length - 1, by omega⟩
  have stuck : sv.solve = .error (.thrown .errNotSupported) := by
    have queue : List.range sv.nsrcs = 0 :: List.range' 1 n := by
      change List.range config.srcAffinities.length = _
      rw [same, List.range_eq_range', List.range'_succ]
    rw [StableMarriageSolver.solve, queue]
    simp [StableMarriageSolver.fuel, StableMarriageSolver.solveLoop, noSlots]
  rw [qviMapClose, none_]
  change solveApMapping sv.nsrcs sv.ndsts _ = _
  rw [solveApMapping]
  have eq : (⟨sv.nsrcs, sv.ndsts, qviMapCalcAffinities config.srcAffinities []⟩ :
      StableMarriageSolver) = sv := by
    simp [sv, none_]
  rw [eq]
  simp only [stuck, bind, Except.bind]

end QuoVadis.Kernel
