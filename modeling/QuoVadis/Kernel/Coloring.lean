/-
# Kernel.Coloring -- what the colours of a split mean

A task's colour is a group number it chose, one of the automatic policies, or
`QV_SCOPE_SPLIT_UNDEFINED`.  `m_determine_mapping` tells them apart by sign.

* `mDetermineMapping_colors`: with non-negative colours only, equal colours and no
  others share a piece, smaller colours have smaller pieces, and the call fails
  exactly when there are more colours than pieces.  Clamping replaces colours by
  their dense ranks.
* `hostMap_trap_iff`: what stops the mapping is mixed signs, and spreading over no
  piece.
* `classified_iff`: the classification the source documents is what happens exactly
  when there is a task, the signs are not mixed, not everybody is undefined, and
  nobody is spread over no piece.
-/
import QuoVadis.Kernel.SplitOutcome

namespace QuoVadis.Kernel

open QuoVadis.Theory

set_option autoImplicit false

/-! ## Ranks -/

/-- Two colour vectors that order the tasks alike. -/
structure SameOrder (colors colors' : List Int) : Prop where
  length : colors'.length = colors.length
  lt_iff : ∀ (i j : Nat) (a b a' b' : Int), colors[i]? = some a → colors[j]? = some b →
    colors'[i]? = some a' → colors'[j]? = some b' → (a' < b' ↔ a < b)
  eq_iff : ∀ (i j : Nat) (a b a' b' : Int), colors[i]? = some a → colors[j]? = some b →
    colors'[i]? = some a' → colors'[j]? = some b' → (a' = b' ↔ a = b)

/-- The dense ranks of a colour vector: as many as there are distinct colours. -/
structure DenseRanks (colors ranks : List Int) : Prop extends SameOrder colors ranks where
  used : ∀ r, r ∈ ranks ↔ 0 ≤ r ∧ r < (colors.toFinset.card : Int)

theorem SameOrder.refl (colors : List Int) : SameOrder colors colors where
  length := rfl
  lt_iff := by
    intro i j a b a' b' atI atJ atI' atJ'
    rw [Option.some.inj (atI.symm.trans atI'), Option.some.inj (atJ.symm.trans atJ')]
  eq_iff := by
    intro i j a b a' b' atI atJ atI' atJ'
    rw [Option.some.inj (atI.symm.trans atI'), Option.some.inj (atJ.symm.trans atJ')]

/-- A colour and its clamped colour. -/
theorem clampColors_at {colors : List Int} {i : Nat} {a a' : Int} (atI : colors[i]? = some a)
    (atI' : (qviMapClampColors colors)[i]? = some a') :
    a ∈ colors ∧ a' = ((colorSet colors).toList.idxOf a : Int) := by
  rw [getElem?_clampColors, atI, Option.map_some, Option.some.injEq] at atI'
  exact ⟨List.mem_of_getElem? atI, atI'.symm⟩

/-- **Clamped colours are dense ranks.** -/
theorem clampColors_denseRanks (colors : List Int) :
    DenseRanks colors (qviMapClampColors colors) where
  length := length_clampColors colors
  lt_iff := by
    intro i j a b a' b' atI atJ atI' atJ'
    obtain ⟨memA, rfl⟩ := clampColors_at atI atI'
    obtain ⟨memB, rfl⟩ := clampColors_at atJ atJ'
    rw [Int.ofNat_lt]
    exact idxOf_colorSet_lt_iff memA memB
  eq_iff := by
    intro i j a b a' b' atI atJ atI' atJ'
    obtain ⟨memA, rfl⟩ := clampColors_at atI atI'
    obtain ⟨memB, rfl⟩ := clampColors_at atJ atJ'
    exact (clampColors_injOn colors).eq_iff memA memB
  used := by
    intro r
    rw [mem_clampColors_iff, size_colorSet]

namespace Hwsplit

variable {hs : Hwsplit}

/-- Used as they are or clamped, the colours order the tasks as given. -/
theorem sameOrder_userColors (hs : Hwsplit) : SameOrder hs.colors hs.userColors := by
  unfold userColors
  split
  · exact SameOrder.refl _
  · exact (clampColors_denseRanks _).toSameOrder

/-- The colours are clamped exactly when one of them names no piece. -/
theorem userColors_eq (user : UserColored hs.colors) :
    hs.userColors = if ∃ c ∈ hs.colors, (hs.splitCpusets.length : Int) ≤ c
      then qviMapClampColors hs.colors else hs.colors := by
  unfold userColors
  by_cases outside : ∃ c ∈ hs.colors, (hs.splitCpusets.length : Int) ≤ c
  · rw [if_pos outside, if_neg]
    intro all
    obtain ⟨c, member, large⟩ := outside
    have := List.all_eq_true.1 all c member
    simp only [decide_eq_true_eq] at this
    omega
  · rw [if_neg outside, if_pos]
    push Not at outside
    simpa using fun c member => ⟨user c member, outside c member⟩

/-! ## Colours given by the user -/

/-- **User colouring is respected.** -/
theorem mDetermineMapping_colors (hs : Hwsplit) (tasks : hs.colors ≠ [])
    (user : UserColored hs.colors) :
    (hs.mDetermineMapping = .error (.ret .errSplit) ↔
      hs.splitCpusets.length < hs.colors.toFinset.card) ∧
    (hs.colors.toFinset.card ≤ hs.splitCpusets.length →
      ∃ colors config map f, hs.mDetermineMapping = .ok (colors, config) ∧
        config.apply ∅ = .ok map ∧ map.Assigns hs.colors.length f ∧
        (∀ i < hs.colors.length, f i < hs.splitCpusets.length) ∧
        (∀ (i j : Nat) (a b : Int), hs.colors[i]? = some a → hs.colors[j]? = some b →
          (f i = f j ↔ a = b) ∧ (a < b → f i < f j)) ∧
        colors = if ∃ c ∈ hs.colors, (hs.splitCpusets.length : Int) ≤ c
          then qviMapClampColors hs.colors else hs.colors) ∧
    DenseRanks hs.colors (qviMapClampColors hs.colors) ∧
    qviMapClampColors (qviMapClampColors hs.colors) = qviMapClampColors hs.colors := by
  have mapping := mDetermineMapping_user hs tasks user
  rw [size_colorSet] at mapping
  refine ⟨?_, ?_, clampColors_denseRanks _, clampColors_clampColors _⟩
  · rw [mapping]
    split
    · rename_i many
      simpa using many
    · rename_i few
      simpa using few
  · intro few
    have bounds := fun c => userColors_bounds hs (by rw [size_colorSet]; exact few) (c := c)
    obtain ⟨map, run, assigns⟩ :=
      qviMapColors_assigns { srcColors := hs.userColors, mapFn := .colors }
        fun c member => (bounds c member).1
    rw [if_neg (not_lt.2 few)] at mapping
    -- a task's destination is its colour, as it is or clamped
    have place : ∀ (i : Nat) (a : Int), hs.colors[i]? = some a → ∃ a', hs.userColors[i]? = some a' ∧
        0 ≤ a' ∧ a' < (hs.splitCpusets.length : Int) := by
      intro i a atI
      have inColors := (List.getElem?_eq_some_iff.1 atI).1
      have inUser : i < hs.userColors.length := by rwa [length_userColors]
      exact ⟨_, List.getElem?_eq_getElem inUser, bounds _ (List.getElem_mem inUser)⟩
    refine ⟨_, _, map, _, mapping, run, by simpa [length_userColors] using assigns, ?_, ?_,
      userColors_eq user⟩
    · intro i below
      obtain ⟨a', atI, nonneg, less⟩ := place i _ (List.getElem?_eq_getElem below)
      simp only [atI, Option.getD_some]
      omega
    · intro i j a b atI atJ
      obtain ⟨a', atI', nonnegA, -⟩ := place i a atI
      obtain ⟨b', atJ', nonnegB, -⟩ := place j b atJ
      have equal := (sameOrder_userColors hs).eq_iff i j a b a' b' atI atJ atI' atJ'
      have order := (sameOrder_userColors hs).lt_iff i j a b a' b' atI atJ atI' atJ'
      simp only [atI', atJ', Option.getD_some]
      constructor
      · rw [← equal]
        omega
      · intro less
        have := order.2 less
        omega

/-- Four tasks with two colours, out of range for two pieces. -/
theorem mDetermineMapping_colors_fourTasks :
    ∃ map f, ({ prepared (.onePackage 2 []) 2 .last (.ofCpuset {0, 1}) [7, 3, 7, 3] [∅, ∅, ∅, ∅] with
        splitCpusets := [{0}, {1}] } : Hwsplit).hostMap = .ok ([1, 0, 1, 0], map) ∧
      map.Assigns 4 f ∧ f 1 < f 0 ∧ f 0 = f 2 := by
  obtain ⟨colors, config, map, f, mapping, run, assigns, -, respected, recolored⟩ :=
    (mDetermineMapping_colors { prepared (.onePackage 2 []) 2 .last (.ofCpuset {0, 1}) [7, 3, 7, 3]
      [∅, ∅, ∅, ∅] with splitCpusets := [{0}, {1}] } (by decide) (by decide)).2.1 (by decide)
  refine ⟨map, f, ?_, assigns, (respected 1 0 3 7 rfl rfl).2 (by decide),
    (respected 0 2 7 7 rfl rfl).1.2 rfl⟩
  have clamped : qviMapClampColors [7, 3, 7, 3] = [1, 0, 1, 0] := by decide
  rw [hostMap, mapping, recolored, if_pos (by decide)]
  simp only [bind, Except.bind, run]
  exact congrArg (fun colors => Except.ok (colors, map)) clamped

/-! ## Negative colours -/

/-- An undefined task's pool is empty, and the others are grouped by colour. -/
structure SplitAround (hs hs' : Hwsplit) (f : Nat → Nat) : Prop where
  length : hs'.hwpools.length = hs.colors.length
  undefined : ∀ (i : Nat) (pool : Hwpool), hs.colors[i]? = some splitUndefined →
    hs'.hwpools[i]? = some pool → pool.cpuset = ∅ ∧ ∀ t, pool.devices t = []
  defined : ∀ (i : Nat) (c : Int) (pool : Hwpool), hs.colors[i]? = some c → 0 ≤ c →
    hs'.hwpools[i]? = some pool → hs.pieces[f i]? = some pool.cpuset
  grouped : ∀ (i j : Nat) (a b : Int), hs.colors[i]? = some a → hs.colors[j]? = some b →
    0 ≤ a → 0 ≤ b → (f i = f j ↔ a = b)

/-- The classification of the colours that `m_determine_mapping` documents in its
comment, and `quo-vadis.h` at `QV_SCOPE_SPLIT_UNDEFINED`. -/
structure Classified (hs : Hwsplit) : Prop where
  noEmptyRead : hs.cut.mDetermineMapping ≠ .error .trap
  -- no mapper's assertion fails, and none divides by zero
  noStop : ∀ colors config, hs.cut.mDetermineMapping = .ok (colors, config) →
    config.apply ∅ ≠ .error .trap
  inRange : ∀ colors map, hs.cut.hostMap = .ok (colors, map) →
    ∀ s d, map.Maps s d → d < hs.pieces.length
  undefined : (∃ c ∈ hs.colors, c < 0) → (∀ c ∈ hs.colors, c < 0 → c = splitUndefined) →
    (hs.colors.toFinset.filter fun c => 0 ≤ c).card ≤ hs.pieces.length →
    ∃ hs' f, hs.mSplit = .ok hs' ∧ SplitAround hs hs' f
  otherMix : (∃ a ∈ hs.colors, ∃ b ∈ hs.colors, a < 0 ∧ a ≠ splitUndefined ∧ b ≠ a) →
    ∃ rc, rc ≠ .success ∧ hs.mSplit = .error (.ret rc)

/-- Only an empty colour vector makes the classification itself stop. -/
theorem mDetermineMapping_trap_iff (hs : Hwsplit) :
    hs.mDetermineMapping = .error .trap ↔ hs.colors = [] := by
  constructor
  · intro trap
    by_contra some_
    obtain ⟨front, tcolors, shape, -⟩ := sortedColors some_
    rw [mDetermineMapping, shape] at trap
    simp only at trap
    split_ifs at trap <;> cases trap
  · intro none_
    rw [mDetermineMapping, none_]
    rfl

/-- A mapper that stops stops the host stage. -/
theorem hostMap_trap_of_apply {colors : List Int} {config : MapConfig}
    (determined : hs.mDetermineMapping = .ok (colors, config)) (stops : config.apply ∅ = .error .trap) :
    hs.hostMap = .error .trap := by
  simp only [hostMap, determined, bind, Except.bind]
  rw [stops]

/-- **What stops the mapping.** -/
theorem hostMap_trap_iff (ready : hs.Ready) :
    hs.cut.hostMap = .error .trap ↔
      MixedColors hs.colors ∨ (∀ c ∈ hs.colors, c = splitSpread) ∧ hs.pieces = [] := by
  constructor
  · intro stops
    by_cases user : UserColored hs.colors
    · by_cases few : (colorSet hs.colors).size ≤ hs.pieces.length
      · obtain ⟨map, run, -, -⟩ := hostMap_user hs.cut ready.tasks user few
        cases run.symm.trans stops
      · cases (hostMap_tooMany hs.cut ready.tasks user (not_le.1 few)).symm.trans stops
    · obtain ⟨a, memA, neg⟩ : ∃ c ∈ hs.colors, c < 0 := by simpa [UserColored] using user
      by_cases mixed : MixedColors hs.colors
      · exact Or.inl mixed
      · right
        have negative := negative_of_not_mixed mixed memA neg
        by_cases none_ : hs.pieces = []
        · refine ⟨?_, none_⟩
          by_contra other
          by_cases policy : AutoPolicy hs.colors
          · rcases policy with close | packed | spread
            · cases (hostMap_close_empty hs.cut ready.tasks close ready.affinities none_).symm.trans
                stops
            · cases (hostMap_packed_empty hs.cut ready.tasks packed none_).symm.trans stops
            · exact other spread
          · cases (hostMap_invalid hs.cut ready.tasks negative policy).symm.trans stops
        · -- with a piece to map to, no automatic policy fails
          exfalso
          have pos := List.length_pos_iff.2 none_
          by_cases policy : AutoPolicy hs.colors
          · rcases policy with close | packed | spread
            · obtain ⟨map, f, run, -⟩ := hostMap_close hs.cut ready.tasks close ready.affinities pos
              cases run.symm.trans stops
            · obtain ⟨map, run, -⟩ :=
                hostMap_packed hs.cut ready.tasks packed ready.groupSize pos length_pieces_le
              cases run.symm.trans stops
            · obtain ⟨map, run, -⟩ :=
                hostMap_spread hs.cut ready.tasks spread ready.groupSize pos length_pieces_le
              cases run.symm.trans stops
          · cases (hostMap_invalid hs.cut ready.tasks negative policy).symm.trans stops
  · rintro (⟨⟨a, memA, neg⟩, b, memB, nonneg⟩ | ⟨spread, none_⟩)
    · exact hostMap_mixed hs.cut memA neg memB nonneg
    · exact hostMap_spread_empty hs.cut ready.tasks spread ready.groupSize none_

/-- Automatic policies map every task to a piece, or nobody. -/
theorem hostMap_auto (ready : hs.Ready) (policy : AutoPolicy hs.colors) {colors : List Int}
    {map : QviMap} (run : hs.cut.hostMap = .ok (colors, map)) :
    map = ∅ ∨ ∃ f, map.Assigns hs.colors.length f ∧ ∀ i < hs.colors.length, f i < hs.pieces.length := by
  have mapOf : ∀ {map' : QviMap}, hs.cut.hostMap = .ok (hs.colors, map') → map = map' := by
    intro map' run'
    rw [run'] at run
    exact (congrArg Prod.snd (Except.ok.inj run)).symm
  by_cases none_ : hs.pieces = []
  · rcases policy with close | packed | spread
    · rw [hostMap_close_empty hs.cut ready.tasks close ready.affinities none_] at run
      cases run
    · exact Or.inl (mapOf (hostMap_packed_empty hs.cut ready.tasks packed none_))
    · rw [hostMap_spread_empty hs.cut ready.tasks spread ready.groupSize none_] at run
      cases run
  · have pos := List.length_pos_iff.2 none_
    right
    rcases policy with close | packed | spread
    · obtain ⟨map', f, run', assigns, below⟩ :=
        hostMap_close hs.cut ready.tasks close ready.affinities pos
      exact ⟨f, by rw [mapOf run']; exact assigns, below⟩
    · obtain ⟨map', run', assigns⟩ :=
        hostMap_packed hs.cut ready.tasks packed ready.groupSize pos length_pieces_le
      exact ⟨_, by rw [mapOf run']; exact assigns,
        fun i inside => (BalancedBlocks.blockOf_bounds pos inside).1⟩
    · obtain ⟨map', run', assigns⟩ :=
        hostMap_spread hs.cut ready.tasks spread ready.groupSize pos length_pieces_le
      exact ⟨_, by rw [mapOf run']; exact assigns, fun i _ => Nat.mod_lt i pos⟩

/-- Whatever the colours, a task is mapped to one of the pieces or to none. -/
theorem hostMap_inRange (ready : hs.Ready) {colors : List Int} {map : QviMap}
    (run : hs.cut.hostMap = .ok (colors, map)) {s d : Nat} (maps : map.Maps s d) :
    d < hs.pieces.length := by
  have ofAssigns : (∃ f, map.Assigns hs.colors.length f ∧
      ∀ i < hs.colors.length, f i < hs.pieces.length) → d < hs.pieces.length := by
    rintro ⟨f, assigns, below⟩
    obtain ⟨inside, rfl⟩ := assigns.maps_iff.1 maps
    exact below s inside
  by_cases user : UserColored hs.colors
  · by_cases few : (colorSet hs.colors).size ≤ hs.pieces.length
    · obtain ⟨map', run', assigns, below⟩ := hostMap_user hs.cut ready.tasks user few
      obtain rfl : map = map' := congrArg Prod.snd (Except.ok.inj (run.symm.trans run'))
      exact ofAssigns ⟨_, assigns, below⟩
    · rw [hostMap_tooMany hs.cut ready.tasks user (not_le.1 few)] at run
      cases run
  · obtain ⟨a, memA, neg⟩ : ∃ c ∈ hs.colors, c < 0 := by simpa [UserColored] using user
    by_cases negative : ∀ c ∈ hs.colors, c < 0
    · by_cases policy : AutoPolicy hs.colors
      · rcases hostMap_auto ready policy run with rfl | assigned
        · exact absurd maps (QviMap.not_maps_empty s d)
        · exact ofAssigns assigned
      · rw [hostMap_invalid hs.cut ready.tasks negative policy] at run
        cases run
    · obtain ⟨b, memB, nonneg⟩ : ∃ c ∈ hs.colors, 0 ≤ c := by simpa using negative
      rw [hostMap_mixed hs.cut memA neg memB nonneg] at run
      cases run

/-- Everybody asked to be left out. -/
def AllUndefined (colors : List Int) : Prop := ∀ c ∈ colors, c = splitUndefined

instance (colors : List Int) : Decidable (AllUndefined colors) :=
  inferInstanceAs (Decidable (∀ c ∈ colors, _))

/-- Signs that are not mixed, with a task that is not undefined and a piece to
spread over. -/
theorem classified_of_pure (ready : hs.Ready) (pure_ : ¬ MixedColors hs.colors)
    (some_ : ¬ AllUndefined hs.colors)
    (room : ¬ ((∀ c ∈ hs.colors, c = splitSpread) ∧ hs.pieces = [])) : Classified hs where
  noEmptyRead := fun trap => ready.tasks ((mDetermineMapping_trap_iff hs.cut).1 trap)
  noStop := by
    intro colors config run trap
    rcases (hostMap_trap_iff ready).1 (hostMap_trap_of_apply run trap) with mixed | spread
    · exact pure_ mixed
    · exact room spread
  inRange := fun colors map run s d maps => hostMap_inRange ready run maps
  undefined := by
    rintro ⟨a, memA, neg⟩ only -
    -- the negative colours are all undefined, and there are no others
    have negative := negative_of_not_mixed pure_ memA neg
    exact absurd (fun c member => only c member (negative c member)) some_
  otherMix := by
    rintro ⟨a, memA, b, memB, neg, -, apart⟩
    have negative := negative_of_not_mixed pure_ memA neg
    refine ⟨.errInvldArg, by decide,
      mSplit_fault (hostMap_invalid hs.cut ready.tasks negative fun policy => apart ?_)⟩
    rcases policy with every | every | every <;> exact (every b memB).trans (every a memA).symm

/-- Mixed signs stop in the assertion of the colour mapper. -/
theorem not_classified_of_mixed (mixed : MixedColors hs.colors) : ¬ Classified hs := by
  intro classified
  obtain ⟨⟨a, memA, neg⟩, b, memB, nonneg⟩ := mixed
  exact classified.noStop _ _ (mDetermineMapping_mixed hs.cut memA neg memB nonneg)
    (qviMapColors_trap { srcColors := hs.colors, mapFn := .colors } memA neg ∅)

/-- Everybody undefined is taken for an unknown policy. -/
theorem not_classified_of_allUndefined (ready : hs.Ready) (all : AllUndefined hs.colors) :
    ¬ Classified hs := by
  intro classified
  have negative : ∀ c ∈ hs.colors, c < 0 := fun c member => by rw [all c member]; decide
  have noPolicy : ¬ AutoPolicy hs.colors := by
    obtain ⟨c, member⟩ := List.exists_mem_of_ne_nil _ ready.tasks
    rintro (every | every | every) <;>
      exact absurd ((all c member).symm.trans (every c member)) (by decide)
  have none_ : hs.colors.toFinset.filter (fun c => 0 ≤ c) = ∅ := by
    apply Finset.filter_eq_empty_iff.2
    intro c member
    have := negative c (List.mem_toFinset.1 member)
    omega
  obtain ⟨c, member⟩ := List.exists_mem_of_ne_nil _ ready.tasks
  obtain ⟨hs', f, run, -⟩ := classified.undefined ⟨c, member, negative c member⟩
    (fun c member _ => all c member) (by rw [none_]; exact Nat.zero_le _)
  rw [mSplit_fault (hostMap_invalid hs.cut ready.tasks negative noPolicy)] at run
  cases run

/-- Spreading over no piece divides by zero. -/
theorem not_classified_of_emptySpread (ready : hs.Ready)
    (spread : ∀ c ∈ hs.colors, c = splitSpread) (none_ : hs.pieces = []) : ¬ Classified hs := by
  intro classified
  have tasks : 0 < hs.groupSize := by
    rw [ready.groupSize]
    exact List.length_pos_iff.2 ready.tasks
  have every : ∀ c ∈ hs.cut.colors, c = splitSpread := spread
  have determined := mDetermineMapping_negative hs.cut ready.tasks
    (allNegative_of_policy hs.cut (by decide) every)
  rw [if_neg (not_all_of_all hs.cut ready.tasks every (by decide)),
    if_neg (not_all_of_all hs.cut ready.tasks every (by decide)), if_pos every] at determined
  exact classified.noStop _ _ determined (qviMapSpread_trap _ (by simp [cut, none_]) tasks ∅)

/-- **When the colours are classified as documented.** -/
theorem classified_iff (hwloc : Hwloc) (npieces : Nat) (splitAtType : HwObjType) (base : Hwpool)
    (colors : List Int) (taskAffinities : List Bitmap)
    (same : taskAffinities.length = colors.length) :
    Classified (prepared hwloc npieces splitAtType base colors taskAffinities) ↔
      colors ≠ [] ∧ ¬ MixedColors colors ∧ ¬ AllUndefined colors ∧
      ¬ ((∀ c ∈ colors, c = splitSpread) ∧
        ¬ hwloc.Splittable
          (prepared hwloc npieces splitAtType base colors taskAffinities).priCpuset
          (min npieces colors.length)) := by
  have empty : (prepared hwloc npieces splitAtType base colors taskAffinities).pieces = [] ↔
      ¬ hwloc.Splittable
        (prepared hwloc npieces splitAtType base colors taskAffinities).priCpuset
        (min npieces colors.length) := pieces_eq_nil_iff
  rw [← empty]
  by_cases tasks : colors = []
  · refine iff_of_false (fun classified => ?_) (by simp [tasks])
    exact classified.noEmptyRead ((mDetermineMapping_trap_iff _).2 tasks)
  · have ready := prepared_ready hwloc npieces splitAtType base colors taskAffinities tasks same
    constructor
    · intro classified
      exact ⟨tasks, fun mixed => not_classified_of_mixed mixed classified,
        fun all => not_classified_of_allUndefined ready all classified,
        fun spread => not_classified_of_emptySpread ready spread.1 spread.2 classified⟩
    · rintro ⟨-, pure_, some_, room⟩
      exact classified_of_pure ready pure_ some_ room

/-- Two tasks that name the two PUs of a machine. -/
theorem classified_twoPus :
    Classified (prepared (.onePackage 2 []) 2 .last (.ofCpuset {0, 1}) [0, 1] [{0, 1}, {0, 1}]) :=
  (classified_iff _ _ _ _ _ _ rfl).2 (by decide)

/-- Two tasks of which one is undefined: its sibling should have been split alone. -/
theorem undefined_task_stops :
    (prepared (.onePackage 2 []) 2 .last (.ofCpuset {0, 1}) [splitUndefined, 0]
        [{0, 1}, {0, 1}]).mSplit = .error .trap ∧
      ¬ Classified (prepared (.onePackage 2 []) 2 .last (.ofCpuset {0, 1}) [splitUndefined, 0]
        [{0, 1}, {0, 1}]) :=
  ⟨mSplit_fault (hostMap_mixed (cut _) List.mem_cons_self (by decide)
    (List.mem_cons_of_mem _ List.mem_cons_self) (by decide)), not_classified_of_mixed (by decide)⟩

end Hwsplit

end QuoVadis.Kernel
