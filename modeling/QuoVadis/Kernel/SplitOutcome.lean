/-
# Kernel.SplitOutcome -- what `m_split` leaves behind

The stages of `Kernel.Hwsplit` put together.  `Ready` is the object as both
callers hand it over; `mSplit_cases` says how the call can end on it:

* `Divided`: every task has a colour, the cpuset of the piece of that colour, and
  its share of the devices;
* an error code, for colours that are no valid colouring;
* the empty cut under an automatic policy, where CLOSE throws, SPREAD divides by
  zero, and PACKED returns success without a single colour (`Unpainted`);
* colours of both signs, which fail an assertion.

The contracts of a split follow: one colour and pool per task with the right
cpuset, no PU lost or invented, every device in exactly one pool.
-/
import QuoVadis.Kernel.Hwsplit

namespace QuoVadis.Kernel

open QuoVadis.Theory
open Std (ExtTreeMap ExtTreeSet)

set_option autoImplicit false

namespace Hwsplit

/-! ## Devices -/

/-- The devices of type `t` in the pools are those of the base pool, each in one. -/
structure Dealt (base : Hwpool) (pools : List Hwpool) (t : HwObjType) (g : Nat → Nat) : Prop where
  below : ∀ j < (base.devices t).length, g j < pools.length
  mem : ∀ (i : Nat) (pool : Hwpool), pools[i]? = some pool → ∀ d,
    d ∈ pool.devices t ↔ ∃ j, (base.devices t)[j]? = some d ∧ g j = i
  count : ∀ (i : Nat) (pool : Hwpool), pools[i]? = some pool →
    (pool.devices t).length ≤ qviMaxiperk (base.devices t).length pools.length

/-- A type dealt to clean pools. -/
theorem Distributed.dealt {base : Hwpool} {t : HwObjType} {before after : List Hwpool}
    {g : Nat → Nat} (done : Distributed (base.devices t) t before after g)
    (clean : ∀ p ∈ before, p.devices t = [])
    (below : ∀ j < (base.devices t).length, g j < before.length)
    (capacity : ∀ i, ((Finset.range (base.devices t).length).filter fun j => g j = i).card ≤
      qviMaxiperk (base.devices t).length before.length) : Dealt base after t g := by
  have origin : ∀ (i : Nat) (pool : Hwpool), after[i]? = some pool →
      ∃ p, before[i]? = some p ∧ p.devices t = [] := by
    intro i pool found
    have inList := (List.getElem?_eq_some_iff.1 found).1
    rw [done.length] at inList
    exact ⟨before[i], List.getElem?_eq_getElem inList, clean _ (List.getElem_mem inList)⟩
  refine ⟨by rwa [done.length], ?_, ?_⟩
  · intro i pool found d
    obtain ⟨p, found₀, empty⟩ := origin i pool found
    rw [done.mem i p pool found₀ found d, empty]
    simp
  · intro i pool found
    obtain ⟨p, found₀, empty⟩ := origin i pool found
    rw [done.count i p pool found₀ found, empty, done.length]
    simpa using capacity i

/-- Dealing another type changes nothing about one already dealt. -/
theorem Dealt.distributed {base : Hwpool} {t t' : HwObjType} {before after : List Hwpool}
    {g g' : Nat → Nat} (dealt : Dealt base before t g)
    (done : Distributed (base.devices t') t' before after g') (other : t ≠ t') :
    Dealt base after t g := by
  have origin : ∀ (i : Nat) (pool : Hwpool), after[i]? = some pool →
      ∃ p, before[i]? = some p ∧ pool.devices t = p.devices t := by
    intro i pool found
    have inList := (List.getElem?_eq_some_iff.1 found).1
    rw [done.length] at inList
    have found₀ := List.getElem?_eq_getElem inList
    exact ⟨before[i], found₀, done.other i _ pool found₀ found t other⟩
  refine ⟨by rw [done.length]; exact dealt.below, ?_, ?_⟩
  · intro i pool found d
    obtain ⟨p, found₀, same⟩ := origin i pool found
    rw [same, dealt.mem i p found₀ d]
  · intro i pool found
    obtain ⟨p, found₀, same⟩ := origin i pool found
    rw [same, done.length]
    exact dealt.count i p found₀

/-- **The device stage** does not fail and leaves the cpusets alone. -/
theorem devices_dealt (base : Hwpool) (pools : List Hwpool) (pos : 0 < pools.length)
    (clean : ∀ t, ∀ p ∈ pools, p.devices t = []) :
    ∃ after, supportedDevices.foldlM (assignDevices base (pools.map Hwpool.cpuset)) pools = .ok after ∧
      after.map Hwpool.cpuset = pools.map Hwpool.cpuset ∧
      ∀ t, objResClass t = .dev → ∃ g, Dealt base after t g := by
  obtain ⟨mid, g, runG, doneG, belowG, capG⟩ :=
    assignDevices_spec base .gpu rfl pos (clean .gpu)
  have cleanNic : ∀ p ∈ mid, p.devices .nic = [] := by
    intro p member
    obtain ⟨i, found⟩ := List.mem_iff_getElem?.1 member
    have inList := (List.getElem?_eq_some_iff.1 found).1
    rw [doneG.length] at inList
    rw [doneG.other i pools[i] p (List.getElem?_eq_getElem inList) found .nic (by decide)]
    exact clean .nic _ (List.getElem_mem inList)
  obtain ⟨after, g', runN, doneN, belowN, capN⟩ :=
    assignDevices_spec base .nic rfl (by rwa [doneG.length]) cleanNic
  have dealtG := doneG.dealt (clean .gpu) belowG capG
  refine ⟨after, ?_, by rw [doneN.cpuset, doneG.cpuset], ?_⟩
  · rw [doneG.cpuset] at runN
    simp only [supportedDevices, List.foldlM_cons, List.foldlM_nil, runG, bind, Except.bind, runN,
      pure, Except.pure]
  · intro t device
    rcases (by simpa [supportedDevices] using (mem_supportedDevices t).2 device) with rfl | rfl
    · exact ⟨g, dealtG.distributed doneN (by decide)⟩
    · exact ⟨g', doneN.dealt cleanNic belowN capN⟩

/-! ## The object handed over -/

/-- The object as `split` and `thread_split` hand it to `m_split`. -/
structure Ready (hs : Hwsplit) : Prop where
  tasks : hs.colors ≠ []
  groupSize : hs.groupSize = hs.colors.length
  hwpools : hs.hwpools = List.replicate hs.colors.length default
  affinities : hs.taskAffinities.length = hs.colors.length

theorem prepared_ready (hwloc : Hwloc) (npieces : Nat) (splitAtType : HwObjType) (base : Hwpool)
    (colors : List Int) (taskAffinities : List Bitmap) (tasks : colors ≠ [])
    (same : taskAffinities.length = colors.length) :
    (prepared hwloc npieces splitAtType base colors taskAffinities).Ready :=
  ⟨tasks, rfl, rfl, same⟩

/-- The object after the cut. -/
def cut (hs : Hwsplit) : Hwsplit := { hs with splitCpusets := hs.pieces }

/-- A split that gave task `i` the piece `f i`. -/
structure Divided (hs hs' : Hwsplit) (f : Nat → Nat) : Prop where
  splitCpusets : hs'.splitCpusets = hs.pieces
  below : ∀ i < hs.groupSize, f i < hs.pieces.length
  colors : hs'.colors = (List.range hs.groupSize).map fun i => (f i : Int)
  cpusets : hs'.hwpools.map Hwpool.cpuset =
    (List.range hs.groupSize).map fun i => hs.pieces[f i]?.getD ∅
  devices : ∀ t, objResClass t = .dev → ∃ g, Dealt hs.baseHwpool hs'.hwpools t g

/-- A split that succeeded without giving any task a piece. -/
structure Unpainted (hs hs' : Hwsplit) : Prop where
  splitCpusets : hs'.splitCpusets = []
  colors : hs'.colors = []
  length : hs'.hwpools.length = hs.groupSize
  bare : ∀ pool ∈ hs'.hwpools, pool.cpuset = ∅
  devices : ∀ t, objResClass t = .dev → ∃ g, Dealt hs.baseHwpool hs'.hwpools t g

variable {hs : Hwsplit}

theorem mSplit_eq : hs.mSplit = do
    let (colors, hresMap) ← hs.cut.hostMap
    let (hwpools, colors) ← hresMap.toList.foldlM (assignTask hs.pieces)
      (hs.hwpools, vectorResize colors hresMap.size 0)
    let hwpools ← supportedDevices.foldlM
      (assignDevices hs.baseHwpool (hwpools.map Hwpool.cpuset)) hwpools
    return { hs.cut with hwpools := hwpools, colors := colors } := by
  rw [mSplit, mSplitCpuset_eq]
  rfl

theorem mSplit_fault {fault : Fault} (host : hs.cut.hostMap = .error fault) :
    hs.mSplit = .error fault := by
  rw [mSplit_eq, host]
  rfl

theorem mSplit_mapped (ready : hs.Ready) {colors : List Int} {map : QviMap} {f : Nat → Nat}
    (host : hs.cut.hostMap = .ok (colors, map)) (same : colors.length = hs.colors.length)
    (assigns : map.Assigns hs.colors.length f)
    (below : ∀ i < hs.colors.length, f i < hs.pieces.length) :
    ∃ hs', hs.mSplit = .ok hs' ∧ Divided hs hs' f := by
  have pools : hs.hwpools.length = hs.colors.length := by rw [ready.hwpools, List.length_replicate]
  have kept : vectorResize colors map.size 0 = colors := by
    rw [assigns.size, vectorResize, same, Nat.sub_self, List.take_of_length_le (le_of_eq same)]
    simp
  have tasks := assignTasks_eq hs.pieces (show colors.length = hs.hwpools.length by rw [same, pools])
    (by rw [pools]; exact assigns) (by rw [pools]; exact below)
  obtain ⟨after, run, cpusets, dealt⟩ := devices_dealt hs.baseHwpool
    ((List.range hs.hwpools.length).map fun i => .ofCpuset (hs.pieces[f i]?.getD ∅))
    (by
      have := List.length_pos_iff.2 ready.tasks
      simpa [pools] using this)
    (by
      intro t p member
      obtain ⟨i, -, rfl⟩ := List.mem_map.1 member
      rfl)
  rw [pools] at tasks run cpusets
  refine ⟨{ hs.cut with hwpools := after, colors := (List.range hs.colors.length).map fun i => (f i : Int) },
    ?_, ⟨rfl, by rw [ready.groupSize]; exact below, by rw [ready.groupSize], ?_, dealt⟩⟩
  · rw [mSplit_eq, host]
    simp only [bind, Except.bind, kept, tasks, run]
    rfl
  · change after.map Hwpool.cpuset = _
    rw [cpusets, List.map_map, ready.groupSize]
    rfl

theorem mSplit_unmapped (ready : hs.Ready) (none_ : hs.pieces = []) {colors : List Int}
    (host : hs.cut.hostMap = .ok (colors, ∅)) : ∃ hs', hs.mSplit = .ok hs' ∧ Unpainted hs hs' := by
  have pools : hs.hwpools.length = hs.colors.length := by rw [ready.hwpools, List.length_replicate]
  obtain ⟨after, run, cpusets, dealt⟩ := devices_dealt hs.baseHwpool hs.hwpools
    (by rw [pools]; exact List.length_pos_iff.2 ready.tasks)
    (by
      intro t p member
      rw [ready.hwpools] at member
      rw [List.eq_of_mem_replicate member]
      rfl)
  refine ⟨{ hs.cut with hwpools := after, colors := [] }, ?_, none_, rfl, ?_, ?_, dealt⟩
  · rw [mSplit_eq, host]
    simp only [bind, Except.bind, vectorResize]
    rw [(QviMap.assigns_zero id).toList, (QviMap.assigns_zero id).size]
    simp only [List.range_zero, List.map_nil, List.foldlM_nil, pure, Except.pure, run]
    simp
  · have := congrArg List.length cpusets
    simp only [List.length_map] at this
    change after.length = _
    rw [this, pools, ready.groupSize]
  · intro pool member
    have inMap := List.mem_map_of_mem (f := Hwpool.cpuset) (show pool ∈ after from member)
    rw [cpusets, ready.hwpools, List.map_replicate] at inMap
    exact List.eq_of_mem_replicate inMap

/-! ## How a split can end -/

/-- Nobody gave a negative colour. -/
def UserColored (colors : List Int) : Prop := ∀ c ∈ colors, 0 ≤ c

instance (colors : List Int) : Decidable (UserColored colors) :=
  inferInstanceAs (Decidable (∀ c ∈ colors, _))

/-- Some colours are negative and some are not. -/
def MixedColors (colors : List Int) : Prop := (∃ c ∈ colors, c < 0) ∧ ∃ c ∈ colors, 0 ≤ c

instance (colors : List Int) : Decidable (MixedColors colors) :=
  inferInstanceAs (Decidable ((∃ c ∈ colors, _) ∧ ∃ c ∈ colors, _))

theorem AutoPolicy.negative {colors : List Int} (policy : AutoPolicy colors) : ∀ c ∈ colors, c < 0 := by
  intro c member
  rcases policy with every | every | every <;> rw [every c member] <;> decide

/-- Signs that are not mixed are all negative if one is. -/
theorem negative_of_not_mixed {colors : List Int} (pure_ : ¬ MixedColors colors) {a : Int}
    (memA : a ∈ colors) (neg : a < 0) : ∀ c ∈ colors, c < 0 := by
  intro c member
  by_contra nonneg
  exact pure_ ⟨⟨a, memA, neg⟩, c, member, not_lt.1 nonneg⟩

/-- **User colours that fit** divide the pieces: a task's colour, as it is or clamped,
is the number of its piece. -/
theorem mSplit_user (ready : hs.Ready) (user : UserColored hs.colors)
    (few : (colorSet hs.colors).size ≤ hs.pieces.length) :
    ∃ hs', hs.mSplit = .ok hs' ∧ Divided hs hs' fun i => (hs.cut.userColors[i]?.getD 0).toNat := by
  obtain ⟨map, host, assigns, below⟩ := hostMap_user hs.cut ready.tasks user few
  exact mSplit_mapped ready host (length_userColors hs.cut) assigns below

/-- **PACKED with pieces**: task `i` is in the block of its piece. -/
theorem mSplit_packed (ready : hs.Ready) (every : ∀ c ∈ hs.colors, c = splitPacked)
    (full : hs.pieces ≠ []) :
    ∃ hs', hs.mSplit = .ok hs' ∧
      Divided hs hs' (BalancedBlocks.blockOf hs.groupSize hs.pieces.length) := by
  have pos := List.length_pos_iff.2 full
  obtain ⟨map, host, assigns⟩ :=
    hostMap_packed hs.cut ready.tasks every ready.groupSize pos length_pieces_le
  rw [ready.groupSize]
  exact mSplit_mapped ready host rfl assigns fun i inside =>
    (BalancedBlocks.blockOf_bounds pos inside).1

/-- **SPREAD with pieces**: task `i` is dealt piece `i` in turn. -/
theorem mSplit_spread (ready : hs.Ready) (every : ∀ c ∈ hs.colors, c = splitSpread)
    (full : hs.pieces ≠ []) :
    ∃ hs', hs.mSplit = .ok hs' ∧ Divided hs hs' fun i => i % hs.pieces.length := by
  have pos := List.length_pos_iff.2 full
  obtain ⟨map, host, assigns⟩ :=
    hostMap_spread hs.cut ready.tasks every ready.groupSize pos length_pieces_le
  exact mSplit_mapped ready host rfl assigns fun i _ => Nat.mod_lt i pos

/-- **An automatic policy with pieces** divides them. -/
theorem mSplit_auto (ready : hs.Ready) (policy : AutoPolicy hs.colors) (full : hs.pieces ≠ []) :
    ∃ hs' f, hs.mSplit = .ok hs' ∧ Divided hs hs' f := by
  rcases policy with close | packed | spread
  · obtain ⟨map, f, host, assigns, below⟩ := hostMap_close hs.cut ready.tasks close
      ready.affinities (List.length_pos_iff.2 full)
    obtain ⟨hs', run, divided⟩ := mSplit_mapped ready host rfl assigns below
    exact ⟨hs', f, run, divided⟩
  · obtain ⟨hs', run, divided⟩ := mSplit_packed ready packed full
    exact ⟨hs', _, run, divided⟩
  · obtain ⟨hs', run, divided⟩ := mSplit_spread ready spread full
    exact ⟨hs', _, run, divided⟩

/-- The four ways a split ends, by the colours and by whether the cut has pieces. -/
inductive Ending (hs : Hwsplit) : Prop where
  | divided (hs' : Hwsplit) (f : Nat → Nat) (run : hs.mSplit = .ok hs') (shape : Divided hs hs' f)
      (when : UserColored hs.colors ∨ AutoPolicy hs.colors ∧ hs.pieces ≠ [])
  | rejected (rc : Rc) (failure : rc ≠ .success) (run : hs.mSplit = .error (.ret rc))
      (when : UserColored hs.colors ∨ (∀ c ∈ hs.colors, c < 0) ∧ ¬ AutoPolicy hs.colors)
  | emptyClose (run : hs.mSplit = .error (.thrown .errNotSupported)) (none_ : hs.pieces = [])
      (when : ∀ c ∈ hs.colors, c = splitClose)
  | emptyPacked (hs' : Hwsplit) (run : hs.mSplit = .ok hs') (shape : Unpainted hs hs')
      (none_ : hs.pieces = []) (when : ∀ c ∈ hs.colors, c = splitPacked)
  | emptySpread (run : hs.mSplit = .error .trap) (none_ : hs.pieces = [])
      (when : ∀ c ∈ hs.colors, c = splitSpread)
  | mixed (run : hs.mSplit = .error .trap) (when : MixedColors hs.colors)

/-- **How a split can end.** -/
theorem mSplit_cases (ready : hs.Ready) : Ending hs := by
  by_cases user : UserColored hs.colors
  · by_cases few : (colorSet hs.colors).size ≤ hs.pieces.length
    · obtain ⟨hs', run, shape⟩ := mSplit_user ready user few
      exact .divided hs' _ run shape (Or.inl user)
    · exact .rejected .errSplit (by decide)
        (mSplit_fault (hostMap_tooMany hs.cut ready.tasks user (Nat.lt_of_not_le few)))
        (Or.inl user)
  · have someNeg : ∃ c ∈ hs.colors, c < 0 := by simpa [UserColored] using user
    by_cases negative : ∀ c ∈ hs.colors, c < 0
    · by_cases policy : AutoPolicy hs.colors
      · by_cases none_ : hs.pieces = []
        · rcases policy with close | packed | spread
          · exact .emptyClose (mSplit_fault (hostMap_close_empty hs.cut ready.tasks close
              ready.affinities none_)) none_ close
          · obtain ⟨hs', run, shape⟩ := mSplit_unmapped ready none_
              (hostMap_packed_empty hs.cut ready.tasks packed none_)
            exact .emptyPacked hs' run shape none_ packed
          · exact .emptySpread (mSplit_fault (hostMap_spread_empty hs.cut ready.tasks spread
              ready.groupSize none_)) none_ spread
        · obtain ⟨hs', f, run, shape⟩ := mSplit_auto ready policy none_
          exact .divided hs' f run shape (Or.inr ⟨policy, none_⟩)
      · exact .rejected .errInvldArg (by decide)
          (mSplit_fault (hostMap_invalid hs.cut ready.tasks negative policy))
          (Or.inr ⟨negative, policy⟩)
    · obtain ⟨a, memA, neg⟩ := someNeg
      obtain ⟨b, memB, nonneg⟩ : ∃ c ∈ hs.colors, 0 ≤ c := by simpa using negative
      exact .mixed (mSplit_fault (hostMap_mixed hs.cut memA neg memB nonneg))
        ⟨⟨a, memA, neg⟩, b, memB, nonneg⟩

/-- How a split that succeeds has ended: the pieces are divided, or it was PACKED over an
empty cut. -/
theorem mSplit_ok_cases (ready : hs.Ready) {hs' : Hwsplit} (run : hs.mSplit = .ok hs') :
    (∃ f, Divided hs hs' f) ∨
      Unpainted hs hs' ∧ hs.pieces = [] ∧ ∀ c ∈ hs.colors, c = splitPacked := by
  cases mSplit_cases ready with
  | divided hs'' f run' shape when =>
      obtain rfl := Except.ok.inj (run.symm.trans run')
      exact Or.inl ⟨f, shape⟩
  | emptyPacked hs'' run' shape none_ when =>
      obtain rfl := Except.ok.inj (run.symm.trans run')
      exact Or.inr ⟨shape, none_, when⟩
  | rejected rc failure run' when => rw [run'] at run; cases run
  | emptyClose run' none_ when => rw [run'] at run; cases run
  | emptySpread run' none_ when => rw [run'] at run; cases run
  | mixed run' when => rw [run'] at run; cases run

/-! ## Colours and cpusets -/

/-- The class invariant the scatter of the results relies on: one colour and one
pool per task, and the pool has the cpuset of its colour. -/
structure Consistent (hs : Hwsplit) (k : Nat) : Prop where
  colors : hs.colors.length = k
  hwpools : hs.hwpools.length = k
  painted : ∀ i < k, ∃ (c : Nat) (pool : Hwpool), hs.colors[i]? = some (c : Int) ∧
    hs.hwpools[i]? = some pool ∧ c < hs.splitCpusets.length ∧
    hs.splitCpusets[c]? = some pool.cpuset

theorem Divided.length {hs' : Hwsplit} {f : Nat → Nat} (divided : Divided hs hs' f) :
    hs'.hwpools.length = hs.groupSize := by
  simpa using congrArg List.length divided.cpusets

/-- The pool of a task. -/
theorem Divided.pool {hs' : Hwsplit} {f : Nat → Nat} (divided : Divided hs hs' f) {i : Nat}
    (below : i < hs.groupSize) :
    ∃ pool, hs'.hwpools[i]? = some pool ∧ hs.pieces[f i]? = some pool.cpuset := by
  have inPools : i < hs'.hwpools.length := by rwa [divided.length]
  have inPieces := divided.below i below
  have same : (hs'.hwpools.map Hwpool.cpuset)[i]? =
      ((List.range hs.groupSize).map fun i => hs.pieces[f i]?.getD ∅)[i]? := by
    rw [divided.cpusets]
  rw [List.getElem?_map, List.getElem?_map, List.getElem?_range below,
    List.getElem?_eq_getElem inPools, Option.map_some, Option.map_some,
    List.getElem?_eq_getElem inPieces, Option.getD_some, Option.some.injEq] at same
  exact ⟨hs'.hwpools[i], List.getElem?_eq_getElem inPools,
    by rw [List.getElem?_eq_getElem inPieces, same]⟩

theorem Divided.pool_subset {hs' : Hwsplit} {f : Nat → Nat} (divided : Divided hs hs' f)
    {pool : Hwpool} (member : pool ∈ hs'.hwpools) :
    pool.cpuset ⊆ opOr (hs.hwloc.inside .pu hs.priCpuset) := by
  obtain ⟨i, found⟩ := List.mem_iff_getElem?.1 member
  have below : i < hs.groupSize := by
    rw [← divided.length]
    exact (List.getElem?_eq_some_iff.1 found).1
  obtain ⟨pool', found', piece⟩ := divided.pool below
  obtain rfl := Option.some.inj (found.symm.trans found')
  have inPieces := List.mem_of_getElem? piece
  unfold pieces at inPieces
  split at inPieces
  · rename_i able
    intro x memX
    rw [← Hwloc.opOr_pieces hs.priCpuset (by have := able.1; omega : 0 < hs.realSplitSize)]
    exact mem_opOr.2 ⟨pool.cpuset, inPieces, memX⟩
  · simp at inPieces

theorem Divided.color {hs' : Hwsplit} {f : Nat → Nat} (divided : Divided hs hs' f) {i : Nat}
    (below : i < hs.groupSize) : hs'.colors[i]? = some (f i : Int) := by
  rw [divided.colors, List.getElem?_map, List.getElem?_range below, Option.map_some]

theorem Divided.consistent {hs' : Hwsplit} {f : Nat → Nat} (divided : Divided hs hs' f) :
    hs'.Consistent hs.groupSize := by
  refine ⟨by simp [divided.colors], divided.length, ?_⟩
  intro i below
  obtain ⟨pool, found, piece⟩ := divided.pool below
  refine ⟨f i, pool, divided.color below, found, ?_, ?_⟩
  · rw [divided.splitCpusets]
    exact divided.below i below
  · rw [divided.splitCpusets, piece]

/-- **When a successful split has a colour and the right cpuset for every task**:
always, except for PACKED over an empty cut. -/
theorem mSplit_consistent_iff (hwloc : Hwloc) (npieces : Nat) (splitAtType : HwObjType)
    (base : Hwpool) (colors : List Int) (taskAffinities : List Bitmap) (tasks : colors ≠ [])
    (same : taskAffinities.length = colors.length) :
    (AutoPolicy colors ∨ UserColored colors → ∀ hs',
      (prepared hwloc npieces splitAtType base colors taskAffinities).mSplit = .ok hs' →
        hs'.Consistent colors.length) ↔
      ¬ ((∀ c ∈ colors, c = splitPacked) ∧
        ¬ hwloc.Splittable (prepared hwloc npieces splitAtType base colors taskAffinities).priCpuset
          (min npieces colors.length)) := by
  have ready := prepared_ready hwloc npieces splitAtType base colors taskAffinities tasks same
  constructor
  · rintro every ⟨packed, empty⟩
    have none_ : (prepared hwloc npieces splitAtType base colors taskAffinities).pieces = [] :=
      pieces_eq_nil_iff.2 empty
    obtain ⟨hs', run, shape⟩ := mSplit_unmapped ready none_
      (hostMap_packed_empty (cut _) ready.tasks packed none_)
    have short := (every (Or.inl (Or.inr (Or.inl packed))) hs' run).colors
    rw [shape.colors, List.length_nil] at short
    exact tasks (List.length_eq_zero_iff.1 short.symm)
  · intro fine _ hs' run
    rcases mSplit_ok_cases ready run with ⟨f, shape⟩ | ⟨-, none_, packed⟩
    · exact shape.consistent
    · exact absurd ⟨packed, pieces_eq_nil_iff.1 none_⟩ fine

/-- Two tasks that name the two PUs of a machine by colour. -/
theorem mSplit_consistent_twoPus :
    ∃ hs', (prepared (.onePackage 2 []) 2 .last (.ofCpuset {0, 1}) [0, 1] [{0, 1}, {0, 1}]).mSplit =
        .ok hs' ∧ hs'.Consistent 2 := by
  obtain ⟨hs', run, -⟩ := mSplit_user
    (prepared_ready (.onePackage 2 []) 2 .last (.ofCpuset {0, 1}) [0, 1] [{0, 1}, {0, 1}]
      (by decide) rfl) (by decide) (by decide)
  exact ⟨hs', run, (mSplit_consistent_iff _ _ _ _ _ _ (by decide) rfl).2 (by decide) (by decide)
    hs' run⟩

/-- Two tasks, one PU, two pieces: PACKED succeeds without a colour for anybody. -/
theorem mSplit_packed_onePu_inconsistent :
    AutoPolicy [splitPacked, splitPacked] ∧
      ∃ hs', (prepared (.onePackage 1 []) 2 .last (.ofCpuset {0}) [splitPacked, splitPacked]
          [{0}, {0}]).mSplit = .ok hs' ∧ hs'.colors = [] ∧ ¬ hs'.Consistent 2 := by
  have ready := prepared_ready (.onePackage 1 []) 2 .last (.ofCpuset {0})
    [splitPacked, splitPacked] [{0}, {0}] (by decide) rfl
  have none_ : (prepared (.onePackage 1 []) 2 .last (.ofCpuset {0}) [splitPacked, splitPacked]
      [{0}, {0}]).pieces = [] := pieces_eq_nil_iff.2 (by decide)
  obtain ⟨hs', run, shape⟩ := mSplit_unmapped ready none_
    (hostMap_packed_empty (cut _) ready.tasks (by decide) none_)
  refine ⟨by decide, hs', run, shape.colors, fun consistent => ?_⟩
  have short := consistent.colors
  rw [shape.colors] at short
  simp at short

/-! ## Conservation of PUs -/

theorem priCpuset_host (host : objResClass hs.splitAtType ≠ .dev) :
    hs.priCpuset = hs.baseHwpool.cpuset := by
  unfold priCpuset mPrimaryCpusetForSplit
  split
  · rfl
  · rfl
  · rename_i device
    exact absurd device host

/-- How often a colour is given out. -/
theorem Divided.count {hs' : Hwsplit} {f : Nat → Nat} (divided : Divided hs hs' f) (j : Nat) :
    hs'.colors.count (j : Int) = ((Finset.range hs.groupSize).filter fun i => f i = j).card := by
  rw [divided.colors, List.count, List.countP_map, ← Nat.count_eq_card_filter_range, Nat.count]
  congr 1
  funext i
  rw [Bool.eq_iff_iff]
  simp

/-- A cut all of whose pieces are given out gives out every PU. -/
theorem Divided.opOr_cpusets {hs' : Hwsplit} {f : Nat → Nat} (divided : Divided hs hs' f)
    (full : hs.pieces ≠ [])
    (onto : ∀ j < hs.pieces.length, ∃ i < hs.groupSize, f i = j) :
    opOr (hs'.hwpools.map Hwpool.cpuset) = opOr (hs.hwloc.inside .pu hs.priCpuset) := by
  have able : hs.hwloc.Splittable hs.priCpuset hs.realSplitSize := by
    by_contra empty
    exact full (pieces_eq_nil_iff.2 empty)
  have cutEq : hs.pieces = hs.hwloc.pieces hs.priCpuset hs.realSplitSize := by
    rw [pieces, if_pos able]
  rw [← Hwloc.opOr_pieces hs.priCpuset (by have := able.1; omega : 0 < hs.realSplitSize), ← cutEq,
    divided.cpusets]
  ext x
  simp only [mem_opOr, List.mem_map, List.mem_range]
  constructor
  · rintro ⟨b, ⟨i, below, rfl⟩, memX⟩
    have inPieces := divided.below i below
    rw [List.getElem?_eq_getElem inPieces, Option.getD_some] at memX
    exact ⟨_, List.getElem_mem inPieces, memX⟩
  · rintro ⟨piece, member, memX⟩
    obtain ⟨j, found⟩ := List.mem_iff_getElem?.1 member
    obtain ⟨i, below, rfl⟩ := onto j (List.getElem?_eq_some_iff.1 found).1
    exact ⟨piece, ⟨i, below, by rw [found, Option.getD_some]⟩, memX⟩

/-- The policies that do not look at affinities give every piece to about as many
tasks. -/
theorem mSplit_balanced (ready : hs.Ready)
    (policy : (∀ c ∈ hs.colors, c = splitPacked) ∨ ∀ c ∈ hs.colors, c = splitSpread)
    (full : hs.pieces ≠ []) :
    ∃ hs' f, hs.mSplit = .ok hs' ∧ Divided hs hs' f ∧
      ∀ j < hs.pieces.length, ((Finset.range hs.groupSize).filter fun i => f i = j).card =
        BalancedBlocks.size hs.groupSize hs.pieces.length j := by
  rcases policy with packed | spread
  · obtain ⟨hs', run, divided⟩ := mSplit_packed ready packed full
    exact ⟨hs', _, run, divided, fun j inside => BalancedBlocks.card_blockOf inside⟩
  · obtain ⟨hs', run, divided⟩ := mSplit_spread ready spread full
    exact ⟨hs', _, run, divided, fun j inside => BalancedBlocks.card_mod inside⟩

/-- A balanced division gives every piece to somebody. -/
theorem onto_of_balanced {f : Nat → Nat} (full : hs.pieces ≠ [])
    (balanced : ∀ j < hs.pieces.length, ((Finset.range hs.groupSize).filter fun i => f i = j).card =
      BalancedBlocks.size hs.groupSize hs.pieces.length j) :
    ∀ j < hs.pieces.length, ∃ i < hs.groupSize, f i = j := by
  intro j inside
  have some_ : 0 < ((Finset.range hs.groupSize).filter fun i => f i = j).card := by
    rw [balanced j inside]
    exact BalancedBlocks.size_pos (List.length_pos_iff.2 full) length_pieces_le j
  obtain ⟨i, member⟩ := Finset.card_pos.1 some_
  rw [Finset.mem_filter, Finset.mem_range] at member
  exact ⟨i, member⟩

/-- **No PU is lost and none is invented** by PACKED and SPREAD. -/
theorem mSplit_conserves (hwloc : Hwloc) (npieces : Nat) (splitAtType : HwObjType) (base : Hwpool)
    (colors : List Int) (taskAffinities : List Bitmap) (tasks : colors ≠ [])
    (same : taskAffinities.length = colors.length) (host : objResClass splitAtType ≠ .dev)
    (policy : (∀ c ∈ colors, c = splitPacked) ∨ ∀ c ∈ colors, c = splitSpread)
    (least : 1 ≤ min npieces colors.length)
    (enough : min npieces colors.length ≤ (hwloc.inside .pu base.cpuset).length) :
    ∃ hs', (prepared hwloc npieces splitAtType base colors taskAffinities).mSplit = .ok hs' ∧
      hs'.splitCpusets.length = min npieces colors.length ∧
      hs'.hwpools.length = colors.length ∧ hs'.colors.length = colors.length ∧
      (∀ i < colors.length, ∃ (c : Nat) (pool : Hwpool), hs'.colors[i]? = some (c : Int) ∧
        hs'.hwpools[i]? = some pool ∧ hs'.splitCpusets[c]? = some pool.cpuset ∧
        pool.cpuset.Nonempty) ∧
      (∀ j < min npieces colors.length,
        hs'.colors.count (j : Int) = colors.length / min npieces colors.length ∨
        hs'.colors.count (j : Int) =
          (colors.length + min npieces colors.length - 1) / min npieces colors.length) ∧
      opOr (hs'.hwpools.map Hwpool.cpuset) = opOr (hwloc.inside .pu base.cpuset) := by
  have ready := prepared_ready hwloc npieces splitAtType base colors taskAffinities tasks same
  generalize shape : prepared hwloc npieces splitAtType base colors taskAffinities = hs at ready ⊢
  have pri : hs.priCpuset = base.cpuset := by
    subst shape
    exact priCpuset_host host
  have size : hs.realSplitSize = min npieces colors.length := by subst shape; rfl
  have group : hs.groupSize = colors.length := by subst shape; rfl
  have topo : hs.hwloc = hwloc := by subst shape; rfl
  have able : hs.hwloc.Splittable hs.priCpuset hs.realSplitSize := by
    rw [pri, size, topo]
    exact ⟨least, enough⟩
  have cutEq : hs.pieces = hs.hwloc.pieces hs.priCpuset hs.realSplitSize := by
    rw [pieces, if_pos able]
  have count : hs.pieces.length = min npieces colors.length := by
    rw [cutEq, Hwloc.length_pieces, size]
  have full : hs.pieces ≠ [] := fun empty => pieces_eq_nil_iff.1 empty able
  obtain ⟨hs', f, run, divided, balanced⟩ :=
    mSplit_balanced ready (by subst shape; exact policy) full
  refine ⟨hs', run, by rw [divided.splitCpusets, count], by rw [divided.length, group],
    by simp [divided.colors, group], ?_, ?_, ?_⟩
  · intro i below
    rw [← group] at below
    obtain ⟨pool, found, piece⟩ := divided.pool below
    refine ⟨f i, pool, divided.color below, found, by rw [divided.splitCpusets, piece], ?_⟩
    exact Hwloc.piece_nonempty able (by rw [← cutEq]; exact List.mem_of_getElem? piece)
  · intro j inside
    rw [← count] at inside
    rw [divided.count, balanced j inside, count, group]
    exact BalancedBlocks.size_floor_or_ceil (by omega) j
  · rw [divided.opOr_cpusets full (onto_of_balanced full balanced), pri, topo]

/-- Three tasks spread over two PUs. -/
theorem mSplit_conserves_twoPus :
    ∃ hs', (prepared (.onePackage 2 []) 2 .last (.ofCpuset {0, 1})
        [splitSpread, splitSpread, splitSpread] [∅, ∅, ∅]).mSplit = .ok hs' ∧
      opOr (hs'.hwpools.map Hwpool.cpuset) = {0, 1} := by
  obtain ⟨hs', run, -, -, -, -, -, union⟩ := mSplit_conserves (.onePackage 2 []) 2 .last
    (.ofCpuset {0, 1}) [splitSpread, splitSpread, splitSpread] [∅, ∅, ∅] (by decide) rfl (by decide)
    (Or.inr (by decide)) (by decide) (by decide)
  exact ⟨hs', run, union.trans (by decide)⟩

/-! ## Containment -/

/-- Every pool of a successful split is made of PUs inside the cpuset that was cut. -/
theorem pools_subset (ready : hs.Ready) {hs' : Hwsplit} (run : hs.mSplit = .ok hs') {pool : Hwpool}
    (member : pool ∈ hs'.hwpools) : pool.cpuset ⊆ opOr (hs.hwloc.inside .pu hs.priCpuset) := by
  rcases mSplit_ok_cases ready run with ⟨f, shape⟩ | ⟨shape, -⟩
  · exact shape.pool_subset member
  · rw [shape.bare pool member]
    exact Finset.empty_subset _

/-- **PACKED and SPREAD stay inside the base pool exactly if the PUs they cut do.** -/
theorem mSplit_contained_iff (ready : hs.Ready)
    (policy : (∀ c ∈ hs.colors, c = splitPacked) ∨ ∀ c ∈ hs.colors, c = splitSpread)
    (full : hs.pieces ≠ []) {hs' : Hwsplit} (run : hs.mSplit = .ok hs') :
    (∀ pool ∈ hs'.hwpools, pool.cpuset ⊆ hs.baseHwpool.cpuset) ↔
      ∀ o ∈ hs.hwloc.inside .pu hs.priCpuset, o ⊆ hs.baseHwpool.cpuset := by
  obtain ⟨hs'', f, run', divided, balanced⟩ := mSplit_balanced ready policy full
  obtain rfl := Except.ok.inj (run.symm.trans run')
  constructor
  · intro contained o member x memX
    have onto := onto_of_balanced full balanced
    have inUnion : x ∈ opOr (hs'.hwpools.map Hwpool.cpuset) := by
      rw [divided.opOr_cpusets full onto]
      exact mem_opOr.2 ⟨o, member, memX⟩
    obtain ⟨b, inMap, memB⟩ := mem_opOr.1 inUnion
    obtain ⟨pool, inPools, rfl⟩ := List.mem_map.1 inMap
    exact contained pool inPools memB
  · intro contained pool member x memX
    obtain ⟨o, inside, memO⟩ := mem_opOr.1 (pools_subset ready run member memX)
    exact contained o inside memO

/-! ## Partition of the devices -/

/-- A dealt type: every device is in one pool. -/
theorem Dealt.exists_unique {base : Hwpool} {pools : List Hwpool} {t : HwObjType} {g : Nat → Nat}
    (dealt : Dealt base pools t g) {busId : String} (has : base.Has t busId) :
    ∃! i : Nat, ∃ pool : Hwpool, pools[i]? = some pool ∧ pool.Has t busId := by
  obtain ⟨d, member, rfl⟩ := has
  obtain ⟨j, found⟩ := List.mem_iff_getElem?.1 member
  have inDevs := (List.getElem?_eq_some_iff.1 found).1
  have inPools := dealt.below j inDevs
  have poolAt := List.getElem?_eq_getElem inPools
  refine ⟨g j, ⟨pools[g j], poolAt, d, (dealt.mem _ _ poolAt d).2 ⟨j, found, rfl⟩, rfl⟩, ?_⟩
  rintro i ⟨pool, here, d', member', sameId⟩
  obtain ⟨j', found', rfl⟩ := (dealt.mem i pool here d').1 member'
  -- bus IDs of the base pool are distinct, so this is the same device
  have : j' = j := by
    have inDevs' := (List.getElem?_eq_some_iff.1 found').1
    have atJ := (List.getElem?_eq_some_iff.1 found).2
    have atJ' := (List.getElem?_eq_some_iff.1 found').2
    have distinct := List.pairwise_iff_getElem.1 (base.distinct t)
    rcases Nat.lt_trichotomy j' j with less | equal | more
    · exact absurd (by rw [← atJ, ← atJ'] at sameId; exact sameId) (distinct j' j inDevs' inDevs less)
    · exact equal
    · exact absurd (by rw [← atJ, ← atJ'] at sameId; exact sameId.symm)
        (distinct j j' inDevs inDevs' more)
  rw [this]

/-- Whenever a split succeeds, there is a pool per task and the devices are dealt. -/
theorem devices_of_ok (ready : hs.Ready) {hs' : Hwsplit} (run : hs.mSplit = .ok hs') :
    hs'.hwpools.length = hs.groupSize ∧
      ∀ t, objResClass t = .dev → ∃ g, Dealt hs.baseHwpool hs'.hwpools t g := by
  rcases mSplit_ok_cases ready run with ⟨f, shape⟩ | ⟨shape, -⟩
  · exact ⟨shape.length, shape.devices⟩
  · exact ⟨shape.length, shape.devices⟩

/-- **Devices are partitioned by a split.** -/
theorem mSplit_partitions_devices (hwloc : Hwloc) (npieces : Nat) (splitAtType : HwObjType)
    (base : Hwpool) (colors : List Int) (taskAffinities : List Bitmap) (tasks : colors ≠ [])
    (same : taskAffinities.length = colors.length) (hs' : Hwsplit)
    (run : (prepared hwloc npieces splitAtType base colors taskAffinities).mSplit = .ok hs')
    (t : HwObjType) (device : objResClass t = .dev) :
    hs'.hwpools.length = colors.length ∧
      (∀ busId, base.Has t busId →
        ∃! i : Nat, ∃ pool : Hwpool, hs'.hwpools[i]? = some pool ∧ pool.Has t busId) ∧
      (∀ pool ∈ hs'.hwpools, ∀ d ∈ pool.devices t, d ∈ base.devices t) ∧
      (∀ pool ∈ hs'.hwpools, (pool.devices t).length ≤
        ((base.devices t).length + colors.length - 1) / colors.length) ∧
      ∀ map devs2hres,
        qviMapClose { srcAffinities := (base.devices t).map fun d => d.affinity,
                      dstAffinities := hs'.hwpools.map Hwpool.cpuset, mapFn := .close } map =
          .ok devs2hres →
        colors.length > (base.devices t).length → qviMapUniq devs2hres = devs2hres := by
  obtain ⟨length, deal⟩ := devices_of_ok (prepared_ready hwloc npieces splitAtType base colors taskAffinities tasks same) run
  obtain ⟨g, dealt⟩ := deal t device
  have length : hs'.hwpools.length = colors.length := length
  refine ⟨length, fun busId has => dealt.exists_unique has, ?_, ?_, ?_⟩
  · intro pool member d memD
    obtain ⟨i, found⟩ := List.mem_iff_getElem?.1 member
    obtain ⟨j, at_, -⟩ := (dealt.mem i pool found d).1 memD
    exact List.mem_of_getElem? at_
  · intro pool member
    obtain ⟨i, found⟩ := List.mem_iff_getElem?.1 member
    have bound := dealt.count i pool found
    have pos : colors.length ≠ 0 := fun zero => tasks (List.length_eq_zero_iff.1 zero)
    rw [length, qviMaxiperk, if_neg pos] at bound
    exact bound
  · intro map devs2hres mapped more
    refine qviMapUniq_close ?_ ?_ mapped
    · simp only [List.length_map]
      omega
    · simp only [List.length_map]
      omega

/-- One GPU and two tasks: one of them gets it. -/
theorem mSplit_partitions_oneGpu :
    ∃ hs', (prepared (.onePackage 2 ["0000:01:00.0"]) 2 .last
        (Hwpool.populate (.onePackage 2 ["0000:01:00.0"]) {0, 1}) [splitClose, splitClose]
        [{0}, {1}]).mSplit = .ok hs' ∧
      ∃! i : Nat, ∃ pool : Hwpool, hs'.hwpools[i]? = some pool ∧ pool.Has .gpu "0000:01:00.0" := by
  have ready := prepared_ready (.onePackage 2 ["0000:01:00.0"]) 2 .last
    (Hwpool.populate (.onePackage 2 ["0000:01:00.0"]) {0, 1})
    [splitClose, splitClose] [{0}, {1}] (by decide) rfl
  obtain ⟨hs', f, run, -⟩ := mSplit_auto ready (by decide)
    fun empty => pieces_eq_nil_iff.1 empty (by decide)
  obtain ⟨-, unique, -⟩ := mSplit_partitions_devices _ _ _ _ _ _ (by decide) rfl hs' run .gpu rfl
  exact ⟨hs', run, unique _ (by decide)⟩

end Hwsplit

end QuoVadis.Kernel
