/-
# Kernel.ObjectCounts -- the number of pieces of `split_at`

`split_at` counts the objects in the caller's own pool, and the root's count is the
one that is used; what is split is the union of all members' pools.  Members of a
scope always share their cpuset, so counts of host objects agree.  Devices are dealt
out task by task, so members that stay together after a split hold different ones:

* `Shared`: what the members of a scope have in common, kept by every step
  (`shared_step`, `shared_run`);
* `counts_agree_iff`: the counts agree exactly for the intrinsic scopes, the scopes
  of one task, and those without devices.
-/
import QuoVadis.Kernel.Scope

namespace QuoVadis.Kernel

set_option autoImplicit false

/-! ## Devices by bus ID -/

namespace Hwpool

/-- The bus IDs of a pool's devices of a type. -/
def busIds (p : Hwpool) (t : HwObjType) : Finset String :=
  ((p.devices t).map fun d => d.pciBusId).toFinset

theorem mem_busIds {p : Hwpool} {t : HwObjType} {busId : String} :
    busId ∈ p.busIds t ↔ p.Has t busId := by
  simp [busIds, Has]

/-- There are as many as there are devices. -/
theorem card_busIds (p : Hwpool) (t : HwObjType) : (p.busIds t).card = (p.devices t).length := by
  have distinct : ((p.devices t).map fun d => d.pciBusId).Nodup := by
    rw [List.nodup_iff_pairwise_ne, List.pairwise_map]
    exact p.distinct t
  rw [busIds, List.toFinset_card_of_nodup distinct, List.length_map]

theorem busIds_eq_empty_iff {p : Hwpool} {t : HwObjType} : p.busIds t = ∅ ↔ p.devices t = [] := by
  rw [← Finset.card_eq_zero, card_busIds, List.length_eq_zero_iff]

/-- The union has the devices of all. -/
theorem busIds_subset_setUnion {pools : List Hwpool} {p : Hwpool} (member : p ∈ pools)
    {t : HwObjType} (device : objResClass t = .dev) : p.busIds t ⊆ (setUnion pools).busIds t := by
  intro busId has
  rw [mem_busIds] at has ⊢
  exact has_setUnion.2 ⟨device, p, member, has⟩

/-- A count of devices. -/
theorem nobjects_device (h : Hwloc) (p : Hwpool) {t : HwObjType} (device : objResClass t = .dev) :
    p.nobjects h t = .ok (p.busIds t).card := by
  rw [nobjects, device, card_busIds]

/-- A count of host objects looks at the cpuset only. -/
theorem nobjects_host (h : Hwloc) {p p' : Hwpool} {t : HwObjType} (host : objResClass t = .host)
    (same : p.cpuset = p'.cpuset) : p.nobjects h t = p'.nobjects h t := by
  rw [nobjects, nobjects, host, same]

/-- No device is in both pools. -/
def Apart (p p' : Hwpool) : Prop := ∀ t, objResClass t = .dev → Disjoint (p.busIds t) (p'.busIds t)

end Hwpool

/-! ## What the members of a scope have in common -/

/-- Members of a scope have one cpuset.  In an intrinsic scope they have the same pool;
in any other, no two of them have a device in common. -/
structure Shared (g : ScopeGroup) : Prop where
  cpuset : ∀ p ∈ g.pools, ∀ p' ∈ g.pools, p.cpuset = p'.cpuset
  intrinsic : g.origin = .intrinsic → ∀ p ∈ g.pools, ∀ p' ∈ g.pools, p = p'
  dealt : g.origin ≠ .intrinsic → g.pools.Pairwise Hwpool.Apart

theorem Hwsplit.Divided.apart {hs hs' : Hwsplit} {f : Nat → Nat} (divided : Divided hs hs' f) :
    hs'.hwpools.Pairwise Hwpool.Apart := by
  refine List.pairwise_iff_getElem.2 fun i j inI inJ less t device => ?_
  obtain ⟨g, dealt⟩ := divided.devices t device
  refine Finset.disjoint_left.2 fun busId hasI hasJ => ?_
  rw [Hwpool.mem_busIds] at hasI hasJ
  have atI := List.getElem?_eq_getElem inI
  have atJ := List.getElem?_eq_getElem inJ
  have has : hs.baseHwpool.Has t busId := by
    obtain ⟨d, member, rfl⟩ := hasI
    obtain ⟨k, found, -⟩ := (dealt.mem i _ atI d).1 member
    exact ⟨d, List.mem_of_getElem? found, rfl⟩
  have same := (dealt.exists_unique has).unique ⟨_, atI, hasI⟩ ⟨_, atJ, hasJ⟩
  omega

/-- A colour of a split stands for one cpuset. -/
theorem Hwsplit.Divided.cpuset_of_color {hs hs' : Hwsplit} {f : Nat → Nat}
    (divided : Divided hs hs' f) {color : Int} {p : Hwpool}
    (member : (color, p) ∈ hs'.colors.zip hs'.hwpools) :
    hs.pieces[color.toNat]? = some p.cpuset := by
  obtain ⟨i, found⟩ := List.mem_iff_getElem?.1 member
  obtain ⟨colorAt, poolAt⟩ : hs'.colors[i]? = some color ∧ hs'.hwpools[i]? = some p :=
    List.getElem?_zip_eq_some.1 found
  have below : i < hs.groupSize := by
    rw [← divided.length]
    exact (List.getElem?_eq_some_iff.1 poolAt).1
  obtain ⟨pool, poolAt', piece⟩ := divided.pool below
  obtain rfl := Option.some.inj (poolAt.symm.trans poolAt')
  obtain rfl := Option.some.inj (colorAt.symm.trans (divided.color below))
  exact piece

/-- The children of a collective split. -/
theorem shared_children {hwloc : Hwloc} {root : SplitCall} {others : List SplitCall}
    {results : List (Int × Hwpool)} (run : scopeSplit hwloc (root :: others) = .ok results)
    {pools : List Hwpool} (child : pools ∈ children results) (base : Hwpool) (type : HwObjType) :
    Shared ⟨pools, false, .split base type⟩ := by
  obtain ⟨npieces, hs, f, divided, rfl⟩ := scopeSplit_ok run
  obtain ⟨color, -, rfl⟩ := List.mem_map.1 child
  refine ⟨?_, (fun impossible => by cases impossible), fun _ => ?_⟩
  · -- the same colour, so the same piece
    intro p member p' member'
    obtain ⟨⟨c, p⟩, inResults, rfl⟩ := List.mem_map.1 member
    obtain ⟨⟨c', p'⟩, inResults', rfl⟩ := List.mem_map.1 member'
    rw [List.mem_filter, decide_eq_true_eq] at inResults inResults'
    obtain ⟨inZip, rfl⟩ := inResults
    obtain ⟨inZip', sameColor⟩ := inResults'
    have piece := divided.cpuset_of_color inZip
    have piece' := divided.cpuset_of_color inZip'
    simp only at sameColor
    rw [sameColor, piece] at piece'
    exact Option.some.inj piece'
  · have all : (hs.colors.zip hs.hwpools).map Prod.snd = hs.hwpools :=
      List.map_snd_zip (by simp [divided.colors, divided.length])
    have apart := divided.apart
    rw [← all] at apart
    exact apart.sublist (List.filter_sublist.map Prod.snd)

/-- **Every step keeps what the members of a scope share.** -/
theorem shared_step {hwloc : Hwloc} {s s' : List ScopeGroup} (step : ScopeStep hwloc s s')
    (shared : ∀ g ∈ s, g.threads = false → Shared g) :
    ∀ g ∈ s', g.threads = false → Shared g := by
  intro g' member tasks'
  cases step with
  | split g live tasks root others held results run =>
      rcases List.mem_append.1 member with old | new
      · exact shared g' old tasks'
      · obtain ⟨pools, child, rfl⟩ := List.mem_map.1 new
        exact shared_children run child _ _
  | threadSplit g live tasks parent held request affinity kcolors khwpools run =>
      rcases List.mem_append.1 member with old | new
      · exact shared g' old tasks'
      · -- scopes of threads are not split again
        rw [List.mem_singleton.1 new] at tasks'
        cases tasks'
  | create g live tasks parent held type nobjs child run =>
      rcases List.mem_append.1 member with old | new
      · exact shared g' old tasks'
      · rw [List.mem_singleton.1 new]
        refine ⟨?_, (fun impossible => by cases impossible), fun _ => List.pairwise_singleton _ _⟩
        intro p memP p' memP'
        rw [List.mem_singleton.1 memP, List.mem_singleton.1 memP']

/-- **In all runs** from an intrinsic scope of tasks with the same cpuset, as the
intrinsic scopes of a node and of a process are. -/
theorem shared_run {hwloc : Hwloc} {k : Nat} {cpuset : Bitmap} {s : List ScopeGroup}
    (reachable : ReachableScopes hwloc (List.replicate k cpuset) s) :
    ∀ g ∈ s, g.threads = false → Shared g := by
  induction reachable with
  | refl =>
      intro g member _
      rw [List.mem_singleton.1 member]
      have only : ∀ p ∈ (intrinsicScope hwloc (List.replicate k cpuset)).pools,
          p = .populate hwloc cpuset := by
        intro p inPools
        rw [intrinsicScope, List.map_replicate] at inPools
        exact List.eq_of_mem_replicate inPools
      refine ⟨?_, ?_, fun other => absurd rfl other⟩
      · intro p memP p' memP'
        rw [only p memP, only p' memP']
      · intro _ p memP p' memP'
        rw [only p memP, only p' memP']
  | tail _ step ih => exact shared_step step ih

/-! ## Counts -/

/-- Every member counts what the union of the members' pools has. -/
def CountsAgree (hwloc : Hwloc) (pools : List Hwpool) : Prop :=
  ∀ t, objResClass t ≠ .last → ∀ p ∈ pools,
    p.nobjects hwloc t = (Hwpool.setUnion pools).nobjects hwloc t

/-- With one cpuset, it is a matter of the devices: everybody has to have them all. -/
theorem countsAgree_iff_busIds {hwloc : Hwloc} {pools : List Hwpool}
    (cpuset : ∀ p ∈ pools, ∀ p' ∈ pools, p.cpuset = p'.cpuset) :
    CountsAgree hwloc pools ↔ ∀ t, objResClass t = .dev → ∀ p ∈ pools, ∀ p' ∈ pools,
      p.busIds t = p'.busIds t := by
  have union : ∀ p ∈ pools, p.cpuset = (Hwpool.setUnion pools).cpuset := by
    intro p member
    rw [Hwpool.cpuset_setUnion]
    ext x
    rw [mem_opOr]
    constructor
    · intro memX
      exact ⟨p.cpuset, List.mem_map_of_mem member, memX⟩
    · rintro ⟨b, inMap, memX⟩
      obtain ⟨p', member', rfl⟩ := List.mem_map.1 inMap
      rwa [cpuset p member p' member']
  constructor
  · intro agree t device
    have whole : ∀ p ∈ pools, p.busIds t = (Hwpool.setUnion pools).busIds t := by
      intro p member
      have count := agree t (by rw [device]; decide) p member
      rw [Hwpool.nobjects_device hwloc _ device, Hwpool.nobjects_device hwloc _ device,
        Except.ok.injEq] at count
      exact Finset.eq_of_subset_of_card_le (Hwpool.busIds_subset_setUnion member device) count.ge
    intro p member p' member'
    rw [whole p member, whole p' member']
  · intro same t known p member
    cases kind : objResClass t with
    | last => exact absurd kind known
    | host => exact Hwpool.nobjects_host hwloc kind (union p member)
    | dev =>
        rw [Hwpool.nobjects_device hwloc _ kind, Hwpool.nobjects_device hwloc _ kind]
        congr 2
        ext busId
        rw [Hwpool.mem_busIds, Hwpool.mem_busIds, Hwpool.has_setUnion]
        constructor
        · intro has
          exact ⟨kind, p, member, has⟩
        · rintro ⟨-, p', member', has⟩
          rw [← Hwpool.mem_busIds] at has ⊢
          rwa [same t kind p member p' member']

/-- No member holds a device. -/
def Deviceless (pools : List Hwpool) : Prop :=
  ∀ p ∈ pools, ∀ t, objResClass t = .dev → p.devices t = []

/-- Members without a common device have the same devices only if they have none. -/
theorem deviceless_of_same {pools : List Hwpool} (apart : pools.Pairwise Hwpool.Apart)
    (several : 1 < pools.length)
    (same : ∀ t, objResClass t = .dev → ∀ p ∈ pools, ∀ p' ∈ pools, p.busIds t = p'.busIds t) :
    Deviceless pools := by
  intro p member t device
  have first : Disjoint (pools[0].busIds t) (pools[1].busIds t) :=
    List.pairwise_iff_getElem.1 apart 0 1 (by omega) several (by omega) t device
  rw [same t device _ (List.getElem_mem _) p member, same t device _ (List.getElem_mem _) p member,
    disjoint_self] at first
  exact Hwpool.busIds_eq_empty_iff.1 first

/-- **When the counts of a scope's members agree**, in all runs. -/
theorem counts_agree_iff (hwloc : Hwloc) (k : Nat) (cpuset : Bitmap) (s : List ScopeGroup)
    (reachable : ReachableScopes hwloc (List.replicate k cpuset) s) (g : ScopeGroup) (member : g ∈ s)
    (tasks : g.threads = false) :
    CountsAgree hwloc g.pools ↔
      g.origin = .intrinsic ∨ g.pools.length ≤ 1 ∨ Deviceless g.pools := by
  have shared := shared_run reachable g member tasks
  rw [countsAgree_iff_busIds shared.cpuset]
  constructor
  · intro same
    by_cases intrinsic : g.origin = .intrinsic
    · exact Or.inl intrinsic
    · by_cases few : g.pools.length ≤ 1
      · exact Or.inr (Or.inl few)
      · exact Or.inr (Or.inr (deviceless_of_same (shared.dealt intrinsic) (by omega) same))
  · rintro (intrinsic | few | none_) t device p memP p' memP'
    · rw [shared.intrinsic intrinsic p memP p' memP']
    · obtain ⟨i, atI⟩ := List.mem_iff_getElem?.1 memP
      obtain ⟨j, atJ⟩ := List.mem_iff_getElem?.1 memP'
      have inI := (List.getElem?_eq_some_iff.1 atI).1
      have inJ := (List.getElem?_eq_some_iff.1 atJ).1
      obtain rfl : i = j := by omega
      rw [Option.some.inj (atI.symm.trans atJ)]
    · rw [Hwpool.busIds_eq_empty_iff.2 (none_ p memP t device),
        Hwpool.busIds_eq_empty_iff.2 (none_ p' memP' t device)]

/-- Two tasks that part: each counts the GPUs it has. -/
theorem counts_agree_apart :
    ∃ s, ReachableScopes twoPusOneGpu (List.replicate 2 {0, 1}) s ∧
      ∃ g ∈ s, g.origin ≠ .intrinsic ∧ g.pools.length = 1 ∧ CountsAgree twoPusOneGpu g.pools := by
  have run : ((scopeSplit twoPusOneGpu (twoCalls 0 1 (.split 2))).map fun results =>
      (children results).map List.length) = .ok [1, 1] := by decide +kernel
  obtain ⟨results, ran, pools, child, one⟩ := exists_child run
  obtain ⟨s, reachable, member⟩ :=
    (ReachableScopes.intrinsic twoPusOneGpu (List.replicate 2 {0, 1})).split
      (List.mem_singleton_self _) rfl rfl ran child
  refine ⟨s, reachable, _, member, (fun impossible => by cases impossible), one, ?_⟩
  exact (counts_agree_iff twoPusOneGpu 2 {0, 1} s reachable _ member rfl).2
    (Or.inr (Or.inl one.le))

/-- Two tasks stay together after a split, and only one of them has the GPU: the other,
as the root, would split at no GPU at all. -/
theorem counts_differ_sharedGpu :
    ∃ s, ReachableScopes twoPusOneGpu (List.replicate 2 {0, 1}) s ∧
      ∃ g ∈ s, g.threads = false ∧ ∃ p ∈ g.pools, p.nobjects twoPusOneGpu .gpu = .ok 0 ∧
        (Hwpool.setUnion g.pools).nobjects twoPusOneGpu .gpu = .ok 1 ∧
        ¬ CountsAgree twoPusOneGpu g.pools := by
  have run : ((scopeSplit twoPusOneGpu (twoCalls 0 0 (.split 1))).map fun results =>
      (children results).map fun pools => (pools.map fun p => (p.devices .gpu).length,
        ((Hwpool.setUnion pools).devices .gpu).length)) = .ok [([1, 0], 1)] := by decide +kernel
  obtain ⟨results, ran, pools, child, counts⟩ := exists_child run
  rw [Prod.mk.injEq] at counts
  obtain ⟨p, inPools, none_⟩ : ∃ p ∈ pools, (p.devices .gpu).length = 0 :=
    List.mem_map.1 (by rw [counts.1]; exact List.mem_cons_of_mem _ List.mem_cons_self)
  obtain ⟨s, reachable, member⟩ :=
    (ReachableScopes.intrinsic twoPusOneGpu (List.replicate 2 {0, 1})).split
      (List.mem_singleton_self _) rfl rfl ran child
  have own : p.nobjects twoPusOneGpu .gpu = .ok 0 := congrArg Except.ok none_
  have union : (Hwpool.setUnion pools).nobjects twoPusOneGpu .gpu = .ok 1 :=
    congrArg Except.ok counts.2
  refine ⟨s, reachable, _, member, rfl, p, inPools, own, union, fun agree => ?_⟩
  have same := agree .gpu (by decide) p inPools
  rw [own, union] at same
  cases same

end QuoVadis.Kernel
