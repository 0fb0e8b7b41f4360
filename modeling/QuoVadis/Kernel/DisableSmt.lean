/-
# Kernel.DisableSmt -- topologies without hyper-threads

For `QV_SCOPE_FLAG_NO_SMT` the daemon restricts the loaded topology to one PU of every
core before it exports it.  Cutting the topology down is hwloc's (`Restrict`, by what its
documentation says of `hwloc_topology_restrict`); choosing the PUs is `m_disable_smt`.

* `topologyLoadFlags_noSmt`: the topology that is exported has one PU of every core, in
  every cpuset as many cores as PUs, and they are the same ones;
* `nested_splits_cores`: tasks that splits have put into different groups never have PUs of
  one core, where `Kernel.Isolation` only says that they have no PU in common.
-/
import QuoVadis.Kernel.NestedResources
import QuoVadis.Kernel.Devices

namespace QuoVadis.Kernel

open QuoVadis.Theory

set_option autoImplicit false

/-! ## The source's functions -/

/-- `hwloc_bitmap_singlify`: only the first index is kept. -/
def singlify (bitmap : Bitmap) : Bitmap := bitmap.filter fun x => ∀ y ∈ bitmap, x ≤ y

/-- `hwloc_topology_restrict`: it may refuse, and else it removes from all objects what is
outside the set.  An object that has nothing left may stay. -/
structure Restrict where
  restrict : Hwloc → Bitmap → Option Hwloc
  objs : ∀ {h h' : Hwloc} {set : Bitmap}, restrict h set = some h' → ∀ t,
    (h'.objs t).filter (fun o => o ≠ ∅) =
      ((h.objs t).map fun o => o ∩ set).filter fun o => o ≠ ∅

namespace Hwloc

variable (hwlocRestrict : Restrict)

/-- The PUs `m_disable_smt` keeps: the first one of every core. -/
def nosmtBitmap (h : Hwloc) (origBitmap : Bitmap) : Qv Bitmap :=
  let ncores := (h.inside .core origBitmap).length
  (List.range ncores).foldlM
    (fun nosmtBitmap i =>
      match h.objInsideCpuset origBitmap .core i with
      | some obj => .ok (nosmtBitmap ∪ singlify obj)
      -- a null object is dereferenced
      | none => .error .trap) ∅

/-- `m_disable_smt`.  `origBitmap` is `hwloc_topology_get_topology_cpuset`. -/
def mDisableSmt (h : Hwloc) (origBitmap : Bitmap) : Qv Hwloc := do
  let nosmtBitmap ← h.nosmtBitmap origBitmap
  match hwlocRestrict.restrict h nosmtBitmap with
  | some h' => .ok h'
  | none => .error (.ret .errHwloc)

/-- `QVI_HWLOC_FLAG_TOPO_NO_SMT` and `QVI_HWLOC_FLAG_TOPO_XML`. -/
def topoNoSmt : Int64 := 2
def topoXml : Int64 := 4

/-- `topology_load`, once hwloc has loaded the objects; `io` is what hwloc says of the
devices when these are its objects.  An imported topology has lost its hyper-threads before
it was exported. -/
def topologyLoadFlags (flags : Int64) (h : Hwloc) (origBitmap : Bitmap) (gpuSupport : Bool)
    (io : (HwObjType → List Bitmap) → IoTopology) : Qv Hwloc := do
  let h ← if flags &&& topoNoSmt ≠ 0 ∧ flags &&& topoXml = 0 then h.mDisableSmt hwlocRestrict origBitmap
    else .ok h
  h.topologyLoad gpuSupport (io h.objs)

/-! ## One PU per core -/

/-- Core objects have pairwise disjoint cpusets. -/
def CoresDisjoint (h : Hwloc) : Prop := (h.objs .core).Pairwise Disjoint

theorem mem_singlify {bitmap : Bitmap} {x : Nat} :
    x ∈ singlify bitmap ↔ x ∈ bitmap ∧ ∀ y ∈ bitmap, x ≤ y := by
  simp [singlify]

theorem singlify_unique {bitmap : Bitmap} {x y : Nat} (memX : x ∈ singlify bitmap)
    (memY : y ∈ singlify bitmap) : x = y := by
  obtain ⟨inX, leastX⟩ := mem_singlify.1 memX
  obtain ⟨inY, leastY⟩ := mem_singlify.1 memY
  exact le_antisymm (leastX y inY) (leastY x inX)

theorem exists_singlify {bitmap : Bitmap} (some_ : bitmap ≠ ∅) : ∃ x, x ∈ singlify bitmap := by
  have least := Finset.nonempty_iff_ne_empty.2 some_
  exact ⟨bitmap.min' least, mem_singlify.2 ⟨bitmap.min'_mem least, fun y memY => bitmap.min'_le y memY⟩⟩

/-- The first PUs of the cores. -/
def firstPus (h : Hwloc) (origBitmap : Bitmap) : Bitmap :=
  opOr ((h.inside .core origBitmap).map singlify)

theorem nosmtBitmap_eq (h : Hwloc) (origBitmap : Bitmap) :
    h.nosmtBitmap origBitmap = .ok (h.firstPus origBitmap) := by
  have prefix_ : ∀ k ≤ (h.inside .core origBitmap).length,
      (List.range k).foldlM (m := Qv)
        (fun nosmtBitmap i =>
          match h.objInsideCpuset origBitmap .core i with
          | some obj => .ok (nosmtBitmap ∪ singlify obj)
          | none => .error .trap) ∅ =
        .ok (opOr (((h.inside .core origBitmap).take k).map singlify)) := by
    intro k
    induction k with
    | zero =>
        intro _
        rfl
    | succ k ih =>
        intro within
        have found : h.objInsideCpuset origBitmap .core k = some (h.inside .core origBitmap)[k] := by
          rw [h.objInsideCpuset_eq _ _ _ rfl]
          exact List.getElem?_eq_getElem within
        rw [List.range_succ, List.foldlM_append, ih (by omega)]
        simp only [bind, Except.bind, List.foldlM_cons, List.foldlM_nil, found, pure, Except.pure]
        rw [List.take_succ_eq_append_getElem within, List.map_append]
        congr 1
        ext x
        simp [mem_opOr]
  have whole := prefix_ _ le_rfl
  rwa [List.take_length] at whole

/-- What hwloc says of cores and PUs: PUs are single, cores are made of PUs and of nothing
else, and all of them are in the topology. -/
structure CoresOfPus (h : Hwloc) (origBitmap : Bitmap) : Prop where
  cores : h.CoresDisjoint
  pus : h.PusDisjoint
  single : h.PusSingle
  whole : ∀ core ∈ h.objs .core, core ⊆ origBitmap
  made : ∀ core ∈ h.objs .core, ∀ x ∈ core, {x} ∈ h.objs .pu
  within : ∀ pu ∈ h.objs .pu, ∃ core ∈ h.objs .core, pu ⊆ core

/-- What is left of a topology whose hyper-threads are disabled. -/
structure NoSmt (h : Hwloc) (origBitmap : Bitmap) (h' : Hwloc) : Prop where
  objs : ∀ t, (h'.objs t).filter (fun o => o ≠ ∅) =
    ((h.objs t).map fun o => o ∩ h.firstPus origBitmap).filter fun o => o ≠ ∅

section NoSmt

variable {hwlocRestrict} {h h' : Hwloc} {origBitmap : Bitmap}

theorem mDisableSmt_ok (run : h.mDisableSmt hwlocRestrict origBitmap = .ok h') :
    NoSmt h origBitmap h' := by
  rw [mDisableSmt, nosmtBitmap_eq] at run
  simp only [bind, Except.bind] at run
  split at run
  · rename_i left found
    cases run
    exact ⟨hwlocRestrict.objs found⟩
  · cases run

theorem topologyLoadFlags_ok {flags : Int64} {gpuSupport : Bool} {io : (HwObjType → List Bitmap) → IoTopology}
    (noSmt : flags &&& topoNoSmt ≠ 0 ∧ flags &&& topoXml = 0)
    (run : topologyLoadFlags hwlocRestrict flags h origBitmap gpuSupport io = .ok h') :
    NoSmt h origBitmap h' := by
  rw [topologyLoadFlags, if_pos noSmt] at run
  obtain ⟨left, disabled, run⟩ := bind_ok run
  have kept := mDisableSmt_ok disabled
  change left.topologyLoad gpuSupport (io left.objs) = .ok h' at run
  rw [topologyLoad] at run
  split at run
  · cases run
    exact ⟨kept.objs⟩
  · cases run

/-- The objects that are left. -/
theorem NoSmt.mem_inside (noSmt : NoSmt h origBitmap h') {t : HwObjType} {cpuset o : Bitmap} :
    o ∈ h'.inside t cpuset ↔
      o ≠ ∅ ∧ o ⊆ cpuset ∧ ∃ whole ∈ h.objs t, o = whole ∩ h.firstPus origBitmap := by
  have left : (o ∈ h'.objs t ∧ o ≠ ∅) ↔
      o ≠ ∅ ∧ ∃ whole ∈ h.objs t, o = whole ∩ h.firstPus origBitmap := by
    have same := congrArg (fun l => o ∈ l) (noSmt.objs t)
    simp only [List.mem_filter, List.mem_map, decide_eq_true_eq, eq_iff_iff] at same
    rw [same]
    constructor
    · rintro ⟨⟨whole, member, rfl⟩, some_⟩
      exact ⟨some_, whole, member, rfl⟩
    · rintro ⟨some_, whole, member, rfl⟩
      exact ⟨⟨whole, member, rfl⟩, some_⟩
  rw [Hwloc.mem_inside, ← and_assoc, left]
  tauto

theorem mem_firstPus {x : Nat} :
    x ∈ h.firstPus origBitmap ↔ ∃ core ∈ h.inside .core origBitmap, x ∈ singlify core := by
  simp [firstPus]

/-- Two cores that share an index are the same. -/
theorem core_unique (apart : h.CoresDisjoint) {core core' : Bitmap} (member : core ∈ h.objs .core)
    (member' : core' ∈ h.objs .core) {x : Nat} (memX : x ∈ core) (memX' : x ∈ core') :
    core = core' := by
  by_contra different
  have apart : (h.objs .core).Pairwise Disjoint := apart
  exact Finset.disjoint_left.1 (apart.forall member member' different) memX memX'

/-- What is kept of a core is its first PU. -/
theorem mem_core_firstPus (made : CoresOfPus h origBitmap) {core : Bitmap}
    (member : core ∈ h.objs .core) {x : Nat} :
    x ∈ core ∩ h.firstPus origBitmap ↔ x ∈ singlify core := by
  rw [Finset.mem_inter, mem_firstPus]
  constructor
  · rintro ⟨memX, core', inside, first⟩
    rwa [core_unique made.cores member (Hwloc.mem_inside.1 inside).1 memX (mem_singlify.1 first).1]
  · intro first
    have memX := (mem_singlify.1 first).1
    refine ⟨memX, core, Hwloc.mem_inside.2 ⟨member, ?_, made.whole core member⟩, first⟩
    rintro rfl
    simp at memX

/-- What is kept of a PU is nothing, or what is kept of its core. -/
theorem pu_inter_firstPus (made : CoresOfPus h origBitmap) {core : Bitmap}
    (member : core ∈ h.objs .core) {x : Nat} (first : x ∈ singlify core) :
    {x} ∩ h.firstPus origBitmap = core ∩ h.firstPus origBitmap := by
  have kept := (mem_core_firstPus made member).2 first
  ext y
  rw [Finset.mem_inter, Finset.mem_singleton]
  constructor
  · rintro ⟨rfl, -⟩
    exact kept
  · intro memY
    exact ⟨singlify_unique ((mem_core_firstPus made member).1 memY) first, (Finset.mem_inter.1 memY).2⟩

/-- The PUs that are left are the cores that are left. -/
theorem NoSmt.mem_pus (noSmt : NoSmt h origBitmap h') (made : CoresOfPus h origBitmap)
    {cpuset o : Bitmap} : o ∈ h'.inside .pu cpuset ↔ o ∈ h'.inside .core cpuset := by
  rw [noSmt.mem_inside, noSmt.mem_inside]
  refine and_congr_right fun some_ => and_congr_right fun _ => ⟨?_, ?_⟩
  · rintro ⟨pu, memPu, rfl⟩
    obtain ⟨core, memCore, sub⟩ := made.within pu memPu
    obtain ⟨x, memX⟩ := Finset.nonempty_iff_ne_empty.2 some_
    obtain ⟨inPu, inKept⟩ := Finset.mem_inter.1 memX
    have isX : pu = {x} := by
      refine (Finset.eq_of_subset_of_card_le (Finset.singleton_subset_iff.2 inPu) ?_).symm
      exact made.single pu memPu
    have first := (mem_core_firstPus made memCore).1 (Finset.mem_inter.2 ⟨sub inPu, inKept⟩)
    exact ⟨core, memCore, by rw [isX, pu_inter_firstPus made memCore first]⟩
  · rintro ⟨core, memCore, rfl⟩
    obtain ⟨x, memX⟩ := Finset.nonempty_iff_ne_empty.2 some_
    have first := (mem_core_firstPus made memCore).1 memX
    exact ⟨{x}, made.made core memCore x (Finset.mem_inter.1 memX).1,
      (pu_inter_firstPus made memCore first).symm⟩

/-- Restricting keeps objects apart. -/
theorem NoSmt.pairwise (noSmt : NoSmt h origBitmap h') {t : HwObjType}
    (apart : (h.objs t).Pairwise Disjoint) : (h'.objs t).Pairwise Disjoint := by
  have left : ((h'.objs t).filter fun o => o ≠ ∅).Pairwise Disjoint := by
    rw [noSmt.objs]
    refine List.Pairwise.filter _ (List.pairwise_map.2 (apart.imp fun across => ?_))
    exact across.mono Finset.inter_subset_left Finset.inter_subset_left
  rw [List.pairwise_filter] at left
  refine left.imp fun {a b} across => ?_
  by_cases someA : a = ∅
  · rw [someA]
    exact Finset.disjoint_empty_left b
  · by_cases someB : b = ∅
    · rw [someB]
      exact Finset.disjoint_empty_right a
    · exact across (by simpa using someA) (by simpa using someB)

theorem NoSmt.nodup (noSmt : NoSmt h origBitmap h') {t : HwObjType}
    (apart : (h.objs t).Pairwise Disjoint) (cpuset : Bitmap) : (h'.inside t cpuset).Nodup := by
  refine List.Pairwise.imp_of_mem (fun {a b} memA _ across same => ?_)
    ((noSmt.pairwise apart).filter _)
  subst same
  exact (Hwloc.mem_inside.1 memA).2.1 (Finset.disjoint_self_iff_empty a |>.1 across)

/-- **Without hyper-threads cores are PUs.** -/
theorem NoSmt.perm (noSmt : NoSmt h origBitmap h') (made : CoresOfPus h origBitmap)
    (cpuset : Bitmap) : (h'.inside .core cpuset).Perm (h'.inside .pu cpuset) :=
  (List.perm_ext_iff_of_nodup (noSmt.nodup made.cores cpuset) (noSmt.nodup made.pus cpuset)).2
    fun _ => (noSmt.mem_pus made).symm

/-- The one PU of a core. -/
theorem NoSmt.length_core (noSmt : NoSmt h origBitmap h') (made : CoresOfPus h origBitmap)
    {core : Bitmap} (member : core ∈ h.objs .core) (some_ : core ≠ ∅) :
    (h'.inside .pu core).length = 1 := by
  have only : (h'.inside .pu core).toFinset = {core ∩ h.firstPus origBitmap} := by
    ext o
    rw [List.mem_toFinset, noSmt.mem_pus made, noSmt.mem_inside, Finset.mem_singleton]
    constructor
    · rintro ⟨full, sub, core', member', rfl⟩
      obtain ⟨x, memX⟩ := Finset.nonempty_iff_ne_empty.2 full
      rw [core_unique made.cores member member' (sub memX) (Finset.mem_inter.1 memX).1]
    · rintro rfl
      obtain ⟨x, first⟩ := exists_singlify some_
      refine ⟨Finset.ne_empty_of_mem ((mem_core_firstPus made member).2 first),
        Finset.inter_subset_left, core, member, rfl⟩
  rw [← List.toFinset_card_of_nodup (noSmt.nodup made.pus core), only, Finset.card_singleton]

end NoSmt

/-- **Loading a topology for `QV_SCOPE_FLAG_NO_SMT`** leaves one PU in every core, and in
every cpuset as many cores as PUs. -/
theorem topologyLoadFlags_noSmt (hwlocRestrict : Restrict) {h h' : Hwloc} {origBitmap : Bitmap}
    (made : CoresOfPus h origBitmap) {flags : Int64}
    (noSmt : flags &&& topoNoSmt ≠ 0 ∧ flags &&& topoXml = 0) {gpuSupport : Bool}
    {io : (HwObjType → List Bitmap) → IoTopology}
    (run : topologyLoadFlags hwlocRestrict flags h origBitmap gpuSupport io = .ok h') :
    (∀ core ∈ h.objs .core, core ≠ ∅ → h'.getNobjsInCpuset .pu core = .ok 1) ∧
      ∀ cpuset, h'.getNobjsInCpuset .core cpuset = h'.getNobjsInCpuset .pu cpuset ∧
        ∀ pu ∈ h'.inside .pu cpuset, pu ∈ h'.inside .core cpuset := by
  have left := topologyLoadFlags_ok noSmt run
  refine ⟨fun core member some_ => ?_, fun cpuset => ⟨?_, fun pu => (left.mem_pus made).1⟩⟩
  · rw [← left.length_core made member some_]
    exact h'.mGetNobjsInCpuset_eq (by decide) core
  · have cores := h'.mGetNobjsInCpuset_eq (t := .core) (by decide) cpuset
    have pus := h'.mGetNobjsInCpuset_eq (t := .pu) (by decide) cpuset
    rw [(left.perm made cpuset).length_eq] at cores
    exact cores.trans pus.symm

/-- What is left of the objects of a topology. -/
def cutDown (h : Hwloc) (set : Bitmap) : Hwloc where
  objs t := ((h.objs t).map fun o => o ∩ set).filter fun o => o ≠ ∅
  objInsideCpuset within t i :=
    ((((h.objs t).map fun o => o ∩ set).filter fun o => o ≠ ∅).filter
      fun o => o ≠ ∅ ∧ o ⊆ within)[i]?
  objInsideCpuset_eq := fun _ _ _ _ => rfl
  osDevices := h.osDevices
  allowedCpuset := h.allowedCpuset ∩ set
  devmap := h.devmap
  devmap_type := h.devmap_type

/-- Removes what is outside the set, unless nothing would be left. -/
def removeOutside : Restrict where
  restrict h set := if h.allowedCpuset ∩ set = ∅ then none else some (h.cutDown set)
  objs := by
    intro h h' set run t
    split at run
    · cases run
    · cases run
      simp [cutDown]

/-- Two cores of two PUs each. -/
def twoCores : Hwloc where
  objs
    | .pu => [{0}, {1}, {2}, {3}]
    | .core => [{0, 1}, {2, 3}]
    | .package | .machine => [{0, 1, 2, 3}]
    | _ => []
  objInsideCpuset set t i :=
    ((match t with
      | .pu => [{0}, {1}, {2}, {3}]
      | .core => [{0, 1}, {2, 3}]
      | .package | .machine => [{0, 1, 2, 3}]
      | _ => []).filter fun o : Bitmap => o ≠ ∅ ∧ o ⊆ set)[i]?
  objInsideCpuset_eq := fun _ _ _ _ => rfl
  osDevices := false
  allowedCpuset := {0, 1, 2, 3}
  devmap _ := []
  devmap_type := by simp

theorem twoCores_made : twoCores.CoresOfPus {0, 1, 2, 3} where
  cores := by
    show ([{0, 1}, {2, 3}] : List Bitmap).Pairwise Disjoint
    decide
  pus := by
    show ([{0}, {1}, {2}, {3}] : List Bitmap).Pairwise Disjoint
    decide
  single := by
    show ∀ o ∈ ([{0}, {1}, {2}, {3}] : List Bitmap), o.card ≤ 1
    decide
  whole := by
    show ∀ o ∈ ([{0, 1}, {2, 3}] : List Bitmap), o ⊆ {0, 1, 2, 3}
    decide
  made := by
    show ∀ o ∈ ([{0, 1}, {2, 3}] : List Bitmap), ∀ x ∈ o, {x} ∈ ([{0}, {1}, {2}, {3}] : List Bitmap)
    decide
  within := by
    show ∀ o ∈ ([{0}, {1}, {2}, {3}] : List Bitmap), ∃ c ∈ ([{0, 1}, {2, 3}] : List Bitmap), o ⊆ c
    decide

/-- The first core keeps one of its PUs. -/
theorem topologyLoadFlags_noSmt_twoCores :
    ∃ h', topologyLoadFlags removeOutside 2 twoCores {0, 1, 2, 3} true (fun _ => reporting []) = .ok h' ∧
      h'.getNobjsInCpuset .pu {0, 1} = .ok 1 := by
  obtain ⟨h', run⟩ : ∃ h',
    topologyLoadFlags removeOutside 2 twoCores {0, 1, 2, 3} true (fun _ => reporting []) = .ok h' := ⟨_, rfl⟩
  exact ⟨h', run, (topologyLoadFlags_noSmt removeOutside twoCores_made (by decide) run).1 {0, 1}
    (by decide) (by decide)⟩

end Hwloc

/-! ## Splits of such a topology -/

variable {n : Nat} {hwloc hwloc' : Hwloc} {origBitmap : Bitmap}

/-- The PUs that are left are first PUs. -/
theorem Hwloc.NoSmt.subset_firstPus (noSmt : hwloc.NoSmt origBitmap hwloc') (cpuset : Bitmap) :
    ∀ pu ∈ hwloc'.inside .pu cpuset, pu ⊆ hwloc.firstPus origBitmap := by
  intro pu inside
  obtain ⟨-, -, whole, -, rfl⟩ := noSmt.mem_inside.1 inside
  exact Finset.inter_subset_right

/-- **Nested splits without hyper-threads keep tasks on cores of their own.**  Tasks that
share an intrinsic scope of a topology loaded for `QV_SCOPE_FLAG_NO_SMT` split again and
again over host types.  Of two tasks in different groups at most one has PUs of a core. -/
theorem nested_splits_cores (hwlocRestrict : Restrict)
    (made : hwloc.CoresOfPus origBitmap) {flags : Int64}
    (noSmt : flags &&& Hwloc.topoNoSmt ≠ 0 ∧ flags &&& Hwloc.topoXml = 0) {gpuSupport : Bool}
    {io : (HwObjType → List Bitmap) → IoTopology}
    (load : hwloc.topologyLoadFlags hwlocRestrict flags origBitmap gpuSupport io = .ok hwloc')
    (w₀ w : World n) (intrinsic : w₀.Intrinsic) (run : WorldRun hwloc' w₀ w) (x y : Fin n)
    (different : w.group x ≠ w.group y) (core : Bitmap) (member : core ∈ hwloc.objs .core) :
    Disjoint core (w.pool x).cpuset ∨ Disjoint core (w.pool y).cpuset := by
  have left := Hwloc.topologyLoadFlags_ok noSmt load
  have fair : NestedDivision.Fair w.shares := NestedDivision.fair_run
    (WorldRun.shares (left.pairwise made.pus) run intrinsic.fair) intrinsic.fair
  have kept := run.within intrinsic left.subset_firstPus
  have namedX := named_of_apart fair different
  have namedY := named_of_apart fair different.symm
  by_contra neither
  obtain ⟨sharedX, sharedY⟩ := not_or.1 neither
  obtain ⟨a, inCoreA, inX⟩ := Finset.not_disjoint_iff.1 sharedX
  obtain ⟨b, inCoreB, inY⟩ := Finset.not_disjoint_iff.1 sharedY
  have firstA := (Hwloc.mem_core_firstPus made member).1
    (Finset.mem_inter.2 ⟨inCoreA, kept x namedX inX⟩)
  have firstB := (Hwloc.mem_core_firstPus made member).1
    (Finset.mem_inter.2 ⟨inCoreB, kept y namedY inY⟩)
  obtain rfl := Hwloc.singlify_unique firstA firstB
  exact Finset.disjoint_left.1 (fair.apart x y different) inX inY

/-- Two tasks that may run on all PUs of the two cores. -/
def twoCoresTasks : World 2 where
  group _ := []
  pool _ := .ofCpuset {0, 1, 2, 3}

/-- The two tasks split the cores by PACKED. -/
theorem nested_splits_cores_twoCores :
    ∃ hwloc', Hwloc.topologyLoadFlags Hwloc.removeOutside 2 .twoCores {0, 1, 2, 3} true (fun _ => reporting []) =
        .ok hwloc' ∧
      ∃ w : World 2, WorldStep hwloc' twoCoresTasks w ∧ w.group 0 ≠ w.group 1 ∧
        (Disjoint {0, 1} (w.pool 0).cpuset ∨ Disjoint {0, 1} (w.pool 1).cpuset) := by
  have run : (do
      let hwloc' ← Hwloc.topologyLoadFlags Hwloc.removeOutside 2 .twoCores {0, 1, 2, 3} true (fun _ => reporting [])
      let results ← scopeSplit hwloc' ((twoCoresTasks.members []).map fun x : Fin 2 =>
        ⟨x.val, ⟨[{0, 1, 2, 3}]⟩, splitPacked, twoCoresTasks.pool x, .split 2⟩)
      return results.map Prod.fst : Qv (List Int)) = .ok [0, 1] := by decide +kernel
  obtain ⟨hwloc', load, run⟩ := bind_ok run
  obtain ⟨results, ran, run⟩ := bind_ok run
  have colors : results.map Prod.fst = [0, 1] := Except.ok.inj run
  obtain ⟨a, b, rfl⟩ : ∃ a b, results = [a, b] :=
    List.length_eq_two.1 (by simpa using congrArg List.length colors)
  simp only [List.map_cons, List.map_nil, List.cons.injEq, and_true] at colors
  have step : WorldStep hwloc' twoCoresTasks
      (twoCoresTasks.regroup [] fun x => if x = 0 then a else b) :=
    .split [] (fun _ => ⟨[{0, 1, 2, 3}]⟩) (fun _ => splitPacked) (fun _ => .split 2)
      (fun _ _ => by decide) _ ran
  have apart : (twoCoresTasks.regroup [] fun x => if x = 0 then a else b).group 0 ≠
      (twoCoresTasks.regroup [] fun x => if x = 0 then a else b).group 1 := by
    show [a.1] ≠ [b.1]
    rw [colors.1, colors.2]
    decide
  exact ⟨hwloc', load, _, step, apart, nested_splits_cores Hwloc.removeOutside Hwloc.twoCores_made (by decide)
    load twoCoresTasks _ ⟨fun _ => rfl, fun _ _ => rfl⟩ (.single step) 0 1 apart {0, 1} (by decide)⟩

end QuoVadis.Kernel
