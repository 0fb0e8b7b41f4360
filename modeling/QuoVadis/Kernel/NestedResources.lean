/-
# Kernel.NestedResources -- what nested splits do to the resources of a job

The tasks of a job split again and again, as in `Kernel.Isolation`, now with any
type and with what becomes of the resources in view:

* devices: a split deals what the members of a group hold among them, so it is a
  deal in the sense of `Theory.Redeal`, also over a device type
  (`GroupSplit.deal`).  From the first split on every device is in the pool of
  one task, whatever the later splits are (`nested_splits_devices`), and that is how
  `qv_hw_obj_count` and `qv_device_id` list them (`nested_splits_device_ids`);
* PUs: splits over host types by PACKED or SPREAD hand out every PU of the cut
  (`EvenSplit.covers`), so the groups they lead to divide the PUs of the
  intrinsic scope among them (`nested_splits_pus`).
-/
import QuoVadis.Kernel.Isolation
import QuoVadis.Theory.Redeal

namespace QuoVadis.Kernel

open QuoVadis.Theory

set_option autoImplicit false

variable {n : Nat} {hwloc : Hwloc}

/-- The members of the group `g` call `qv_split` or `qv_split_at`. -/
inductive GroupSplit (hwloc : Hwloc) (w : World n) (g : List Int) (color : Fin n → Int)
    (request : Fin n → SplitRequest) : World n → Prop where
  | intro (task : Fin n → Task) (results : Fin n → Int × Hwpool)
      (run : scopeSplit hwloc ((w.members g).map fun x =>
        ⟨x.val, task x, color x, w.pool x, request x⟩) = .ok ((w.members g).map results)) :
      GroupSplit hwloc w g color request (w.regroup g results)

/-- Some group splits, in whatever way. -/
def AnySplit (hwloc : Hwloc) (w w' : World n) : Prop :=
  ∃ g color request, GroupSplit hwloc w g color request w'

/-- Some group splits over a host type by PACKED or SPREAD. -/
def EvenSplit (hwloc : Hwloc) (w w' : World n) : Prop :=
  ∃ g color request, GroupSplit hwloc w g color request w' ∧
    (∀ x, w.group x = g → objResClass (request x).objType ≠ .dev) ∧
    ((∀ x, w.group x = g → color x = splitPacked) ∨ ∀ x, w.group x = g → color x = splitSpread)

/-- **What the members of a group get**: the pools of a divided object over the union
of theirs. -/
theorem scopeSplit_members {w : World n} {g : List Int} {task : Fin n → Task}
    {color : Fin n → Int} {request : Fin n → SplitRequest} {results : Fin n → Int × Hwpool}
    (run : scopeSplit hwloc ((w.members g).map fun x =>
      ⟨x.val, task x, color x, w.pool x, request x⟩) = .ok ((w.members g).map results)) :
    ∃ root ∈ w.members g, ∃ npieces hs f,
      let hs₀ := Hwsplit.prepared hwloc npieces (request root).objType
        (.setUnion ((w.members g).map w.pool)) ((w.members g).map color)
        ((w.members g).map fun x => (task x).stack.head?.getD ∅)
      hs₀.Ready ∧ hs₀.mSplit = .ok hs ∧ Hwsplit.Divided hs₀ hs f ∧
        hs.hwpools = (w.members g).map fun x => (results x).2 := by
  cases shape : w.members g with
  | nil =>
      rw [shape] at run
      cases run
  | cons root others =>
      rw [shape, List.map_cons] at run
      obtain ⟨args, mapped, run⟩ := bind_ok run
      obtain ⟨hwpools, colors, affinities, types⟩ := mapM_args mapped
      cases args with
      | nil => simp at hwpools
      | cons first rest =>
          obtain ⟨hs, f, ran, divided, eq⟩ := collSplit_ok run
          have type : first.objType = (request root).objType := by
            simpa using (List.cons.inj types).1
          have same : splitObject hwloc first rest =
              Hwsplit.prepared hwloc first.npieces (request root).objType
                (.setUnion ((root :: others).map w.pool)) ((root :: others).map color)
                ((root :: others).map fun x => (task x).stack.head?.getD ∅) := by
            rw [splitObject, hwpools, colors, affinities, type]
            simp [Function.comp_def, SplitCall.affinity]
          rw [same] at ran divided
          refine ⟨root, List.mem_cons_self, first.npieces, hs, f,
            Hwsplit.prepared_ready _ _ _ _ _ _ (by simp) (by simp), ran, divided, ?_⟩
          have long : hs.hwpools.length ≤ hs.colors.length := by
            rw [divided.length, divided.colors]
            simp
          rw [← List.map_snd_zip long, ← eq]
          simp

/-! ## PUs of the topology -/

/-- What a task has after a split is made of PUs of the topology. -/
theorem WorldStep.within {w w' : World n} {pus : Bitmap} (step : WorldStep hwloc w w')
    (made : ∀ cpuset, ∀ pu ∈ hwloc.inside .pu cpuset, pu ⊆ pus)
    (within : ∀ x, w.group x ≠ [] → (w.pool x).cpuset ⊆ pus) :
    ∀ x, w'.group x ≠ [] → (w'.pool x).cpuset ⊆ pus := by
  cases step with
  | split g task color request host results run =>
      intro x named
      by_cases inX : w.group x = g
      · obtain ⟨root, -, npieces, hs, f, -, -, divided, pools⟩ := scopeSplit_members run
        have member : (results x).2 ∈ hs.hwpools := by
          rw [pools]
          exact List.mem_map.2 ⟨x, World.mem_members.2 inX, rfl⟩
        show (if w.group x = g then (results x).2 else w.pool x).cpuset ⊆ _
        rw [if_pos inX]
        intro b memB
        obtain ⟨pu, inside, memPu⟩ := mem_opOr.1 (divided.pool_subset member memB)
        exact made _ pu inside memPu
      · show (if w.group x = g then (results x).2 else w.pool x).cpuset ⊆ _
        have same : (w.regroup g results).group x = w.group x := if_neg inX
        rw [if_neg inX]
        exact within x (by rwa [← same])

/-- Of a group that has split, every task keeps to the PUs of the topology. -/
theorem WorldRun.within {w₀ w : World n} {pus : Bitmap} (run : WorldRun hwloc w₀ w)
    (intrinsic : w₀.Intrinsic) (made : ∀ cpuset, ∀ pu ∈ hwloc.inside .pu cpuset, pu ⊆ pus) :
    ∀ x, w.group x ≠ [] → (w.pool x).cpuset ⊆ pus := by
  induction run with
  | refl => exact fun x named => absurd (intrinsic.group x) named
  | tail _ step ih => exact step.within made ih

/-- A task that is still in the first group is in it together with everybody. -/
theorem named_of_apart {w : World n} (fair : NestedDivision.Fair w.shares) {x y : Fin n}
    (different : w.group x ≠ w.group y) : w.group x ≠ [] := fun first =>
  different (fair.leaf x y (by show w.group x <+: _; rw [first]; exact List.nil_prefix))

/-! ## Devices -/

/-- Who holds which devices of a type. -/
def World.holds (w : World n) (t : HwObjType) (x : Fin n) (busId : String) : Prop :=
  (w.pool x).Has t busId

/-- **A split deals the devices of the group.** -/
theorem GroupSplit.deal {w w' : World n} {g : List Int} {color : Fin n → Int}
    {request : Fin n → SplitRequest} (split : GroupSplit hwloc w g color request w')
    {t : HwObjType} (device : objResClass t = .dev) :
    Redeal.Deal (fun x => w.group x = g) (w.holds t) (w'.holds t) := by
  cases split with
  | intro task results run =>
      obtain ⟨root, -, npieces, hs, f, -, -, divided, pools⟩ := scopeSplit_members run
      obtain ⟨deal, dealt⟩ := divided.devices t device
      have given : ∀ x, w.group x = g → ((w.regroup g results).holds t x = (results x).2.Has t) := by
        intro x inside
        show (if w.group x = g then (results x).2 else w.pool x).Has t = _
        rw [if_pos inside]
      have base : ∀ busId, (Hwpool.setUnion ((w.members g).map w.pool)).Has t busId ↔
          ∃ x, w.group x = g ∧ w.holds t x busId := by
        intro busId
        rw [Hwpool.has_setUnion]
        simp [device, World.mem_members, World.holds]
      refine ⟨fun busId held => ?_, fun busId x inside has => ?_, fun busId x outside => ?_⟩
      · obtain ⟨i, ⟨pool, found, has⟩, sole⟩ := dealt.exists_unique ((base busId).2 held)
        rw [pools, List.getElem?_map] at found
        obtain ⟨x, at_, rfl⟩ := Option.map_eq_some_iff.1 found
        have inside : w.group x = g := World.mem_members.1 (List.mem_of_getElem? at_)
        refine ⟨x, ⟨inside, by rw [given x inside]; exact has⟩, ?_⟩
        rintro y ⟨insideY, hasY⟩
        rw [given y insideY] at hasY
        obtain ⟨j, atY⟩ := List.mem_iff_getElem?.1 (World.mem_members.2 insideY)
        obtain rfl := sole j ⟨(results y).2, by rw [pools, List.getElem?_map, atY]; rfl, hasY⟩
        exact Option.some.inj (atY.symm.trans at_)
      · rw [given x inside] at has
        obtain ⟨d, member, same⟩ := has
        obtain ⟨i, at_⟩ := List.mem_iff_getElem?.1 (World.mem_members.2 inside)
        obtain ⟨j, inBase, -⟩ := (dealt.mem i (results x).2
          (by rw [pools, List.getElem?_map, at_]; rfl) d).1 member
        exact (base busId).1 ⟨d, List.mem_of_getElem? inBase, same⟩
      · show (if w.group x = g then (results x).2 else w.pool x).Has t busId ↔ _
        rw [if_neg outside]
        exact Iff.rfl

theorem AnySplit.redeal {w w' : World n} (step : AnySplit hwloc w w') {t : HwObjType}
    (device : objResClass t = .dev) : Redeal.Step (w.holds t) (w'.holds t) := by
  obtain ⟨g, color, request, split⟩ := step
  exact ⟨_, split.deal device⟩

theorem redeal_run {w w' : World n} (run : Relation.ReflTransGen (AnySplit hwloc) w w')
    {t : HwObjType} (device : objResClass t = .dev) :
    Relation.ReflTransGen Redeal.Step (w.holds t) (w'.holds t) := by
  induction run with
  | refl => exact .refl
  | tail _ step ih => exact ih.tail (step.redeal device)

/-- A group that splits has a member. -/
theorem GroupSplit.exists_member {w w' : World n} {g : List Int} {color : Fin n → Int}
    {request : Fin n → SplitRequest} (split : GroupSplit hwloc w g color request w') :
    ∃ x, w.group x = g := by
  cases split with
  | intro task results run =>
      obtain ⟨root, member, -⟩ := scopeSplit_members run
      exact ⟨root, World.mem_members.1 member⟩

/-- **Nested splits and devices.**  Tasks that start in one group split again and again,
over any types, by any colours and into any numbers of pieces.  After that every device
one of them had at the start is in the pool of exactly one, and no pool has a device that
none of them had. -/
theorem nested_splits_devices (hwloc : Hwloc) (w₀ w : World n) (together : ∀ x, w₀.group x = [])
    (run : Relation.TransGen (AnySplit hwloc) w₀ w) (t : HwObjType)
    (device : objResClass t = .dev) (busId : String) :
    ((∃ x, (w₀.pool x).Has t busId) → ∃! x, (w.pool x).Has t busId) ∧
      ((∃ x, (w.pool x).Has t busId) → ∃ x, (w₀.pool x).Has t busId) := by
  obtain ⟨w₁, first, rest⟩ := Relation.TransGen.head'_iff.1 run
  have held : (∃ x, (w.pool x).Has t busId) ↔ ∃ x, (w₀.pool x).Has t busId :=
    Redeal.held_run (redeal_run (Relation.ReflTransGen.head first rest) device) busId
  have sole : Redeal.Sole (w.holds t) := by
    refine Redeal.sole_run (redeal_run rest device) ?_
    obtain ⟨g, color, request, split⟩ := first
    -- the first group that splits is the one all tasks are in
    obtain ⟨x, inside⟩ := split.exists_member
    refine (split.deal device).sole_of_all fun y => ?_
    rw [together y, ← inside, together x]
  refine ⟨fun had => ?_, held.1⟩
  obtain ⟨x, has⟩ := held.2 had
  exact ⟨x, has, fun y hasY => sole busId y x hasY has⟩

/-- Two tasks that hold all PUs of a machine with one GPU, and the GPU. -/
def gpuTasks : World 2 where
  group _ := []
  pool _ := .populate (.onePackage 2 ["0000:01:00.0"]) {0, 1}

/-- The two tasks split the machine in two by PACKED. -/
theorem gpuTasks_packed :
    ∃ w : World 2, GroupSplit (.onePackage 2 ["0000:01:00.0"]) gpuTasks [] (fun _ => splitPacked)
      (fun _ => .split 2) w := by
  have run : ((scopeSplit (.onePackage 2 ["0000:01:00.0"]) ((gpuTasks.members []).map fun x =>
      ⟨x.val, ⟨[{0, 1}]⟩, splitPacked, gpuTasks.pool x, .split 2⟩)).map fun results =>
        results.map Prod.fst) = .ok [0, 1] := by decide +kernel
  obtain ⟨results, ran, colors⟩ := map_ok run
  obtain ⟨a, b, rfl⟩ : ∃ a b, results = [a, b] :=
    List.length_eq_two.1 (by simpa using congrArg List.length colors)
  exact ⟨_, .intro (fun _ => ⟨[{0, 1}]⟩) (fun x => if x = 0 then a else b) ran⟩

/-! ## What users read of the devices -/

/-- `qvi_hwpool_dev::id`, in the format with the given number. -/
def HwpoolDev.idText (dev : HwpoolDev) (format : UInt32) : Qv String :=
  match format.toNat with
  | 0 => .ok dev.uuid
  | 1 => .ok dev.pciBusId
  | 2 => .ok (toString dev.id)
  | _ => .error (.thrown .errInvldArg)

namespace Hwpool

/-- `qv_scope::device_id`. -/
def deviceId (p : Hwpool) (devType : HwObjType) (devIndex : Int) (format : UInt32) : Qv String :=
  let devs := p.devices devType
  let ndevs := devs.length
  if devIndex < 0 then .error (.ret .errInvldArg)
  else if ndevs ≤ devIndex.toNat then .error (.ret .errNotFound)
  else
    match devs[devIndex.toNat]? with
    | some dev => dev.idText format
    | none => .error (.thrown .err)

/-- The format of bus IDs, `QV_DEVICE_ID_PCI_BUS_ID`. -/
def pciBusIdFormat : UInt32 := 1

theorem deviceId_ok_iff {p : Hwpool} {t : HwObjType} {i : Int} {busId : String} :
    p.deviceId t i pciBusIdFormat = .ok busId ↔
      0 ≤ i ∧ ∃ d, (p.devices t)[i.toNat]? = some d ∧ d.pciBusId = busId := by
  unfold deviceId
  dsimp only
  constructor
  · intro run
    split at run
    · cases run
    · rename_i notNegative
      split at run
      · cases run
      · split at run
        · rename_i d found
          exact ⟨not_lt.1 notNegative, d, found, Except.ok.inj run⟩
        · cases run
  · rintro ⟨notNegative, d, found, rfl⟩
    have inside := (List.getElem?_eq_some_iff.1 found).1
    rw [if_neg (not_lt.2 notNegative), if_neg (not_le.2 inside), found]
    rfl

/-- A device of the pool has one index. -/
theorem deviceId_unique {p : Hwpool} {t : HwObjType} {i j : Int} {busId : String}
    (atI : p.deviceId t i pciBusIdFormat = .ok busId) (atJ : p.deviceId t j pciBusIdFormat = .ok busId) :
    i = j := by
  obtain ⟨notNegative, d, foundI, same⟩ := deviceId_ok_iff.1 atI
  obtain ⟨notNegative', d', foundJ, same'⟩ := deviceId_ok_iff.1 atJ
  obtain ⟨inI, rfl⟩ := List.getElem?_eq_some_iff.1 foundI
  obtain ⟨inJ, rfl⟩ := List.getElem?_eq_some_iff.1 foundJ
  have distinct := List.pairwise_iff_getElem.1 (p.distinct t)
  rcases Nat.lt_trichotomy i.toNat j.toNat with less | equal | more
  · exact absurd (same.trans same'.symm) (distinct _ _ inI inJ less)
  · omega
  · exact absurd (same'.trans same.symm) (distinct _ _ inJ inI more)

/-- The bus IDs that are listed are those of the pool's devices. -/
theorem exists_deviceId {p : Hwpool} {t : HwObjType} {busId : String} :
    (∃ i, p.deviceId t i pciBusIdFormat = .ok busId) ↔ p.Has t busId := by
  constructor
  · rintro ⟨i, answered⟩
    obtain ⟨-, d, found, same⟩ := deviceId_ok_iff.1 answered
    exact ⟨d, List.mem_of_getElem? found, same⟩
  · rintro ⟨d, member, same⟩
    obtain ⟨i, found⟩ := List.mem_iff_getElem?.1 member
    exact ⟨i, deviceId_ok_iff.2 ⟨Int.natCast_nonneg i, d, by simpa using found, same⟩⟩

/-- The indexes that are answered are those below the count. -/
theorem deviceId_inside_iff {p : Hwpool} {t : HwObjType} (device : objResClass t = .dev) {nobjs : Nat}
    (counted : p.nobjects hwloc t = .ok nobjs) {i : Int} :
    (∃ busId, p.deviceId t i pciBusIdFormat = .ok busId) ↔ 0 ≤ i ∧ i < nobjs := by
  have count : (p.devices t).length = nobjs := by
    rw [nobjects, device] at counted
    exact Except.ok.inj counted
  constructor
  · rintro ⟨busId, answered⟩
    obtain ⟨notNegative, d, found, -⟩ := deviceId_ok_iff.1 answered
    have inside := (List.getElem?_eq_some_iff.1 found).1
    omega
  · rintro ⟨notNegative, below⟩
    have inside : i.toNat < (p.devices t).length := by omega
    exact ⟨_, deviceId_ok_iff.2 ⟨notNegative, _, List.getElem?_eq_getElem inside, rfl⟩⟩

end Hwpool

/-- **Nested splits and what users list.**  Tasks that start in one group split again and
again.  When they then ask for the bus IDs of their devices, index by index up to the count
they are told, every device that one of them could list at the start is listed by one task,
under one index, and nothing else is. -/
theorem nested_splits_device_ids (hwloc : Hwloc) (w₀ w : World n) (together : ∀ x, w₀.group x = [])
    (run : Relation.TransGen (AnySplit hwloc) w₀ w) (t : HwObjType)
    (device : objResClass t = .dev) (busId : String) :
    ((∃ x i, (w₀.pool x).deviceId t i Hwpool.pciBusIdFormat = .ok busId) →
        ∃! place : Fin n × Int,
          (w.pool place.1).deviceId t place.2 Hwpool.pciBusIdFormat = .ok busId) ∧
      ((∃ x i, (w.pool x).deviceId t i Hwpool.pciBusIdFormat = .ok busId) →
        ∃ x i, (w₀.pool x).deviceId t i Hwpool.pciBusIdFormat = .ok busId) ∧
      ∀ x nobjs i, (w.pool x).nobjects hwloc t = .ok nobjs →
        ((∃ id, (w.pool x).deviceId t i Hwpool.pciBusIdFormat = .ok id) ↔ 0 ≤ i ∧ i < nobjs) := by
  obtain ⟨sole, kept⟩ := nested_splits_devices hwloc w₀ w together run t device busId
  simp only [Hwpool.exists_deviceId]
  refine ⟨fun had => ?_, kept, fun x nobjs i counted => Hwpool.deviceId_inside_iff device counted⟩
  obtain ⟨x, has, only⟩ := sole had
  obtain ⟨i, answered⟩ := Hwpool.exists_deviceId.2 has
  refine ⟨(x, i), answered, ?_⟩
  rintro ⟨y, j⟩ answered'
  obtain rfl := only y (Hwpool.exists_deviceId.1 ⟨j, answered'⟩)
  rw [Hwpool.deviceId_unique answered answered']

/-- The two tasks and the GPU. -/
theorem nested_splits_device_ids_gpuTasks :
    ∃ w : World 2, Relation.TransGen (AnySplit (.onePackage 2 ["0000:01:00.0"])) gpuTasks w ∧
      ∃! place : Fin 2 × Int,
        (w.pool place.1).deviceId .gpu place.2 Hwpool.pciBusIdFormat = .ok "0000:01:00.0" := by
  obtain ⟨w, split⟩ := gpuTasks_packed
  have run : Relation.TransGen (AnySplit (.onePackage 2 ["0000:01:00.0"])) gpuTasks w :=
    .single ⟨_, _, _, split⟩
  exact ⟨w, run, (nested_splits_device_ids _ gpuTasks w (fun _ => rfl) run .gpu rfl
    "0000:01:00.0").1 ⟨0, 0, by decide +kernel⟩⟩

/-! ## PUs -/

/-- A PU inside the bitmap is in a piece of it. -/
theorem Hwloc.pu_in_piece {bitmap pu : Bitmap} (npieces : Nat) (pos : 0 < npieces)
    (inside : pu ∈ hwloc.inside .pu bitmap) :
    ∃ piece ∈ hwloc.pieces bitmap npieces, pu ⊆ piece := by
  rw [← BalancedBlocks.flatten_chunks (hwloc.inside .pu bitmap) pos, List.mem_flatten] at inside
  obtain ⟨chunk, memChunk, memPu⟩ := inside
  exact ⟨opOr chunk, List.mem_map_of_mem memChunk, fun b memB => mem_opOr.2 ⟨pu, memPu, memB⟩⟩

namespace Hwsplit

/-- **PACKED and SPREAD hand out every PU of the cut.** -/
theorem pu_dealt {hs hs' : Hwsplit} (ready : hs.Ready)
    (policy : (∀ c ∈ hs.colors, c = splitPacked) ∨ ∀ c ∈ hs.colors, c = splitSpread)
    (full : hs.pieces ≠ []) (run : hs.mSplit = .ok hs') {pu : Bitmap}
    (inside : pu ∈ hs.hwloc.inside .pu hs.priCpuset) :
    ∃ (i : Nat) (pool : Hwpool), hs'.hwpools[i]? = some pool ∧ pu ⊆ pool.cpuset := by
  obtain ⟨hs'', f, run', divided, balanced⟩ := mSplit_balanced ready policy full
  obtain rfl := Except.ok.inj (run.symm.trans run')
  have able : hs.hwloc.Splittable hs.priCpuset hs.realSplitSize := by
    by_contra not
    exact full (pieces_eq_nil_iff.2 not)
  obtain ⟨piece, memPiece, sub⟩ := Hwloc.pu_in_piece hs.realSplitSize
    (by have := able.1; omega) inside
  have memPiece : piece ∈ hs.pieces := by rwa [pieces, if_pos able]
  obtain ⟨j, atJ⟩ := List.mem_iff_getElem?.1 memPiece
  obtain ⟨i, below, rfl⟩ := onto_of_balanced full balanced j (List.getElem?_eq_some_iff.1 atJ).1
  obtain ⟨pool, atI, pieceI⟩ := divided.pool below
  exact ⟨i, pool, atI, by rwa [← Option.some.inj (atJ.symm.trans pieceI)]⟩

end Hwsplit

theorem EvenSplit.step {w w' : World n} (even : EvenSplit hwloc w w') : WorldStep hwloc w w' := by
  obtain ⟨g, color, request, split, host, -⟩ := even
  cases split with
  | intro task results run => exact .split g task color request host results run

theorem even_run {w w' : World n} (run : Relation.ReflTransGen (EvenSplit hwloc) w w') :
    WorldRun hwloc w w' := by
  induction run with
  | refl => exact .refl
  | tail _ even ih => exact ih.tail even.step

/-- Members that hold one cpuset hold that of their union. -/
theorem World.cpuset_union {w : World n} {x : Fin n}
    (equal : ∀ y, w.group y = w.group x → (w.pool y).cpuset = (w.pool x).cpuset) :
    (Hwpool.setUnion ((w.members (w.group x)).map w.pool)).cpuset = (w.pool x).cpuset := by
  ext b
  rw [Hwpool.mem_cpuset_setUnion]
  constructor
  · rintro ⟨_, inMap, memB⟩
    obtain ⟨y, memY, rfl⟩ := List.mem_map.1 inMap
    rwa [← equal y (World.mem_members.1 memY)]
  · intro memB
    exact ⟨_, List.mem_map_of_mem (World.mem_members.2 rfl), memB⟩

/-- A PU of a pool is a PU of a pool after the split. -/
def Covers (hwloc : Hwloc) (w w' : World n) : Prop :=
  ∀ x, ∀ pu ∈ hwloc.inside .pu (w.pool x).cpuset,
    ∃ y, pu ∈ hwloc.inside .pu (w'.pool y).cpuset

theorem EvenSplit.covers {w w' : World n} (even : EvenSplit hwloc w w')
    (equal : ∀ x y, w.group x = w.group y → (w.pool x).cpuset = (w.pool y).cpuset) :
    Covers hwloc w w' := by
  obtain ⟨g, color, request, split, host, policy⟩ := even
  cases split with
  | intro task results run =>
      intro x pu member
      obtain ⟨object, some_, -⟩ := Hwloc.mem_inside.1 member
      by_cases inX : w.group x = g
      · subst inX
        obtain ⟨root, memRoot, npieces, hs, f, ready, ran, divided, pools⟩ := scopeSplit_members run
        generalize obj : Hwsplit.prepared hwloc npieces (request root).objType
          (.setUnion ((w.members (w.group x)).map w.pool)) ((w.members (w.group x)).map color)
          ((w.members (w.group x)).map fun x => (task x).stack.head?.getD ∅) = hs₀ at ready ran divided
        have cutEq : hs₀.priCpuset = (w.pool x).cpuset := by
          rw [← World.cpuset_union fun y same => equal y x same, ← obj]
          exact Hwsplit.priCpuset_host (host root (World.mem_members.1 memRoot))
        have colors : (∀ c ∈ hs₀.colors, c = splitPacked) ∨ ∀ c ∈ hs₀.colors, c = splitSpread := by
          rw [← obj]
          exact policy.imp
            (fun every c memC => by
              obtain ⟨y, memY, rfl⟩ := List.mem_map.1 memC
              exact every y (World.mem_members.1 memY))
            (fun every c memC => by
              obtain ⟨y, memY, rfl⟩ := List.mem_map.1 memC
              exact every y (World.mem_members.1 memY))
        -- the root got a piece, so there are some
        have full : hs₀.pieces ≠ [] := by
          intro none_
          have below := divided.below 0 (by rw [ready.groupSize]; exact List.length_pos_iff.2 ready.tasks)
          rw [none_] at below
          exact absurd below (Nat.not_lt_zero _)
        obtain ⟨i, pool, atI, sub⟩ := Hwsplit.pu_dealt ready colors full ran
          (by rw [cutEq, ← obj]; exact member)
        rw [pools, List.getElem?_map] at atI
        obtain ⟨y, atY, rfl⟩ := Option.map_eq_some_iff.1 atI
        have inY : w.group y = w.group x := World.mem_members.1 (List.mem_of_getElem? atY)
        refine ⟨y, Hwloc.mem_inside.2 ⟨object, some_, ?_⟩⟩
        show pu ⊆ (if w.group y = w.group x then (results y).2 else w.pool y).cpuset
        rwa [if_pos inY]
      · refine ⟨x, ?_⟩
        show pu ∈ hwloc.inside .pu (if w.group x = g then (results x).2 else w.pool x).cpuset
        rwa [if_neg inX]

theorem covers_run (apart : hwloc.PusDisjoint) {w w' : World n}
    (run : Relation.ReflTransGen (EvenSplit hwloc) w w') (fair : NestedDivision.Fair w.shares) :
    Covers hwloc w w' := by
  induction run with
  | refl => exact fun x pu member => ⟨x, member⟩
  | tail before even ih =>
      intro x pu member
      obtain ⟨y, between⟩ := ih x pu member
      have fair' := NestedDivision.fair_run (WorldRun.shares apart (even_run before) fair) fair
      exact even.covers fair'.equal y pu between

/-- **Nested splits and PUs.**  Tasks that share an intrinsic scope split again and again
over host types, every time by PACKED or SPREAD.  After that every PU of the scope belongs
to one of the groups: its members have it, and nobody else has any part of it. -/
theorem nested_splits_pus (hwloc : Hwloc) (apart : hwloc.PusDisjoint) (w₀ w : World n)
    (intrinsic : w₀.Intrinsic) (run : Relation.ReflTransGen (EvenSplit hwloc) w₀ w) (x₀ : Fin n)
    (pu : Bitmap) (member : pu ∈ hwloc.inside .pu (w₀.pool x₀).cpuset) :
    ∃ x, (∀ y, w.group y = w.group x ↔ pu ⊆ (w.pool y).cpuset) ∧
      ∀ y, w.group y ≠ w.group x → Disjoint pu (w.pool y).cpuset := by
  obtain ⟨x, inside⟩ := covers_run apart run intrinsic.fair x₀ pu member
  have fair : NestedDivision.Fair w.shares :=
    NestedDivision.fair_run (WorldRun.shares apart (even_run run) intrinsic.fair) intrinsic.fair
  obtain ⟨-, some_, sub⟩ := Hwloc.mem_inside.1 inside
  have others : ∀ y, w.group y ≠ w.group x → Disjoint pu (w.pool y).cpuset := fun y different =>
    (fair.apart x y (Ne.symm different)).mono_left sub
  refine ⟨x, fun y => ⟨fun same => ?_, fun has => ?_⟩, others⟩
  · exact sub.trans (fair.equal x y same.symm).le
  · by_contra different
    exact some_ (Finset.disjoint_self_iff_empty pu |>.1 ((others y different).mono_right has))

/-- The two tasks and the two PUs. -/
theorem nested_splits_pus_gpuTasks :
    ∃ w : World 2, Relation.ReflTransGen (EvenSplit (.onePackage 2 ["0000:01:00.0"])) gpuTasks w ∧
      ∃ x, (∀ y, w.group y = w.group x ↔ ({1} : Bitmap) ⊆ (w.pool y).cpuset) ∧
        ∀ y, w.group y ≠ w.group x → Disjoint ({1} : Bitmap) (w.pool y).cpuset := by
  obtain ⟨w, split⟩ := gpuTasks_packed
  have even : EvenSplit (.onePackage 2 ["0000:01:00.0"]) gpuTasks w :=
    ⟨_, _, _, split, fun _ _ => by decide, Or.inl fun _ _ => rfl⟩
  exact ⟨w, .single even, nested_splits_pus _ (Hwloc.onePackage_pusDisjoint 2 _) gpuTasks w
    ⟨fun _ => rfl, fun _ _ => rfl⟩ (.single even) 0 {1} (by decide +kernel)⟩

end QuoVadis.Kernel
