/-
# Kernel.Hwpool -- hardware pools and the devices in them

A hardware pool is a cpuset and, per device type, a list of devices.  Every pool
the library builds comes from `add_device`, so the invariant of the lists is a
field of the type: a device sits in the list of its own type, a list is sorted by
device ID, and no two devices of a list share a PCI bus ID, which is what
`qvi_hwpool_dev::equals` compares.

A pool is read through `Has` (a device type and a bus ID) and `mem_addDevice`;
`has_addDevice`, `has_setUnion` and `has_populate` say what the operations do to
it, and none of them touches the cpuset behind the caller's back.  What any sequence
of insertions and any union of pools leaves is `addDevices_setUnion_laws`.
-/
import QuoVadis.Kernel.Hwloc
import Mathlib.Tactic.DeriveFintype
import Mathlib.Data.Fintype.Pi

namespace QuoVadis.Kernel

set_option autoImplicit false

/-- `qvi_hwpool_res`. -/
structure HwpoolRes where
  flags : Int := 0
  affinity : Bitmap := ∅
  deriving DecidableEq

/-- `qvi_hwpool_dev`. -/
structure HwpoolDev extends HwpoolRes where
  type : HwObjType := .last
  id : Int := -1
  pciBusId : String := ""
  uuid : String := ""
  deriving DecidableEq

/-- The constructor from a `qvi_hwloc_device`. -/
def HwpoolDev.ofHwlocDevice (dev : HwlocDevice) : HwpoolDev where
  affinity := dev.affinity
  type := dev.type
  id := dev.id
  pciBusId := dev.pciBusId
  uuid := dev.uuid

/-- `qvi_hwpool`.  A type without devices has the empty list. -/
@[ext]
structure Hwpool where
  cpu : HwpoolRes
  devMap : HwObjType → List HwpoolDev
  typed : ∀ t, ∀ d ∈ devMap t, d.type = t
  distinct : ∀ t, (devMap t).Pairwise fun a b => a.pciBusId ≠ b.pciBusId
  sorted : ∀ t, (devMap t).Pairwise fun a b => a.id ≤ b.id

namespace Hwpool

/-- The constructor from a cpuset; the default constructor is the empty one. -/
def ofCpuset (cpuset : Bitmap) : Hwpool where
  cpu := { affinity := cpuset }
  devMap := fun _ => []
  typed := by simp
  distinct := by simp
  sorted := by simp

instance : Inhabited Hwpool := ⟨ofCpuset ∅⟩

/-- `cpuset`. -/
def cpuset (p : Hwpool) : Bitmap := p.cpu.affinity

/-- `devices`. -/
def devices (p : Hwpool) (t : HwObjType) : List HwpoolDev := p.devMap t

/-- `m_device_in_pool`. -/
def mDeviceInPool (p : Hwpool) (dev : HwpoolDev) : Bool :=
  (p.devices dev.type).any fun poolDev => poolDev.pciBusId == dev.pciBusId

/-- The list of a type after an insertion: pushed back, then sorted by ID. -/
def insertDevice (devs : List HwpoolDev) (dev : HwpoolDev) : List HwpoolDev :=
  stdSort (fun a b => decide (a.id < b.id)) (devs ++ [dev])

theorem insertDevice_perm (devs : List HwpoolDev) (dev : HwpoolDev) :
    (insertDevice devs dev).Perm (devs ++ [dev]) :=
  stdSort_perm _ _

theorem insertDevice_sorted (devs : List HwpoolDev) (dev : HwpoolDev) :
    (insertDevice devs dev).Pairwise fun a b => a.id ≤ b.id := by
  let le : HwpoolDev → HwpoolDev → Prop := fun a b => decide (b.id < a.id) = false
  have total : Std.Total le := ⟨fun a b => by simp only [le, decide_eq_false_iff_not]; omega⟩
  have trans : IsTrans HwpoolDev le :=
    ⟨fun a b c => by simp only [le, decide_eq_false_iff_not]; omega⟩
  have pairwise := List.pairwise_insertionSort le (devs ++ [dev])
  refine List.Pairwise.imp (fun {a b} h => ?_) pairwise
  simp only [le, decide_eq_false_iff_not] at h
  omega

/-- `add_device`. -/
def addDevice (p : Hwpool) (dev : HwpoolDev) : Hwpool :=
  if absent : p.mDeviceInPool dev = false then
    { cpu := p.cpu
      devMap := Function.update p.devMap dev.type (insertDevice (p.devMap dev.type) dev)
      typed := by
        intro t d member
        by_cases same : t = dev.type
        · subst same
          rw [Function.update_self, (insertDevice_perm _ _).mem_iff] at member
          rcases List.mem_append.1 member with old | new
          · exact p.typed _ d old
          · rw [List.mem_singleton.1 new]
        · rw [Function.update_of_ne same] at member
          exact p.typed t d member
      distinct := by
        intro t
        by_cases same : t = dev.type
        · subst same
          rw [Function.update_self]
          refine (insertDevice_perm _ _).symm.pairwise ?_ fun {a b} => Ne.symm
          rw [List.pairwise_append]
          refine ⟨p.distinct _, List.pairwise_singleton _ _, ?_⟩
          intro a memA b memB
          rw [List.mem_singleton.1 memB]
          simp only [mDeviceInPool, devices, List.any_eq_false, beq_iff_eq] at absent
          exact absent a memA
        · rw [Function.update_of_ne same]
          exact p.distinct t
      sorted := by
        intro t
        by_cases same : t = dev.type
        · subst same
          rw [Function.update_self]
          exact insertDevice_sorted _ _
        · rw [Function.update_of_ne same]
          exact p.sorted t }
  else p

/-- `m_add_devices_with_affinity`. -/
def mAddDevicesWithAffinity (h : Hwloc) (p : Hwpool) : Hwpool :=
  supportedDevices.foldl
    (fun p devt => (h.getDevicesIncludedInCpuset devt p.cpuset).foldl
      (fun p dev => p.addDevice (.ofHwlocDevice dev)) p) p

/-- `populate`, on a default-constructed pool as its callers have it. -/
def populate (h : Hwloc) (cpuset : Bitmap) : Hwpool :=
  mAddDevicesWithAffinity h (ofCpuset cpuset)

/-- `device_affinities`. -/
def deviceAffinities (p : Hwpool) (t : HwObjType) : Qv (List Bitmap) :=
  match objResClass t with
  | .dev => .ok ((p.devices t).map fun d => d.affinity)
  | _ => .error (.thrown .errNotSupported)

/-- `nobjects`.  A failed count is turned into an exception. -/
def nobjects (h : Hwloc) (p : Hwpool) (t : HwObjType) : Qv Nat :=
  match objResClass t with
  | .host =>
      match h.getNobjsInCpuset t p.cpuset with
      | .error (.ret rc) => .error (.thrown rc)
      | result => result
  | _ => .ok (p.devices t).length

/-- `set_union`. -/
def setUnion (hwpools : List Hwpool) : Hwpool :=
  let cpuUnion := hwpools.foldl (fun acc p => acc ∪ p.cpuset) ∅
  hwpools.foldl
    (fun result p => supportedDevices.foldl
      (fun result devt => (p.devices devt).foldl (fun result dev => result.addDevice dev) result)
      result)
    (ofCpuset cpuUnion)

/-! ## Reading a pool -/

/-- The pool holds a device of that type with that bus ID. -/
def Has (p : Hwpool) (t : HwObjType) (busId : String) : Prop :=
  ∃ d ∈ p.devices t, d.pciBusId = busId

instance (p : Hwpool) (t : HwObjType) (busId : String) : Decidable (p.Has t busId) :=
  inferInstanceAs (Decidable (∃ d ∈ p.devices t, _))

@[simp] theorem cpuset_ofCpuset (cpuset : Bitmap) : (ofCpuset cpuset).cpuset = cpuset := rfl

@[simp] theorem devices_ofCpuset (cpuset : Bitmap) (t : HwObjType) :
    (ofCpuset cpuset).devices t = [] := rfl

theorem mDeviceInPool_iff {p : Hwpool} {dev : HwpoolDev} :
    p.mDeviceInPool dev = true ↔ p.Has dev.type dev.pciBusId := by
  simp [mDeviceInPool, Has]

@[simp] theorem cpuset_addDevice (p : Hwpool) (dev : HwpoolDev) :
    (p.addDevice dev).cpuset = p.cpuset := by
  unfold addDevice
  split <;> rfl

/-- The lists of the other types stay. -/
theorem devices_addDevice_other {p : Hwpool} {dev : HwpoolDev} {t : HwObjType}
    (other : t ≠ dev.type) : (p.addDevice dev).devices t = p.devices t := by
  unfold addDevice
  split
  · exact Function.update_of_ne other _ _
  · rfl

/-- What is in a list after an insertion. -/
theorem mem_addDevice {p : Hwpool} {dev d : HwpoolDev} {t : HwObjType} :
    d ∈ (p.addDevice dev).devices t ↔
      d ∈ p.devices t ∨ (t = dev.type ∧ d = dev ∧ ¬ p.Has dev.type dev.pciBusId) := by
  unfold addDevice
  split
  · rename_i absent
    have notHas : ¬ p.Has dev.type dev.pciBusId := by
      rw [← mDeviceInPool_iff, absent]
      simp
    by_cases same : t = dev.type
    · subst same
      simp only [devices, Function.update_self, (insertDevice_perm _ _).mem_iff]
      simp [notHas]
    · simp [devices, same]
  · rename_i present
    have has : p.Has dev.type dev.pciBusId := mDeviceInPool_iff.1 (by simpa using present)
    simp [has]

theorem has_addDevice {p : Hwpool} {dev : HwpoolDev} {t : HwObjType} {busId : String} :
    (p.addDevice dev).Has t busId ↔ p.Has t busId ∨ (t = dev.type ∧ busId = dev.pciBusId) := by
  constructor
  · rintro ⟨d, member, rfl⟩
    rcases mem_addDevice.1 member with old | ⟨rfl, rfl, -⟩
    · exact Or.inl ⟨d, old, rfl⟩
    · exact Or.inr ⟨rfl, rfl⟩
  · rintro (⟨d, member, rfl⟩ | ⟨rfl, rfl⟩)
    · exact ⟨d, mem_addDevice.2 (Or.inl member), rfl⟩
    · by_cases has : p.Has dev.type dev.pciBusId
      · obtain ⟨d, member, same⟩ := has
        exact ⟨d, mem_addDevice.2 (Or.inl member), same⟩
      · exact ⟨dev, mem_addDevice.2 (Or.inr ⟨rfl, rfl, has⟩), rfl⟩

/-- A new device makes the list of its type one longer. -/
theorem length_addDevice {p : Hwpool} {dev : HwpoolDev} (absent : ¬ p.Has dev.type dev.pciBusId)
    (t : HwObjType) :
    ((p.addDevice dev).devices t).length =
      (p.devices t).length + if t = dev.type then 1 else 0 := by
  have flag : p.mDeviceInPool dev = false := by
    rw [← Bool.not_eq_true, mDeviceInPool_iff]
    exact absent
  unfold addDevice
  rw [dif_pos flag]
  by_cases same : t = dev.type
  · subst same
    simp only [devices, Function.update_self, if_true]
    rw [(insertDevice_perm _ _).length_eq, List.length_append, List.length_singleton]
  · simp [devices, same]

/-! ## Adding several devices -/

/-- The fold that `populate` and `set_union` are made of. -/
def addDevices (p : Hwpool) (devs : List HwpoolDev) : Hwpool :=
  devs.foldl addDevice p

@[simp] theorem addDevices_nil (p : Hwpool) : p.addDevices [] = p := rfl

@[simp] theorem addDevices_cons (p : Hwpool) (d : HwpoolDev) (devs : List HwpoolDev) :
    p.addDevices (d :: devs) = (p.addDevice d).addDevices devs := rfl

theorem addDevices_append (p : Hwpool) (xs ys : List HwpoolDev) :
    p.addDevices (xs ++ ys) = (p.addDevices xs).addDevices ys :=
  List.foldl_append

@[simp] theorem cpuset_addDevices (devs : List HwpoolDev) :
    ∀ p : Hwpool, (p.addDevices devs).cpuset = p.cpuset := by
  induction devs with
  | nil => intro p; rfl
  | cons d rest ih => intro p; rw [addDevices_cons, ih, cpuset_addDevice]

theorem has_addDevices {devs : List HwpoolDev} {t : HwObjType} {busId : String} :
    ∀ {p : Hwpool}, (p.addDevices devs).Has t busId ↔
      p.Has t busId ∨ ∃ d ∈ devs, d.type = t ∧ d.pciBusId = busId := by
  induction devs with
  | nil => simp
  | cons d rest ih =>
      intro p
      rw [addDevices_cons, ih, has_addDevice]
      rw [List.exists_mem_cons_iff, or_assoc, eq_comm (a := t), eq_comm (a := busId)]

/-- The first of the devices with this type and bus ID. -/
def firstAdded (devs : List HwpoolDev) (t : HwObjType) (busId : String) : Option HwpoolDev :=
  devs.find? fun dev => dev.type = t ∧ dev.pciBusId = busId

/-- A device that is in a list after several were added was there before, or was the
first of those with its bus ID. -/
theorem mem_addDevices {devs : List HwpoolDev} {t : HwObjType} {d : HwpoolDev} :
    ∀ {p : Hwpool}, d ∈ (p.addDevices devs).devices t ↔
      d ∈ p.devices t ∨ (¬ p.Has t d.pciBusId ∧ firstAdded devs t d.pciBusId = some d) := by
  induction devs with
  | nil => simp [firstAdded]
  | cons x rest ih =>
      intro p
      rw [addDevices_cons, ih, mem_addDevice, has_addDevice]
      by_cases hit : x.type = t ∧ x.pciBusId = d.pciBusId
      · have first : firstAdded (x :: rest) t d.pciBusId = some x := by
          simp [firstAdded, hit]
        obtain ⟨rfl, same⟩ := hit
        rw [first, Option.some.injEq, same, eq_comm (a := d)]
        simp only [true_and, or_true, not_true, false_and, or_false, and_comm]
      · have first : firstAdded (x :: rest) t d.pciBusId = firstAdded rest t d.pciBusId := by
          unfold firstAdded
          rw [List.find?_cons_of_neg (by simpa using hit)]
        have notNew : ¬ (t = x.type ∧ d = x ∧ ¬ p.Has x.type x.pciBusId) := by
          rintro ⟨rfl, rfl, -⟩
          exact hit ⟨rfl, rfl⟩
        have notHere : ¬ (t = x.type ∧ d.pciBusId = x.pciBusId) :=
          fun here => hit ⟨here.1.symm, here.2.symm⟩
        rw [first, or_iff_left notNew, or_iff_left notHere]

/-! ## Populating from the topology -/

/-- The devices `populate` adds, in order. -/
def included (h : Hwloc) (cpuset : Bitmap) : List HwpoolDev :=
  supportedDevices.flatMap fun t =>
    (h.getDevicesIncludedInCpuset t cpuset).map HwpoolDev.ofHwlocDevice

theorem populate_eq (h : Hwloc) (cpuset : Bitmap) :
    populate h cpuset = (ofCpuset cpuset).addDevices (included h cpuset) := by
  have inner : ∀ (p : Hwpool) (devs : List HwlocDevice),
      devs.foldl (fun p dev => p.addDevice (.ofHwlocDevice dev)) p =
        p.addDevices (devs.map HwpoolDev.ofHwlocDevice) :=
    fun p devs => (List.foldl_map ..).symm
  simp only [populate, mAddDevicesWithAffinity, supportedDevices, List.foldl_cons, List.foldl_nil,
    inner, cpuset_addDevices, cpuset_ofCpuset, included, List.flatMap_cons, List.flatMap_nil,
    List.append_nil, addDevices_append]

@[simp] theorem cpuset_populate (h : Hwloc) (cpuset : Bitmap) :
    (populate h cpuset).cpuset = cpuset := by
  rw [populate_eq, cpuset_addDevices, cpuset_ofCpuset]

theorem mem_included {h : Hwloc} {cpuset : Bitmap} {x : HwpoolDev} :
    x ∈ included h cpuset ↔ objResClass x.type = .dev ∧
      ∃ dev ∈ h.devmap x.type, dev.affinity ⊆ cpuset ∧ x = .ofHwlocDevice dev := by
  simp only [included, List.mem_flatMap, mem_supportedDevices, List.mem_map,
    Hwloc.getDevicesIncludedInCpuset, List.mem_filter, decide_eq_true_eq]
  constructor
  · rintro ⟨t, device, dev, ⟨member, inside⟩, rfl⟩
    have same : (HwpoolDev.ofHwlocDevice dev).type = t := h.devmap_type t dev member
    exact ⟨by rw [same]; exact device, dev, by rw [same]; exact member, inside, rfl⟩
  · rintro ⟨device, dev, member, inside, eq⟩
    exact ⟨x.type, device, dev, ⟨member, inside⟩, eq.symm⟩

theorem has_populate {h : Hwloc} {cpuset : Bitmap} {t : HwObjType} {busId : String} :
    (populate h cpuset).Has t busId ↔ objResClass t = .dev ∧
      ∃ dev ∈ h.devmap t, dev.affinity ⊆ cpuset ∧ dev.pciBusId = busId := by
  rw [populate_eq, has_addDevices]
  simp only [Has, devices_ofCpuset, List.not_mem_nil, false_and, exists_false, false_or]
  constructor
  · rintro ⟨x, member, rfl, rfl⟩
    obtain ⟨device, dev, found, inside, eq⟩ := mem_included.1 member
    exact ⟨device, dev, found, inside, by rw [eq]; rfl⟩
  · rintro ⟨device, dev, found, inside, rfl⟩
    have same : (HwpoolDev.ofHwlocDevice dev).type = t := h.devmap_type t dev found
    refine ⟨.ofHwlocDevice dev, mem_included.2 ⟨?_, dev, ?_, inside, rfl⟩, same, rfl⟩
    · rw [same]; exact device
    · rw [same]; exact found

/-! ## Union -/

/-- The devices `set_union` adds, in order. -/
def offered (hwpools : List Hwpool) : List HwpoolDev :=
  hwpools.flatMap fun p => supportedDevices.flatMap p.devices

theorem setUnion_eq (hwpools : List Hwpool) :
    setUnion hwpools = (ofCpuset (opOr (hwpools.map cpuset))).addDevices (offered hwpools) := by
  have outer : ∀ (pools : List Hwpool) (result : Hwpool),
      pools.foldl (fun result p => supportedDevices.foldl
        (fun result devt => (p.devices devt).foldl (fun result dev => result.addDevice dev) result)
        result) result = result.addDevices (offered pools) := by
    intro pools
    induction pools with
    | nil => intro result; rfl
    | cons p rest ih =>
        intro result
        rw [List.foldl_cons, ih]
        simp [offered, supportedDevices, addDevices]
  rw [setUnion, outer, opOr, List.foldl_map]

theorem cpuset_setUnion (hwpools : List Hwpool) :
    (setUnion hwpools).cpuset = opOr (hwpools.map cpuset) := by
  rw [setUnion_eq, cpuset_addDevices, cpuset_ofCpuset]

theorem mem_offered {hwpools : List Hwpool} {x : HwpoolDev} :
    x ∈ offered hwpools ↔ objResClass x.type = .dev ∧ ∃ p ∈ hwpools, x ∈ p.devices x.type := by
  simp only [offered, List.mem_flatMap, mem_supportedDevices]
  constructor
  · rintro ⟨p, member, t, device, found⟩
    have same : x.type = t := p.typed t x found
    exact ⟨by rw [same]; exact device, p, member, by rw [same]; exact found⟩
  · rintro ⟨device, p, member, found⟩
    exact ⟨p, member, x.type, device, found⟩

theorem has_setUnion {hwpools : List Hwpool} {t : HwObjType} {busId : String} :
    (setUnion hwpools).Has t busId ↔
      objResClass t = .dev ∧ ∃ p ∈ hwpools, p.Has t busId := by
  rw [setUnion_eq, has_addDevices]
  simp only [Has, devices_ofCpuset, List.not_mem_nil, false_and, exists_false, false_or]
  constructor
  · rintro ⟨x, member, rfl, rfl⟩
    obtain ⟨device, p, memP, found⟩ := mem_offered.1 member
    exact ⟨device, p, memP, x, found, rfl⟩
  · rintro ⟨device, p, memP, x, found, rfl⟩
    have same : x.type = t := p.typed t x found
    refine ⟨x, mem_offered.2 ⟨?_, p, memP, ?_⟩, same, rfl⟩
    · rw [same]; exact device
    · rw [same]; exact found

/-- Two pools that own the same: the cpuset, and per type the bus IDs. -/
def SameResources (p q : Hwpool) : Prop :=
  p.cpuset = q.cpuset ∧ ∀ t busId, p.Has t busId ↔ q.Has t busId

theorem mem_cpuset_setUnion {hwpools : List Hwpool} {x : Nat} :
    x ∈ (setUnion hwpools).cpuset ↔ ∃ p ∈ hwpools, x ∈ p.cpuset := by
  rw [cpuset_setUnion, mem_opOr]
  simp

/-- Order and repetitions of the pools do not matter. -/
theorem setUnion_congr {hwpools hwpools' : List Hwpool} (same : ∀ p, p ∈ hwpools ↔ p ∈ hwpools') :
    SameResources (setUnion hwpools) (setUnion hwpools') := by
  refine ⟨?_, fun t busId => ?_⟩
  · ext x
    simp only [mem_cpuset_setUnion, same]
  · simp only [has_setUnion, same]

/-- A union of unions is the union of all the pools. -/
theorem setUnion_flatten (groups : List (List Hwpool)) :
    SameResources (setUnion (groups.map setUnion)) (setUnion groups.flatten) := by
  refine ⟨?_, fun t busId => ?_⟩
  · ext x
    simp only [mem_cpuset_setUnion, List.mem_map, exists_exists_and_eq_and, List.mem_flatten]
    constructor
    · rintro ⟨pools, memPools, p, memP, inside⟩
      exact ⟨p, ⟨pools, memPools, memP⟩, inside⟩
    · rintro ⟨p, ⟨pools, memPools, memP⟩, inside⟩
      exact ⟨pools, memPools, p, memP, inside⟩
  · simp only [has_setUnion, List.mem_map, exists_exists_and_eq_and, List.mem_flatten]
    constructor
    · rintro ⟨device, pools, memPools, -, p, memP, has⟩
      exact ⟨device, p, ⟨pools, memPools, memP⟩, has⟩
    · rintro ⟨device, p, ⟨pools, memPools, memP⟩, has⟩
      exact ⟨device, pools, memPools, device, p, memP, has⟩

/-- **Pools and their unions.**  Adding devices to a new pool leaves every list sorted
by ID, without two devices of one bus ID, and with the first device added of every bus
ID of that type.  The union of pools owns what they own, device types only, in whatever
order, how often and in which groups they are given. -/
theorem addDevices_setUnion_laws :
    (∀ (cpuset : Bitmap) (devs : List HwpoolDev) (t : HwObjType),
      let p := (ofCpuset cpuset).addDevices devs
      (p.devices t).Pairwise (fun a b => a.id ≤ b.id) ∧
      (p.devices t).Pairwise (fun a b => a.pciBusId ≠ b.pciBusId) ∧
      (∀ busId, p.Has t busId ↔ ∃ d ∈ devs, d.type = t ∧ d.pciBusId = busId) ∧
      ∀ d, d ∈ p.devices t ↔ firstAdded devs t d.pciBusId = some d) ∧
    (∀ hwpools : List Hwpool,
      (∀ x, x ∈ (setUnion hwpools).cpuset ↔ ∃ p ∈ hwpools, x ∈ p.cpuset) ∧
      ∀ t busId, (setUnion hwpools).Has t busId ↔
        objResClass t = .dev ∧ ∃ p ∈ hwpools, p.Has t busId) ∧
    (∀ hwpools hwpools' : List Hwpool, (∀ p, p ∈ hwpools ↔ p ∈ hwpools') →
      SameResources (setUnion hwpools) (setUnion hwpools')) ∧
    ∀ groups : List (List Hwpool),
      SameResources (setUnion (groups.map setUnion)) (setUnion groups.flatten) := by
  refine ⟨?_, ?_, fun _ _ => setUnion_congr, setUnion_flatten⟩
  · intro cpuset devs t p
    have fresh : ∀ busId, ¬ (ofCpuset cpuset).Has t busId := by simp [Has]
    refine ⟨p.sorted t, p.distinct t, fun busId => ?_, fun d => ?_⟩
    · simp only [p, has_addDevices, fresh, false_or]
    · simp only [p, mem_addDevices, fresh, devices_ofCpuset, List.not_mem_nil, false_or,
        not_false_eq_true, true_and]
  · exact fun hwpools => ⟨fun x => mem_cpuset_setUnion, fun t busId => has_setUnion⟩

end Hwpool

end QuoVadis.Kernel
