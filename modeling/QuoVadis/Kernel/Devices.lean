/-
# Kernel.Devices -- from the OS devices of a topology to the device map

`m_discover_devices` goes through the OS devices that hwloc reports.  Those of interest
(`keepOsDevice`) that hang below a PCI device are merged by PCI bus ID: each one writes
all its information over that of the one before, its type included.  The devices that
are left are distributed over one list for each type and sorted by ID.

The ID of a device is made of all the digits in its name, wherever they stand, and has to
fit in an `int`: `getDevIdFromName` has a value for a name without digits, but throws when
there are too many, and nothing on the way up to `topology_load` and its return codes
catches it.

* `discoverStep_ok_iff`: what one OS device does to the map;
* `mDiscoverDevices_ok`: the device map describes the last device of each bus ID;
* `mDiscoverDevices_succeeds_iff`: there is a map exactly when no name stands in the way;
* `Hwloc.topologyLoad_counts`: so the library counts PCI devices.

What hwloc answers about the place of a PCI device is a parameter.
-/
import QuoVadis.Kernel.Hwloc
import QuoVadis.Kernel.Strings
import QuoVadis.Theory.KeyedMerge
import Std.Data.ExtTreeMap

namespace QuoVadis.Kernel

open QuoVadis.Theory
open Std (ExtTreeMap)

set_option autoImplicit false

/-! ## What hwloc reports -/

/-- `hwloc_obj_osdev_type_t`. -/
inductive OsdevType where
  | block
  | gpu
  | network
  | openfabrics
  | dma
  | coproc
  deriving DecidableEq, Repr

/-- The place of a PCI device, from `hwloc_pcidev_attr_s`. -/
structure PciAttr where
  domain : UInt32
  bus : UInt8
  dev : UInt8
  func : UInt8

/-- An OS device: what the discovery reads of the `hwloc_obj_t`. -/
structure OsDevice where
  osdevType : OsdevType
  subtype : Option String
  name : String
  infos : List (String × String)
  /-- The parent, if it is a PCI device. -/
  pciParent : Option PciAttr

/-- A topology as the discovery sees it. -/
structure IoTopology where
  /-- The OS devices in the order of `hwloc_get_next_osdev`. -/
  osdevs : List OsDevice
  /-- The cpuset of the package above the PCI device with a bus ID. -/
  packageAbove : String → Option Bitmap
  /-- `topology_get_cpuset`. -/
  allowedCpuset : Bitmap

/-! ## The source's functions -/

/-- All the digits of a name, in order. -/
def nums (name : String) : List Char :=
  name.toList.filter Char.isDigit

/-- `get_dev_id_from_name`. -/
def getDevIdFromName (name : String) : Qv Int :=
  if nums name ≠ [] then qviStoi (nums name) else .ok invalidId

/-- `obj_has_subtype`. -/
def objHasSubtype (obj : OsDevice) (subtype : String) : Bool :=
  obj.subtype = some subtype

/-- Whether `sscanf` reads a number after `cxi`. -/
def scansCxi (name : String) : Bool :=
  match name.toList with
  | 'c' :: 'x' :: 'i' :: rest => (strtol rest).isSome
  | _ => false

/-- `keep_os_device`, in a build with or without `QV_GPU_SUPPORT`. -/
def keepOsDevice (gpuSupport : Bool) (obj : OsDevice) : Bool :=
  match obj.osdevType with
  | .gpu => gpuSupport
  | .coproc => gpuSupport && objHasSubtype obj "LevelZero"
  | .openfabrics => true
  | .network =>
      if objHasSubtype obj "BXI" then true
      else if objHasSubtype obj "Slingshot" then scansCxi obj.name
      else false
  | _ => false

/-- `get_obj_info_by_name`: the first one of that name, or an empty text. -/
def getObjInfoByName (obj : OsDevice) (name : String) : String :=
  if name = "" then "" else (obj.infos.lookup name).getD ""

/-- The `%0wx` of a bus ID. -/
def hexPadded (width n : Nat) : List Char :=
  (Nat.toDigits 16 n).leftpad width '0'

/-- The text that `get_pci_info` prints. -/
def pciBusIdText (pci : PciAttr) : List Char :=
  hexPadded 4 pci.domain.toNat ++ ':' :: hexPadded 2 pci.bus.toNat ++
    ':' :: hexPadded 2 pci.dev.toNat ++ '.' :: hexPadded 1 pci.func.toNat

/-- `get_pci_info`: the bus ID, if there is a PCI object. -/
def getPciInfo (dev : OsDevice) : Qv (Option String) :=
  match dev.pciParent with
  | none => .ok none
  | some pci =>
      -- PCI_BUS_ID_BUFF_SIZE
      if (pciBusIdText pci).length ≥ 32 then .error (.thrown .errInternal)
      else .ok (some (String.ofList (pciBusIdText pci)))

/-- The switch of `m_set_device_info`: the type, and the name of the UUID among the infos. -/
def deviceKind (obj : OsDevice) : Option (HwObjType × String) :=
  match obj.osdevType with
  | .gpu =>
      let vendorInfo := getObjInfoByName obj "GPUVendor"
      let vendor := (qviSplitString vendorInfo.toList ' ').head (qviSplitString_ne_nil _ _)
      some (.gpu, String.ofList vendor ++ "UUID")
  | .coproc => some (.gpu, if objHasSubtype obj "LevelZero" then "LevelZeroUUID" else "")
  | .openfabrics => some (.nic, "NodeGUID")
  | .network => some (.nic, if objHasSubtype obj "BXI" then "BXIUUID" else "Address")
  | _ => none

/-- `m_set_device_affinity_by_pci_bus_id`. -/
def mSetDeviceAffinityByPciBusId (topo : IoTopology) (busid : String) (dev : HwlocDevice) :
    HwlocDevice :=
  { dev with affinity := (topo.packageAbove busid).getD topo.allowedCpuset }

/-- `m_set_device_info`. -/
def mSetDeviceInfo (topo : IoTopology) (obj : OsDevice) (pciBusId : String)
    (device : HwlocDevice) : Qv HwlocDevice :=
  match deviceKind obj with
  | none => .ok device
  | some (type, uuidInfoName) => do
      let id ← getDevIdFromName obj.name
      return mSetDeviceAffinityByPciBusId topo pciBusId
        { device with
          type := type
          name := obj.name
          id := id
          pciBusId := pciBusId
          uuid := getObjInfoByName obj uuidInfoName }

/-- A turn of the loop over the OS devices. -/
def discoverStep (gpuSupport : Bool) (topo : IoTopology) (devmap : ExtTreeMap String HwlocDevice)
    (obj : OsDevice) : Qv (ExtTreeMap String HwlocDevice) := do
  if ¬ keepOsDevice gpuSupport obj then return devmap
  match ← getPciInfo obj with
  | none => return devmap
  | some busid =>
      -- a new device, or the one that has been seen under this bus ID
      let dev ← mSetDeviceInfo topo obj busid (devmap.getD busid {})
      return devmap.insert busid dev

/-- `m_discover_devices`, from an empty device map. -/
def mDiscoverDevices (gpuSupport : Bool) (topo : IoTopology) :
    Qv (HwObjType → List HwlocDevice) := do
  let devmap ← topo.osdevs.foldlM (discoverStep gpuSupport topo) ∅
  let mDevmap := distribute HwlocDevice.type (devmap.toList.map Prod.snd)
  return fun t => stdSort (fun a b => a.id < b.id) (mDevmap t)

/-! ## One OS device -/

theorem isDigit_of_mem_nums {name : String} : ∀ c ∈ nums name, c.isDigit = true :=
  fun _ member => (List.mem_filter.1 member).2

/-- A name has an ID when its digits are an `int`. -/
theorem getDevIdFromName_ok_iff {name : String} :
    (∃ id, getDevIdFromName name = .ok id) ↔ Nat.ofDigitChars 10 (nums name) 0 < 2 ^ 31 := by
  by_cases some_ : nums name = []
  · simp [getDevIdFromName, some_]
  · rw [getDevIdFromName, if_pos some_, qviStoi_digits some_ isDigit_of_mem_nums]
    by_cases fits : Nat.ofDigitChars 10 (nums name) 0 < 2 ^ 31
    · rw [if_pos fits]
      exact ⟨fun _ => fits, fun _ => ⟨_, rfl⟩⟩
    · rw [if_neg fits]
      constructor
      · rintro ⟨id, parsed⟩
        cases parsed
      · intro fits'
        exact absurd fits' fits

/-- Up to nine digits are. -/
theorem getDevIdFromName_short {name : String} (short : (nums name).length ≤ 9) :
    ∃ id, getDevIdFromName name = .ok id := by
  refine getDevIdFromName_ok_iff.2 ?_
  calc Nat.ofDigitChars 10 (nums name) 0
    _ < 10 ^ (nums name).length := ofDigitChars_lt isDigit_of_mem_nums
    _ ≤ 10 ^ 9 := Nat.pow_le_pow_right (by decide) short
    _ < 2 ^ 31 := by decide

/-- A bus ID as a text. -/
def pciBusId (pci : PciAttr) : String := String.ofList (pciBusIdText pci)

theorem length_hexPadded {width n k : Nat} (pos : 0 < k) (wide : width ≤ k) (fits : n < 16 ^ k) :
    (hexPadded width n).length ≤ k := by
  have digits : (Nat.toDigits 16 n).length ≤ k := (Nat.length_toDigits_le_iff (by decide) pos).2 fits
  rw [hexPadded, List.length_leftpad]
  omega

/-- The buffer of `get_pci_info` is large enough. -/
theorem getPciInfo_eq (dev : OsDevice) : getPciInfo dev = .ok (dev.pciParent.map pciBusId) := by
  cases found : dev.pciParent with
  | none => simp [getPciInfo, found]
  | some pci =>
      have domain : (hexPadded 4 pci.domain.toNat).length ≤ 8 :=
        length_hexPadded (by decide) (by decide) pci.domain.toNat_lt
      have bus : (hexPadded 2 pci.bus.toNat).length ≤ 2 :=
        length_hexPadded (by decide) (by decide) pci.bus.toNat_lt
      have dev_ : (hexPadded 2 pci.dev.toNat).length ≤ 2 :=
        length_hexPadded (by decide) (by decide) pci.dev.toNat_lt
      have func : (hexPadded 1 pci.func.toNat).length ≤ 2 :=
        length_hexPadded (by decide) (by decide) pci.func.toNat_lt
      have short : ¬ (pciBusIdText pci).length ≥ 32 := by
        simp only [pciBusIdText, List.length_append, List.length_cons]
        omega
      simp only [getPciInfo, found, Option.map_some, pciBusId]
      rw [if_neg short]

section Discovery

variable {gpuSupport : Bool} {topo : IoTopology} {obj : OsDevice} {busid : String}

/-- The bus ID under which an OS device is kept, if it is. -/
def keptBusId (gpuSupport : Bool) (obj : OsDevice) : Option String :=
  if keepOsDevice gpuSupport obj then obj.pciParent.map pciBusId else none

theorem keep_of_keptBusId (kept : keptBusId gpuSupport obj = some busid) :
    keepOsDevice gpuSupport obj = true := by
  by_contra skipped
  rw [keptBusId, if_neg skipped] at kept
  cases kept

/-- A device that carries the information of an OS device. -/
structure Describes (topo : IoTopology) (obj : OsDevice) (busid : String) (d : HwlocDevice) :
    Prop where
  kind : ∃ uuidInfoName, deviceKind obj = some (d.type, uuidInfoName) ∧
    d.uuid = getObjInfoByName obj uuidInfoName
  name : d.name = obj.name
  id : getDevIdFromName obj.name = .ok d.id
  pciBusId : d.pciBusId = busid
  affinity : d.affinity = (topo.packageAbove busid).getD topo.allowedCpuset

theorem deviceKind_of_keep (keep : keepOsDevice gpuSupport obj = true) :
    ∃ type uuidInfoName, deviceKind obj = some (type, uuidInfoName) := by
  cases type : obj.osdevType <;> simp [keepOsDevice, deviceKind, type] at keep ⊢

variable (topo) in
theorem exists_describes (kept : keptBusId gpuSupport obj = some busid) {id : Int}
    (parsed : getDevIdFromName obj.name = .ok id) : ∃ d, Describes topo obj busid d := by
  obtain ⟨type, uuidInfoName, kind⟩ := deviceKind_of_keep (keep_of_keptBusId kept)
  let d : HwlocDevice :=
    { type := type
      affinity := (topo.packageAbove busid).getD topo.allowedCpuset
      id := id
      name := obj.name
      pciBusId := busid
      uuid := getObjInfoByName obj uuidInfoName }
  exact ⟨d, ⟨uuidInfoName, kind, rfl⟩, rfl, parsed, rfl, rfl⟩

/-- Whatever the device was before, it describes the OS device afterwards. -/
theorem mSetDeviceInfo_ok_iff (keep : keepOsDevice gpuSupport obj = true) {device d : HwlocDevice} :
    mSetDeviceInfo topo obj busid device = .ok d ↔ Describes topo obj busid d := by
  obtain ⟨type, uuidInfoName, kind⟩ := deviceKind_of_keep keep
  constructor
  · intro run
    simp only [mSetDeviceInfo, kind] at run
    obtain ⟨id, parsed, run⟩ := bind_ok run
    cases run
    exact ⟨⟨uuidInfoName, kind, rfl⟩, rfl, parsed, rfl, rfl⟩
  · rintro ⟨⟨uuidInfoName', kind', uuid⟩, name, id, bus, affinity⟩
    rw [kind] at kind'
    cases kind'
    simp only [mSetDeviceInfo, kind, id]
    obtain ⟨type, affinity', id', name', bus', uuid'⟩ := d
    simp only at uuid name bus affinity
    subst uuid name bus affinity
    rfl

theorem discoverStep_eq (devmap : ExtTreeMap String HwlocDevice) :
    discoverStep gpuSupport topo devmap obj =
      match keptBusId gpuSupport obj with
      | none => .ok devmap
      | some busid =>
          (mSetDeviceInfo topo obj busid (devmap.getD busid {})).map (devmap.insert busid) := by
  by_cases keep : keepOsDevice gpuSupport obj = true
  · rw [discoverStep, if_neg (by simpa using keep), getPciInfo_eq, keptBusId, if_pos keep]
    cases found : obj.pciParent with
    | none => rfl
    | some pci =>
        cases set : mSetDeviceInfo topo obj (pciBusId pci) (devmap.getD (pciBusId pci) {}) with
        | error fault => simp [set, bind, Except.bind, Except.map]
        | ok d => simp [set, bind, Except.bind, Except.map, pure, Except.pure]
  · rw [discoverStep, if_pos keep, keptBusId, if_neg keep]
    rfl

/-- **One OS device**: it is skipped, or it stands for its bus ID from now on. -/
theorem discoverStep_ok_iff {devmap devmap' : ExtTreeMap String HwlocDevice} :
    discoverStep gpuSupport topo devmap obj = .ok devmap' ↔
      match keptBusId gpuSupport obj with
      | none => devmap' = devmap
      | some busid => ∃ d, Describes topo obj busid d ∧ devmap' = devmap.insert busid d := by
  rw [discoverStep_eq]
  cases kept : keptBusId gpuSupport obj with
  | none => exact ⟨fun same => (Except.ok.inj same).symm, fun same => congrArg _ same.symm⟩
  | some busid =>
      have keep : keepOsDevice gpuSupport obj = true := keep_of_keptBusId kept
      constructor
      · intro run
        obtain ⟨d, set, same⟩ := map_ok run
        exact ⟨d, (mSetDeviceInfo_ok_iff keep).1 set, same.symm⟩
      · rintro ⟨d, described, rfl⟩
        exact congrArg (Except.map (devmap.insert busid)) ((mSetDeviceInfo_ok_iff keep).2 described)

/-! ## The loop -/

/-- Every bus ID has the device that describes the last OS device kept under it. -/
def Merged (gpuSupport : Bool) (topo : IoTopology) (seen : List OsDevice)
    (devmap : ExtTreeMap String HwlocDevice) : Prop :=
  ∀ busid, Option.Rel (fun o d => Describes topo o busid d)
    (lastWith (keptBusId gpuSupport) seen busid) devmap[busid]?

theorem merged_step {seen : List OsDevice} {devmap devmap' : ExtTreeMap String HwlocDevice}
    (merged : Merged gpuSupport topo seen devmap)
    (run : discoverStep gpuSupport topo devmap obj = .ok devmap') :
    Merged gpuSupport topo (seen ++ [obj]) devmap' := by
  intro busid
  have same := discoverStep_ok_iff.1 run
  rw [lastWith_concat]
  cases kept : keptBusId gpuSupport obj with
  | none =>
      simp only [kept] at same
      rw [same, if_neg (by simp)]
      exact merged busid
  | some busid' =>
      simp only [kept] at same
      obtain ⟨d, described, rfl⟩ := same
      rw [ExtTreeMap.getElem?_insert]
      by_cases here : busid' = busid
      · subst here
        rw [if_pos rfl, if_pos (by simp)]
        exact .some described
      · rw [if_neg (by simpa using here), if_neg (by simpa using here)]
        exact merged busid

theorem merged_loop : ∀ (osdevs : List OsDevice) {devmap : ExtTreeMap String HwlocDevice},
    osdevs.foldlM (discoverStep gpuSupport topo) ∅ = .ok devmap →
      Merged gpuSupport topo osdevs devmap := by
  intro osdevs
  induction osdevs using List.reverseRecOn with
  | nil =>
      intro devmap run busid
      cases run
      simp only [lastWith_nil, ExtTreeMap.getElem?_empty]
      exact .none
  | append_singleton before obj ih =>
      intro devmap run
      obtain ⟨seen, first, last⟩ := foldlM_concat_ok run
      exact merged_step (ih first) last

/-- A device in the map describes the last OS device of its bus ID. -/
theorem Merged.of_getElem? {seen : List OsDevice} {devmap : ExtTreeMap String HwlocDevice}
    (merged : Merged gpuSupport topo seen devmap) {d : HwlocDevice}
    (found : devmap[busid]? = some d) :
    ∃ o, lastWith (keptBusId gpuSupport) seen busid = some o ∧ Describes topo o busid d := by
  have rel := merged busid
  rw [found] at rel
  cases last : lastWith (keptBusId gpuSupport) seen busid with
  | none => rw [last] at rel; cases rel
  | some o =>
      rw [last] at rel
      cases rel with
      | some described => exact ⟨o, rfl, described⟩

/-- The last OS device of a bus ID has its device. -/
theorem Merged.of_lastWith {seen : List OsDevice} {devmap : ExtTreeMap String HwlocDevice}
    (merged : Merged gpuSupport topo seen devmap) {o : OsDevice}
    (last : lastWith (keptBusId gpuSupport) seen busid = some o) :
    ∃ d, devmap[busid]? = some d ∧ Describes topo o busid d := by
  have rel := merged busid
  rw [last] at rel
  cases found : devmap[busid]? with
  | none => rw [found] at rel; cases rel
  | some d =>
      rw [found] at rel
      cases rel with
      | some described => exact ⟨d, rfl, described⟩

/-- A device carries the bus ID under which it is stored, so that no two share one. -/
theorem Merged.nodup_busIds {seen : List OsDevice} {devmap : ExtTreeMap String HwlocDevice}
    (merged : Merged gpuSupport topo seen devmap) :
    ((devmap.toList.map Prod.snd).map HwlocDevice.pciBusId).Nodup := by
  have keys : (devmap.toList.map Prod.snd).map HwlocDevice.pciBusId =
      devmap.toList.map Prod.fst := by
    rw [List.map_map]
    refine List.map_congr_left ?_
    rintro ⟨busid, d⟩ member
    obtain ⟨o, -, described⟩ :=
      merged.of_getElem? (ExtTreeMap.mem_toList_iff_getElem?_eq_some.1 member)
    exact described.pciBusId
  rw [keys, ExtTreeMap.map_fst_toList_eq_keys]
  exact ExtTreeMap.nodup_keys

/-- A turn ends well unless a kept OS device has no ID. -/
theorem discoverStep_succeeds_iff (devmap : ExtTreeMap String HwlocDevice) (o : OsDevice) :
    (∃ devmap', discoverStep gpuSupport topo devmap o = .ok devmap') ↔
      ((keptBusId gpuSupport o).isSome → ∃ id, getDevIdFromName o.name = .ok id) := by
  simp only [discoverStep_ok_iff]
  cases kept : keptBusId gpuSupport o with
  | none => simp
  | some busid =>
      constructor
      · rintro ⟨devmap', d, described, -⟩ -
        exact ⟨d.id, described.id⟩
      · intro ids
        obtain ⟨id, parsed⟩ := ids rfl
        obtain ⟨d, described⟩ := exists_describes topo kept parsed
        exact ⟨_, d, described, rfl⟩

/-! ## The device map -/

/-- The device map after discovery. -/
structure Discovered (gpuSupport : Bool) (topo : IoTopology)
    (devmap : HwObjType → List HwlocDevice) : Prop where
  /-- The bus ID of a kept OS device is in one place of the whole map. -/
  once : ∀ o ∈ topo.osdevs, ∀ busid, keptBusId gpuSupport o = some busid →
    ∃! place : HwObjType × Nat, ∃ d, (devmap place.1)[place.2]? = some d ∧ d.pciBusId = busid
  /-- The device there describes the last OS device kept under that bus ID, and is in
  the list of its type. -/
  last : ∀ busid o, lastWith (keptBusId gpuSupport) topo.osdevs busid = some o →
    ∃ d, d ∈ devmap d.type ∧ Describes topo o busid d
  /-- There are no other devices. -/
  only : ∀ t, ∀ d ∈ devmap t, ∃ o,
    lastWith (keptBusId gpuSupport) topo.osdevs d.pciBusId = some o ∧
      Describes topo o d.pciBusId d
  typed : ∀ t, ∀ d ∈ devmap t, d.type = t
  sorted : ∀ t, (devmap t).Pairwise fun a b => a.id ≤ b.id

/-- **What discovery leaves behind**, if it ends well. -/
theorem mDiscoverDevices_ok {devmap : HwObjType → List HwlocDevice}
    (run : mDiscoverDevices gpuSupport topo = .ok devmap) : Discovered gpuSupport topo devmap := by
  obtain ⟨pci2dev, loop, same⟩ := bind_ok run
  cases same
  have merged := merged_loop topo.osdevs loop
  have split : ∀ t, (stdSort (fun a b : HwlocDevice => decide (a.id < b.id))
      (distribute HwlocDevice.type (pci2dev.toList.map Prod.snd) t)).Perm
        ((pci2dev.toList.map Prod.snd).filter fun d => d.type = t) := by
    intro t
    rw [distribute_eq]
    exact stdSort_perm _ _
  have listed : ∀ {t d}, d ∈ stdSort (fun a b : HwlocDevice => decide (a.id < b.id))
      (distribute HwlocDevice.type (pci2dev.toList.map Prod.snd) t) ↔
        d ∈ pci2dev.toList.map Prod.snd ∧ d.type = t := by
    intro t d
    rw [(split t).mem_iff, List.mem_filter, decide_eq_true_eq]
  have stored : ∀ {busid : String} {d : HwlocDevice}, pci2dev[busid]? = some d →
      d ∈ pci2dev.toList.map Prod.snd := fun found =>
    List.mem_map_of_mem (ExtTreeMap.mem_toList_iff_getElem?_eq_some.2 found)
  constructor
  case once =>
    intro o member busid kept
    obtain ⟨last, isLast⟩ := exists_lastWith member kept
    obtain ⟨d, found, described⟩ := merged.of_lastWith isLast
    rw [← described.pciBusId]
    exact existsUnique_place merged.nodup_busIds split (stored found)
  case last =>
    intro busid o last
    obtain ⟨d, found, described⟩ := merged.of_lastWith last
    exact ⟨d, listed.2 ⟨stored found, rfl⟩, described⟩
  case only =>
    intro t d member
    obtain ⟨⟨busid, d'⟩, inMap, rfl⟩ := List.mem_map.1 (listed.1 member).1
    obtain ⟨o, last, described⟩ :=
      merged.of_getElem? (ExtTreeMap.mem_toList_iff_getElem?_eq_some.1 inMap)
    have same : d'.pciBusId = busid := described.pciBusId
    simp only [same]
    exact ⟨o, last, described⟩
  case typed => exact fun t d member => (listed.1 member).2
  case sorted =>
    have byId : ∀ a b : HwlocDevice, decide (a.id < b.id) = true ↔ a.id < b.id := by simp
    exact fun t => stdSort_pairwise byId _

/-- Discovery ends well unless a kept OS device has no ID. -/
theorem mDiscoverDevices_ok_iff :
    (∃ devmap, mDiscoverDevices gpuSupport topo = .ok devmap) ↔
      ∀ o ∈ topo.osdevs, (keptBusId gpuSupport o).isSome →
        ∃ id, getDevIdFromName o.name = .ok id := by
  rw [← foldlM_ok_iff discoverStep_succeeds_iff ∅]
  constructor
  · rintro ⟨devmap, run⟩
    obtain ⟨pci2dev, loop, -⟩ := bind_ok run
    exact ⟨pci2dev, loop⟩
  · rintro ⟨pci2dev, loop⟩
    exact ⟨_, by rw [mDiscoverDevices, loop]; rfl⟩

theorem Discovered.nodup_busIds {devmap : HwObjType → List HwlocDevice}
    (discovered : Discovered gpuSupport topo devmap) (t : HwObjType) :
    ((devmap t).map HwlocDevice.pciBusId).Nodup := by
  rw [List.Nodup, List.pairwise_map, List.pairwise_iff_getElem]
  intro i j inside inside' less same
  obtain ⟨o, last, -⟩ := discovered.only t _ (List.getElem_mem inside)
  obtain ⟨member, kept⟩ := lastWith_some last
  have place : ((t, i) : HwObjType × Nat) = (t, j) :=
    (discovered.once o member _ kept).unique
      ⟨_, List.getElem?_eq_getElem inside, rfl⟩ ⟨_, List.getElem?_eq_getElem inside', same.symm⟩
  cases place
  exact lt_irrefl i less

/-! ## Into the topology -/

/-- `topology_load`, once hwloc has loaded the objects: it takes over the device map, and
an exception goes through. -/
def Hwloc.topologyLoad (h : Hwloc) (gpuSupport : Bool) (topo : IoTopology) : Qv Hwloc :=
  match run : mDiscoverDevices gpuSupport topo with
  | .ok devmap =>
      .ok { h with
        devmap := devmap
        devmap_type := (mDiscoverDevices_ok run).typed
        osDevices := !topo.osdevs.isEmpty }
  | .error fault => .error fault

theorem Hwloc.topologyLoad_ok {h h' : Hwloc} (run : h.topologyLoad gpuSupport topo = .ok h') :
    Discovered gpuSupport topo h'.devmap := by
  rw [Hwloc.topologyLoad] at run
  split at run
  · rename_i devmap found
    cases run
    exact mDiscoverDevices_ok found
  · cases run

/-- **Counting devices** counts the PCI devices whose last OS device is of that type, each
one once. -/
theorem Hwloc.topologyLoad_counts {h h' : Hwloc} (run : h.topologyLoad gpuSupport topo = .ok h')
    {t : HwObjType} (dev : objResClass t = .dev) (cpuset : Bitmap) :
    ∃ ids : Finset String, h'.getNobjsInCpuset t cpuset = .ok ids.card ∧
      ∀ busid, busid ∈ ids ↔ ∃ o uuidInfoName,
        lastWith (keptBusId gpuSupport) topo.osdevs busid = some o ∧
          deviceKind o = some (t, uuidInfoName) ∧
            (topo.packageAbove busid).getD topo.allowedCpuset ⊆ cpuset := by
  have discovered := Hwloc.topologyLoad_ok run
  have distinct : ((h'.getDevicesIncludedInCpuset t cpuset).map HwlocDevice.pciBusId).Nodup :=
    (discovered.nodup_busIds t).sublist (List.filter_sublist.map _)
  refine ⟨((h'.getDevicesIncludedInCpuset t cpuset).map HwlocDevice.pciBusId).toFinset, ?_, ?_⟩
  · rw [List.toFinset_card_of_nodup distinct, List.length_map, getNobjsInCpuset_dev dev]
  intro busid
  simp only [List.mem_toFinset, List.mem_map, Hwloc.getDevicesIncludedInCpuset, List.mem_filter,
    decide_eq_true_eq]
  constructor
  · rintro ⟨d, ⟨listed, near⟩, rfl⟩
    obtain ⟨o, last, described⟩ := discovered.only t d listed
    obtain ⟨uuidInfoName, kind, -⟩ := described.kind
    rw [discovered.typed t d listed] at kind
    exact ⟨o, uuidInfoName, last, kind, described.affinity ▸ near⟩
  · rintro ⟨o, uuidInfoName, last, kind, near⟩
    obtain ⟨d, listed, described⟩ := discovered.last busid o last
    obtain ⟨_, kind', -⟩ := described.kind
    have type : d.type = t := (Prod.mk.inj (Option.some.inj (kind'.symm.trans kind))).1
    exact ⟨d, ⟨type ▸ listed, described.affinity ▸ near⟩, described.pciBusId⟩

end Discovery

/-- **Device discovery**, for names of at most nine digits: it ends well, and every PCI
device is listed once, as its last OS device has it. -/
theorem mDiscoverDevices_once (gpuSupport : Bool) (topo : IoTopology)
    (short : ∀ o ∈ topo.osdevs, (nums o.name).length ≤ 9) :
    ∃ devmap, mDiscoverDevices gpuSupport topo = .ok devmap ∧
      Discovered gpuSupport topo devmap := by
  obtain ⟨devmap, run⟩ := mDiscoverDevices_ok_iff.2 fun o member _ =>
    getDevIdFromName_short (short o member)
  exact ⟨devmap, run, mDiscoverDevices_ok run⟩

/-- **When discovery ends well**: the digits of every kept name make an `int`. -/
theorem mDiscoverDevices_succeeds_iff (gpuSupport : Bool) (topo : IoTopology) :
    (∃ devmap, mDiscoverDevices gpuSupport topo = .ok devmap) ↔
      ∀ o ∈ topo.osdevs, (keptBusId gpuSupport o).isSome →
        Nat.ofDigitChars 10 (nums o.name) 0 < 2 ^ 31 := by
  simp only [mDiscoverDevices_ok_iff, getDevIdFromName_ok_iff]

/-- A port of an adapter: its name, and what hwloc says of it. -/
def onBus (bus : UInt8) (osdevType : OsdevType) (subtype : Option String) (name : String) :
    OsDevice where
  osdevType := osdevType
  subtype := subtype
  name := name
  infos := []
  pciParent := some { domain := 0, bus := bus, dev := 0, func := 0 }

/-- No package above any device, one PU. -/
def reporting (osdevs : List OsDevice) : IoTopology where
  osdevs := osdevs
  packageAbove := fun _ => none
  allowedCpuset := {0}

/-- Three OS devices of one adapter, one of which is skipped: the last one kept is listed. -/
theorem mDiscoverDevices_once_threePorts :
    ∃ devmap, mDiscoverDevices true (reporting [onBus 3 .openfabrics none "mlx5_7",
        onBus 3 .network (some "BXI") "bxi4", onBus 3 .network none "eth0"]) = .ok devmap ∧
      ∃ d ∈ devmap .nic, d.name = "bxi4" ∧ d.id = 4 := by
  obtain ⟨devmap, run, discovered⟩ := mDiscoverDevices_once true (reporting
    [onBus 3 .openfabrics none "mlx5_7", onBus 3 .network (some "BXI") "bxi4",
      onBus 3 .network none "eth0"]) (by decide)
  obtain ⟨d, listed, described⟩ := discovered.last
    (pciBusId { domain := 0, bus := 3, dev := 0, func := 0 })
    (onBus 3 .network (some "BXI") "bxi4") rfl
  obtain ⟨uuidInfoName, kind, -⟩ := described.kind
  have type : d.type = .nic := (Prod.mk.inj (Option.some.inj kind)).1.symm
  have id : d.id = 4 := Except.ok.inj (described.id.symm.trans (by decide))
  exact ⟨devmap, run, d, type ▸ listed, described.name, id⟩

/-- Three OS devices of one adapter. -/
def threePorts : IoTopology := reporting [onBus 3 .openfabrics none "mlx5_7",
  onBus 3 .network (some "BXI") "bxi4", onBus 3 .network none "eth0"]

/-- They count as one NIC. -/
theorem Hwloc.topologyLoad_counts_threePorts :
    ∃ h', (Hwloc.onePackage 1 []).topologyLoad true threePorts = .ok h' ∧
      h'.getNobjsInCpuset .nic {0} = .ok 1 := by
  have short : ∀ o ∈ threePorts.osdevs, (nums o.name).length ≤ 9 := by decide
  obtain ⟨devmap, discovers⟩ := mDiscoverDevices_ok_iff.2 fun o member (_ : (keptBusId true o).isSome) =>
    getDevIdFromName_short (short o member)
  obtain ⟨h', run⟩ : ∃ h', (Hwloc.onePackage 1 []).topologyLoad true threePorts = .ok h' := by
    rw [Hwloc.topologyLoad]
    split
    · exact ⟨_, rfl⟩
    · rename_i fault failed
      rw [failed] at discovers
      cases discovers
  obtain ⟨ids, count, listed⟩ := Hwloc.topologyLoad_counts run (t := .nic) rfl {0}
  have only : ids = {pciBusId { domain := 0, bus := 3, dev := 0, func := 0 }} := by
    ext busid
    rw [listed, Finset.mem_singleton]
    constructor
    · rintro ⟨o, _, last, -⟩
      obtain ⟨member, kept⟩ := lastWith_some last
      simp only [threePorts, reporting, List.mem_cons, List.not_mem_nil, or_false] at member
      rcases member with rfl | rfl | rfl <;> cases kept
      · rfl
      · rfl
    · rintro rfl
      exact ⟨onBus 3 .network (some "BXI") "bxi4", _, rfl, rfl, by decide⟩
  refine ⟨h', run, ?_⟩
  rw [count, only, Finset.card_singleton]

/-- An RDMA device that is named after its GUID. -/
theorem mDiscoverDevices_guidName_throws :
    mDiscoverDevices true (reporting [onBus 3 .openfabrics none "rocex525400c0fe123455"]) =
      .error (.thrown .errInvldArg) := by
  rfl

end QuoVadis.Kernel
