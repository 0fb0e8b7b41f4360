/-
# Kernel.Payloads -- the values of a split, packed into buffers

`Kernel.Coll` moves task IDs, cpusets, colours, pools and return codes as the values the
model computes with.  What `qvi_coll` packs are the C values for them: two of 32 bits, the
text of a bitmap, a pool with its map of device lists.  Here each kind has both directions.

* `Rmi.Hwpool.toPool_ofPool`: a pool whose numbers fit their C types is read back as it was;
* `Payload.unpack_txbuff`: so is every value, from the buffer it was packed into.
-/
import QuoVadis.Kernel.Coll
import QuoVadis.Kernel.RmiServer

namespace QuoVadis.Kernel

open QuoVadis.Theory

set_option autoImplicit false

/-! ## Numbers -/

/-- The integers of 32 and of 64 bits. -/
def IntFits (n : Int) : Prop := -2 ^ 31 ≤ n ∧ n < 2 ^ 31

def Int64Fits (n : Int) : Prop := -2 ^ 63 ≤ n ∧ n < 2 ^ 63

theorem IntFits.toInt {n : Int} (fits : IntFits n) : (Int32.ofInt n).toInt = n :=
  Int32.toInt_ofInt_of_le fits.1 fits.2

theorem Int64Fits.toInt {n : Int} (fits : Int64Fits n) : (Int64.ofInt n).toInt = n :=
  Int64.toInt_ofInt_of_le fits.1 fits.2

/-! ## Pools -/

namespace Rmi

/-- The devices and the pools whose numbers fit their C types. -/
structure DevFits (dev : Kernel.HwpoolDev) : Prop where
  flags : Int64Fits dev.flags
  id : IntFits dev.id

structure PoolFits (p : Kernel.Hwpool) : Prop where
  flags : Int64Fits p.cpu.flags
  devices : ∀ t, ∀ dev ∈ p.devices t, DevFits dev

/-- The text in a string. -/
def ofStdString (s : StdString) : Option String := String.fromUTF8? ⟨s.toArray⟩

/-- A device, read back. -/
def HwpoolDev.toDev (dev : HwpoolDev Bitmap) : Option Kernel.HwpoolDev := do
  let type ← objTypeOf dev.mType
  let pciBusId ← ofStdString dev.mPciBusId
  let uuid ← ofStdString dev.mUuid
  return ⟨⟨dev.mFlags.toInt, dev.mAffinity⟩, type, dev.mId.toInt, pciBusId, uuid⟩

theorem HwpoolDev.toDev_ofDev {dev : Kernel.HwpoolDev} (fits : DevFits dev) :
    (HwpoolDev.ofDev dev).toDev = some dev := by
  simp only [toDev, ofDev, objTypeOf_code, ofStdString, fromUTF8_stdString, fits.flags.toInt, fits.id.toInt,
    Option.bind_eq_bind, Option.bind_some, Option.pure_def]

/-- The devices of a type, read back. -/
def Hwpool.toDevices (p : Hwpool Bitmap) (t : HwObjType) : Option (List Kernel.HwpoolDev) :=
  match p.mDevMap.entries.lookup (objTypeCode t) with
  | some devs => devs.mapM fun dev => dev.bind HwpoolDev.toDev
  | none => some []

/-- What holds of the devices of a type in a pool. -/
def WellFormed (t : HwObjType) (devs : List Kernel.HwpoolDev) : Prop :=
  (∀ dev ∈ devs, dev.type = t) ∧ (devs.Pairwise fun a b => a.pciBusId ≠ b.pciBusId) ∧
    devs.Pairwise fun a b => a.id ≤ b.id

instance (t : HwObjType) (devs : List Kernel.HwpoolDev) : Decidable (WellFormed t devs) :=
  inferInstanceAs (Decidable (_ ∧ _ ∧ _))

theorem mem_objTypes (t : HwObjType) : t ∈ objTypes := by
  cases t <;> decide

/-- A pool, read back.  What was not a pool before it was packed is not one afterwards. -/
def Hwpool.toPool (p : Hwpool Bitmap) : Option Kernel.Hwpool :=
  if good : ∀ t ∈ objTypes, (p.toDevices t).any fun devs => WellFormed t devs then
    have wellFormed : ∀ t, WellFormed t ((p.toDevices t).getD []) := by
      intro t
      obtain ⟨devs, read, fine⟩ := (Option.any_eq_true _ _).1 (good t (mem_objTypes t))
      rw [read]
      exact of_decide_eq_true fine
    some
      { cpu := ⟨p.mCpu.mFlags.toInt, p.mCpu.mAffinity⟩
        devMap := fun t => (p.toDevices t).getD []
        typed := fun t => (wellFormed t).1
        distinct := fun t => (wellFormed t).2.1
        sorted := fun t => (wellFormed t).2.2 }
  else none

/-- The entry of a key in a table of some of the keys. -/
theorem lookup_table {κ ν ω : Type} [DecidableEq κ] [DecidableEq ω] {key : κ → ω} (value : κ → ν)
    (keep : κ → Bool) (inj : ∀ a b, key a = key b → a = b) (x : κ) (l : List κ) :
    ((l.filter keep).map fun a => (key a, value a)).lookup (key x) =
      if x ∈ l ∧ keep x then some (value x) else none := by
  induction l with
  | nil => rfl
  | cons a l ih =>
      by_cases same : x = a
      · subst same
        by_cases kept : keep x
        · simp [kept]
        · rw [List.filter_cons_of_neg kept, ih, if_neg fun both => kept both.2,
            if_neg fun both => kept both.2]
      · have apart : (key x == key a) = false := beq_eq_false_iff_ne.2 fun eq => same (inj x a eq)
        have member : x ∈ a :: l ↔ x ∈ l := by simp [same]
        simp only [member, ← ih]
        by_cases kept : keep a
        · rw [List.filter_cons_of_pos kept, List.map_cons, List.lookup_cons, apart]
        · rw [List.filter_cons_of_neg kept]

/-- Reading back element by element. -/
theorem mapM_map_some {κ ν : Type} {f : κ → ν} {g : ν → Option κ} {l : List κ}
    (back : ∀ a ∈ l, g (f a) = some a) : (l.map f).mapM g = some l := by
  induction l with
  | nil => rfl
  | cons a l ih =>
      rw [List.map_cons, List.mapM_cons, back a List.mem_cons_self,
        ih fun b member => back b (List.mem_cons_of_mem a member)]
      rfl

theorem Hwpool.toDevices_ofPool {p : Kernel.Hwpool} (fits : PoolFits p) (t : HwObjType) :
    (Hwpool.ofPool p).toDevices t = some (p.devices t) := by
  have found : (Hwpool.ofPool p).mDevMap.entries.lookup (objTypeCode t) = _ :=
    lookup_table (fun t => (p.devices t).map fun dev => some (HwpoolDev.ofDev dev))
      (fun t => decide (p.devices t ≠ [])) (fun _ _ => objTypeCode_inj) t objTypes
  have read : ((p.devices t).map fun dev => some (HwpoolDev.ofDev dev)).mapM
      (fun dev => dev.bind HwpoolDev.toDev) = some (p.devices t) :=
    mapM_map_some fun dev member => HwpoolDev.toDev_ofDev (fits.devices t dev member)
  rw [toDevices, found]
  by_cases none_ : p.devices t = []
  · simp [none_]
  · simp only [mem_objTypes, none_, ne_eq, not_false_eq_true, decide_true, and_true, if_true]
    exact read

/-- **A pool is read back as it was.** -/
theorem Hwpool.toPool_ofPool {p : Kernel.Hwpool} (fits : PoolFits p) :
    (Hwpool.ofPool p).toPool = some p := by
  have devices := Hwpool.toDevices_ofPool fits
  have good : ∀ t ∈ objTypes, ((Hwpool.ofPool p).toDevices t).any fun devs => WellFormed t devs := by
    intro t _
    rw [devices, Option.any_some]
    exact decide_eq_true ⟨p.typed t, p.distinct t, p.sorted t⟩
  rw [toPool, dif_pos good]
  apply congrArg some
  apply Kernel.Hwpool.ext
  · show Kernel.HwpoolRes.mk _ _ = p.cpu
    simp only [ofPool, fits.flags.toInt]
  · funext t
    show ((Hwpool.ofPool p).toDevices t).getD [] = _
    rw [devices]
    rfl

/-! ## Pools that keep fitting -/

theorem PoolFits.ofCpuset (cpuset : Bitmap) : PoolFits (.ofCpuset cpuset) :=
  ⟨⟨by show -2 ^ 63 ≤ (0 : Int); decide, by show (0 : Int) < 2 ^ 63; decide⟩,
    fun _ _ member => absurd member List.not_mem_nil⟩

theorem PoolFits.addDevice {p : Kernel.Hwpool} {dev : Kernel.HwpoolDev} (fits : PoolFits p)
    (devFits : DevFits dev) : PoolFits (p.addDevice dev) := by
  constructor
  · have same : (p.addDevice dev).cpu = p.cpu := by
      unfold Kernel.Hwpool.addDevice
      split <;> rfl
    rw [same]
    exact fits.flags
  · intro t d member
    rcases Kernel.Hwpool.mem_addDevice.1 member with old | ⟨-, rfl, -⟩
    · exact fits.devices t d old
    · exact devFits

theorem PoolFits.addDevices {devs : List Kernel.HwpoolDev} (all : ∀ dev ∈ devs, DevFits dev) :
    ∀ {p : Kernel.Hwpool}, PoolFits p → PoolFits (p.addDevices devs) := by
  induction devs with
  | nil => exact fun fits => fits
  | cons dev devs ih =>
      intro p fits
      exact ih (fun d member => all d (List.mem_cons_of_mem dev member))
        (fits.addDevice (all dev List.mem_cons_self))

theorem PoolFits.setUnion {pools : List Kernel.Hwpool} (all : ∀ p ∈ pools, PoolFits p) :
    PoolFits (.setUnion pools) := by
  rw [Kernel.Hwpool.setUnion_eq]
  refine .addDevices (fun dev member => ?_) (.ofCpuset _)
  obtain ⟨-, p, inPools, found⟩ := Kernel.Hwpool.mem_offered.1 member
  exact (all p inPools).devices _ dev found

/-- A pool in a list is replaced by one that fits. -/
theorem poolsFit_set {pools : List Kernel.Hwpool} {p : Kernel.Hwpool} {i : Nat}
    (all : ∀ p ∈ pools, PoolFits p) (fits : PoolFits p) : ∀ q ∈ pools.set i p, PoolFits q := by
  intro q member
  rcases List.mem_or_eq_of_mem_set member with old | rfl
  · exact all q old
  · exact fits

/-- An entry of the task map. -/
theorem poolsFit_assignTask {cpusets : List Bitmap} {entry : Nat × Std.ExtTreeSet Nat}
    {st st' : List Kernel.Hwpool × List Int} (fits : ∀ p ∈ st.1, PoolFits p)
    (run : Hwsplit.assignTask cpusets st entry = .ok st') : ∀ p ∈ st'.1, PoolFits p := by
  refine foldlM_inv (P := fun st : List Kernel.Hwpool × List Int => ∀ p ∈ st.1, PoolFits p)
    (fun st cpuseti st' fits turn => ?_) fits run
  split at turn
  · cases turn
  · split at turn
    · cases turn
      exact poolsFit_set fits (.ofCpuset _)
    · cases turn

/-- A device type of the device stage. -/
theorem poolsFit_assignDevices {base : Kernel.Hwpool} {affinities : List Bitmap} {t : HwObjType}
    {pools pools' : List Kernel.Hwpool} (baseFits : PoolFits base) (fits : ∀ p ∈ pools, PoolFits p)
    (run : Hwsplit.assignDevices base affinities pools t = .ok pools') : ∀ p ∈ pools', PoolFits p := by
  unfold Hwsplit.assignDevices at run
  dsimp only at run
  split at run
  · cases run
    exact fits
  · obtain ⟨devAffinities, -, run⟩ := bind_ok run
    obtain ⟨devs2hres, -, run⟩ := bind_ok run
    refine foldlM_inv (P := fun pools : List Kernel.Hwpool => ∀ p ∈ pools, PoolFits p)
      (fun pools entry pools' fits turn => ?_) fits run
    refine foldlM_inv (P := fun pools : List Kernel.Hwpool => ∀ p ∈ pools, PoolFits p)
      (fun pools pooli pools' fits turn => ?_) fits turn
    split at turn
    · rename_i dev pool isDev isPool
      cases turn
      have devFits : DevFits dev := baseFits.devices t dev (List.mem_of_getElem? isDev)
      exact poolsFit_set fits ((fits pool (List.mem_of_getElem? isPool)).addDevice devFits)
    · cases turn

/-- **A split of pools that fit makes pools that fit.** -/
theorem poolsFit_mSplit {hs hs' : Hwsplit} (base : PoolFits hs.baseHwpool)
    (pools : ∀ p ∈ hs.hwpools, PoolFits p) (run : hs.mSplit = .ok hs') :
    ∀ p ∈ hs'.hwpools, PoolFits p := by
  obtain ⟨cpusets, -, run⟩ := bind_ok run
  obtain ⟨⟨colors, map⟩, -, run⟩ := bind_ok run
  obtain ⟨⟨assigned, colors'⟩, tasks, run⟩ := bind_ok run
  obtain ⟨after, devices, done⟩ := bind_ok run
  cases done
  have hosts : ∀ p ∈ assigned, PoolFits p :=
    foldlM_inv (P := fun st : List Kernel.Hwpool × List Int => ∀ p ∈ st.1, PoolFits p)
      (fun st entry st' fits turn => poolsFit_assignTask fits turn) pools tasks
  exact foldlM_inv (P := fun pools : List Kernel.Hwpool => ∀ p ∈ pools, PoolFits p)
    (fun pools t pools' fits turn => poolsFit_assignDevices base fits turn) hosts devices

end Rmi

/-! ## Return codes -/

/-- The return codes in the order of their numbers. -/
def rcs : List Rc :=
  [.success, .successShutdown, .err, .errEnv, .errInternal, .errFileIo, .errSys, .errOor,
    .errInvldArg, .errHwloc, .errMpi, .errRpc, .errNotSupported, .errNotFound, .errSplit,
    .resUnavailable]

/-- The return code with the given number. -/
def rcOf (code : Int32) : Option Rc := if code < 0 then none else rcs[code.toNatClampNeg]?

theorem rcOf_rcInt (rc : Rc) : rcOf (Rmi.rcInt rc) = some rc := by
  cases rc <;> rfl

/-! ## The values of a split -/

open Rmi (rcInt PoolFits)

namespace Payload

/-- The C type of a kind of values. -/
abbrev CVal : Payload → Type
  | .tid | .color | .rc => Int32
  | .affinity => Bitmap
  | .hwpool => Rmi.Hwpool Bitmap

instance : (type : Payload) → Serializable (Rmi.HwpoolDev Bitmap) type.CVal
  | .tid | .color | .rc => inferInstanceAs (Serializable _ Int32)
  | .affinity => inferInstanceAs (Serializable _ Bitmap)
  | .hwpool => inferInstanceAs (Serializable _ (Rmi.Hwpool Bitmap))

instance : (type : Payload) → Inhabited type.CVal
  | .tid | .color | .rc => inferInstanceAs (Inhabited Int32)
  | .affinity => inferInstanceAs (Inhabited Bitmap)
  | .hwpool => inferInstanceAs (Inhabited (Rmi.Hwpool Bitmap))

/-- A value as the C type has it. -/
def toC : (type : Payload) → type.Val → type.CVal
  | .tid, id => Int32.ofNat id
  | .affinity, bitmap => bitmap
  | .color, n => Int32.ofInt n
  | .hwpool, pool => .ofPool pool
  | .rc, code => rcInt code

/-- The value that a C value stands for. -/
def ofC : (type : Payload) → type.CVal → Option type.Val
  | .tid, id => some id.toNatClampNeg
  | .affinity, bitmap => some bitmap
  | .color, n => some n.toInt
  | .hwpool, pool => pool.toPool
  | .rc, code => rcOf code

/-- The C type has room for a value. -/
def HasRoom : (type : Payload) → type.Val → Prop
  | .tid, id => id < 2 ^ 31
  | .color, n => IntFits n
  | .hwpool, pool => PoolFits pool
  | .affinity, _ | .rc, _ => True

theorem ofC_toC : ∀ (type : Payload) {value : type.Val}, type.HasRoom value →
    type.ofC (type.toC value) = some value
  | .tid, _, room => congrArg some (Int32.toNatClampNeg_ofNat_of_lt room)
  | .affinity, _, _ => rfl
  | .color, _, room => congrArg some (IntFits.toInt room)
  | .hwpool, _, room => Rmi.Hwpool.toPool_ofPool room
  | .rc, code, _ => rcOf_rcInt code

variable (type : Payload) (limit : StringLimit)

/-- A buffer with one value in it. -/
def txbuff (value : type.Val) : List UInt8 := QviColl.txbuff (Rmi.HwpoolDev Bitmap) (type.toC value)

/-- `unpack` of one value from the start of a buffer. -/
def unpackValue (m : Memory) : Qv type.Val := do
  let value ← QviColl.unpackValue (Rmi.HwpoolDev Bitmap) limit m
  match type.ofC value with
  | some value => .ok value
  | none => .error .trap

variable {limit}

/-- **A value is unpacked from the buffer it was packed into.** -/
theorem unpackValue_txbuff {value : type.Val} (room : type.HasRoom value) (after : Nat → UInt8)
    (small : (type.txbuff value).length < 2 ^ 31) :
    type.unpackValue limit ⟨type.txbuff value, after⟩ = .ok value := by
  have read : QviColl.unpackValue (Rmi.HwpoolDev Bitmap) limit ⟨type.txbuff value, after⟩ =
      .ok (type.toC value) :=
    QviColl.unpackValue_txbuff (Rmi.HwpoolDev Bitmap) (type.toC value) after small
  simp only [unpackValue, read, bind, Except.bind, type.ofC_toC room]

/-- Buffers that are each read as the value that was sent. -/
theorem mapM_unpackValue {beyond : Nat → Nat → UInt8} {values : List type.Val}
    (room : ∀ value ∈ values, type.HasRoom value)
    (small : totalSize (values.map type.txbuff) < 2 ^ 31) :
    ∀ k, ((values.map type.txbuff).zipIdx k).mapM
      (fun rx => type.unpackValue limit ⟨rx.1, beyond rx.2⟩) = (.ok values : Qv (List type.Val)) := by
  induction values with
  | nil => exact fun k => rfl
  | cons value values ih =>
      intro k
      rw [List.map_cons, totalSize_cons] at small
      rw [List.map_cons, List.zipIdx_cons, List.mapM_cons,
        type.unpackValue_txbuff (room value List.mem_cons_self) _ (by omega),
        ih (fun value member => room value (List.mem_cons_of_mem _ member)) (by omega)]
      rfl

/-! ## Values that can be sent -/

/-- The values have room in their C type, and their buffers are together shorter than
`2 ^ 31` bytes. -/
structure Sendable (values : List type.Val) : Prop where
  room : ∀ value ∈ values, type.HasRoom value
  small : totalSize (values.map type.txbuff) < 2 ^ 31

/-- Values whose buffers all take up `size` bytes. -/
theorem totalSize_const {size : Nat} {values : List type.Val}
    (each : ∀ value ∈ values, (type.txbuff value).length = size) :
    totalSize (values.map type.txbuff) = size * values.length := by
  induction values with
  | nil => rfl
  | cons value values ih =>
      rw [List.map_cons, totalSize_cons, each value List.mem_cons_self,
        ih fun value member => each value (List.mem_cons_of_mem _ member), List.length_cons,
        Nat.mul_succ, Nat.add_comm]

/-- A number of 32 bits is four bytes, behind a length of eight. -/
theorem length_txbuff_int32 (n : Int32) : (QviColl.txbuff (Rmi.HwpoolDev Bitmap) n).length = 12 := by
  simp only [QviColl.txbuff, Bbuff.pack, archives, Encoder.all, save, Serializable.codec, fixedWidth,
    List.length_append, length_toBytes, List.append_nil]

theorem sendable_color {colors : List Int} (room : ∀ c ∈ colors, IntFits c)
    (few : 12 * colors.length < 2 ^ 31) : color.Sendable colors :=
  ⟨room, by rwa [color.totalSize_const fun c _ => length_txbuff_int32 (Int32.ofInt c)]⟩

theorem sendable_rc {codes : List Rc} (few : 12 * codes.length < 2 ^ 31) : rc.Sendable codes :=
  ⟨fun _ _ => trivial, by rwa [rc.totalSize_const fun code _ => length_txbuff_int32 (rcInt code)]⟩

/-- Colours that can be sent are not too many. -/
theorem few_of_sendable_color {colors : List Int} (sendable : color.Sendable colors) :
    12 * colors.length < 2 ^ 31 := by
  rw [← color.totalSize_const fun c _ => length_txbuff_int32 (Int32.ofInt c)]
  exact sendable.small

end Payload

end QuoVadis.Kernel
