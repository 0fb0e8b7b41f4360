/-
# Kernel.RmiServer -- the handlers, the dispatch, the main loop

A handler unpacks its variables, does its work, and packs the status of the work
and the result into a reply.  Three things can go wrong in the work: a return
code, which ends up in the reply; an exception, which nothing between the handler
and `main` catches; an abort.

The dispatch hands a pointer to the handler and not the size of the message, so
what `Bbuff.unpack` touches is up to the eight bytes it takes for a length.
-/
import QuoVadis.Kernel.Rmi
import QuoVadis.Kernel.Hwpool

namespace QuoVadis.Kernel.Rmi

open QuoVadis.Theory

set_option autoImplicit false

/-! ## Numbers for enumerators -/

/-- The enumerators of `qv_hw_obj_type_t`, in the order of their numbers. -/
def objTypes : List HwObjType :=
  [.machine, .package, .core, .pu, .l1cache, .l2cache, .l3cache, .l4cache, .l5cache, .numanode,
    .gpu, .nic, .last]

/-- The enumerator with the given number. -/
def objTypeOf (code : UInt32) : Option HwObjType := objTypes[code.toNat]?

def objTypeCode (t : HwObjType) : UInt32 := UInt32.ofNat t.ctorIdx

theorem objTypeOf_code (t : HwObjType) : objTypeOf (objTypeCode t) = some t := by
  cases t <;> rfl

theorem objTypeCode_inj {t t' : HwObjType} (same : objTypeCode t = objTypeCode t') : t = t' :=
  Option.some.inj (by rw [← objTypeOf_code, same, objTypeOf_code])

/-- A return code as the `int` of a reply. -/
def rcInt (rc : Rc) : Int32 := Int32.ofInt rc.code

/-- The bytes of a string. -/
def stdString (s : String) : StdString := s.toUTF8.data.toList

theorem fromUTF8_stdString (s : String) : String.fromUTF8? ⟨(stdString s).toArray⟩ = some s := by
  have bytes : (⟨(stdString s).toArray⟩ : ByteArray) = s.toUTF8 := by
    simp [stdString]
  have valid : s.toUTF8.IsValidUTF8 := s.isValidUTF8
  rw [bytes, String.fromUTF8?, dif_pos valid]
  rfl

/-! ## The pools of the replies -/

/-- A device as it is serialised. -/
def HwpoolDev.ofDev (dev : Kernel.HwpoolDev) : HwpoolDev Bitmap where
  mFlags := Int64.ofInt dev.flags
  mAffinity := dev.affinity
  mType := objTypeCode dev.type
  mId := Int32.ofInt dev.id
  mPciBusId := stdString dev.pciBusId
  mUuid := stdString dev.uuid

/-- A pool as it is serialised: its map has an entry for every type with devices. -/
def Hwpool.ofPool (p : Kernel.Hwpool) : Hwpool Bitmap where
  mCpu := ⟨Int64.ofInt p.cpu.flags, p.cpu.affinity⟩
  mDevMap :=
    { entries := (objTypes.filter fun t => p.devices t ≠ []).map fun t =>
        (objTypeCode t, (p.devices t).map fun dev => some (.ofDev dev))
      ascending := by
        rw [List.pairwise_map]
        apply List.Pairwise.filter
        show objTypes.Pairwise fun a b => objTypeCode a < objTypeCode b
        decide }

/-! ## The server -/

/-- One of the topologies of `qvi_hwlocs`. -/
structure Topology where
  hwloc : Hwloc
  /-- `hwloc_get_type_depth`. -/
  typeDepth : HwObjType → Int32
  /-- `hwloc_topology_get_topology_cpuset`. -/
  topologyCpuset : Bitmap
  /-- `hwloc_topology_get_complete_cpuset`. -/
  completeCpuset : Bitmap
  /-- `topology_file`. -/
  topologyFile : StdString

/-- `qvi_rmi_server`. -/
structure Server where
  /-- `QVI_0xVERSION`. -/
  version : UInt64
  full : Topology
  noSmt : Topology

/-- What hwloc and the operating system say about a binding request while a message is
handled, through one of the topologies. -/
structure Os where
  /-- `hwloc_get_proc_cpubind`. -/
  getProcCpubind : Topology → Int32 → Option Bitmap
  /-- `hwloc_set_proc_cpubind`. -/
  setProcCpubind : Topology → Int32 → Bitmap → Bool

/-- `QVI_HWLOC_TOPO_MASK`. -/
def topoMask : Int64 := 3

/-- `m_hwlocs.get`. -/
def Server.get (server : Server) (flags : Int64) : Qv Topology :=
  if flags &&& topoMask = 1 then .ok server.full
  else if flags &&& topoMask = 2 then .ok server.noSmt
  else .error .trap

/-- `task_get_cpubind`. -/
def Os.taskGetCpubind (os : Os) (topo : Topology) (who : Int32) : Qv Bitmap :=
  match os.getProcCpubind topo who with
  | some bitmap => .ok bitmap
  | none => .error (.ret .errHwloc)

/-- `task_set_cpubind_from_cpuset`. -/
def Os.taskSetCpubindFromCpuset (os : Os) (topo : Topology) (who : Int32) (cpuset : Bitmap) :
    Qv Unit :=
  if os.setProcCpubind topo who cpuset then .ok () else .error (.ret .errNotSupported)

namespace Topology

variable (topo : Topology)

/-- `obj_get_type`: the types hwloc knows. -/
def objGetType (type : UInt32) : Qv HwObjType :=
  match objTypeOf type with
  | some t => Hwloc.objTypeDepth t
  | none => .error (.thrown .errInternal)

/-- `obj_type_depth`. -/
def objTypeDepth (type : UInt32) : Qv Int32 := do
  let t ← objGetType type
  return topo.typeDepth t

/-- `get_nobjs_in_cpuset`. -/
def getNobjsInCpuset (targetObj : UInt32) (cpuset : Bitmap) : Qv UInt64 := do
  match objTypeOf targetObj with
  | some t => return UInt64.ofNat (← topo.hwloc.getNobjsInCpuset t cpuset)
  | none => .error (.thrown .errInternal)

/-- The loop of `get_cpuset_for_nobjs`: the result as far as it got, and the status. -/
def orObjs (cpuset : Bitmap) (depth : HwObjType) : Nat → Nat → Bitmap → Qv (Rc × Bitmap)
  | _, 0, result => .ok (.success, result)
  | i, n + 1, result =>
      match topo.hwloc.getObjInCpusetByDepth cpuset depth i with
      | .ok dobj => orObjs cpuset depth (i + 1) n (result ∪ dobj)
      | .error (.ret rc) => .ok (rc, result)
      | .error fault => .error fault

/-- `get_cpuset_for_nobjs`; `nobjs` is converted to an unsigned number. -/
def getCpusetForNobjs (cpuset : Bitmap) (objType : UInt32) (nobjs : Int32) : Qv (Rc × Bitmap) := do
  let objDepth ← objGetType objType
  topo.orObjs cpuset objDepth 0 nobjs.toUInt32.toNat ∅

/-- `devs.at`; the index is converted to an unsigned number. -/
def deviceAt (devs : List HwlocDevice) (i : Int32) : Qv HwlocDevice :=
  if i < 0 then .error (.thrown .err)
  else
    match devs[i.toNatClampNeg]? with
    | some dev => .ok dev
    | none => .error (.thrown .err)

/-- `get_devices_included_in_cpuset`; a type without a list has no devices. -/
def devicesIncluded (devObj : UInt32) (cpuset : Bitmap) : List HwlocDevice :=
  match objTypeOf devObj with
  | some t => topo.hwloc.getDevicesIncludedInCpuset t cpuset
  | none => []

/-- `get_device_id_in_cpuset`. -/
def getDeviceIdInCpuset (devObj : UInt32) (i : Int32) (cpuset : Bitmap) (devIdType : UInt32) :
    Qv StdString :=
  let devs := topo.devicesIncluded devObj cpuset
  match devIdType.toNat with
  | 0 => do return stdString (← deviceAt devs i).uuid
  | 1 => do return stdString (← deviceAt devs i).pciBusId
  | 2 => do return stdString (toString (← deviceAt devs i).id)
  | _ => .error (.ret .errInvldArg)

end Topology

/-! ## The handlers -/

/-- The return code of a call goes into the reply, with the result variable as it was
before the call; an exception and an abort go on. -/
def statusOf {α : Type} (unset : α) : Qv α → Qv (Rc × α)
  | .ok result => .ok (.success, result)
  | .error (.ret rc) => .ok (rc, unset)
  | .error fault => .error fault

namespace Server

variable (server : Server) (os : Os)

/-- `m_get_iscope_bitmap_user`. -/
def mGetIscopeBitmapUser (flags : Int64) : Qv Bitmap := do
  let topo ← server.get flags
  return topo.hwloc.allowedCpuset

/-- `m_get_iscope_bitmap_job`. -/
def mGetIscopeBitmapJob (flags : Int64) (who : List Int32) : Qv Bitmap := do
  let bitmaps ← who.mapM fun pid => do
    let topo ← server.get flags
    os.taskGetCpubind topo pid
  return opOr bitmaps

/-- `m_get_iscope_bitmap_proc`. -/
def mGetIscopeBitmapProc (flags : Int64) (who : List Int32) : Qv Bitmap :=
  match who with
  | [pid] => do
      let topo ← server.get flags
      os.taskGetCpubind topo pid
  | _ => .error .trap

/-- The work of `s_rpc_get_intrinsic_hwpool`. -/
def getIntrinsicHwpool (a : GetIntrinsicHwpoolArgs) : Qv Kernel.Hwpool := do
  let sbitmap ←
    match a.iscope.toNat with
    | 0 => .error (.ret .errNotSupported)
    | 1 => server.mGetIscopeBitmapUser a.hwlocFlags
    | 2 => server.mGetIscopeBitmapJob os a.hwlocFlags a.who
    | 3 => server.mGetIscopeBitmapProc os a.hwlocFlags a.who
    | _ => .error (.ret .errInvldArg)
  let topo ← server.get a.hwlocFlags
  return Kernel.Hwpool.populate topo.hwloc sbitmap

/-- The work of a handler on unpacked variables, and the reply it packs. -/
def serve : Request Bitmap → Qv (Reply Bitmap)
  | .serverShutdown => .error .trap
  | .hello a => do
      let topo ← server.get a.flags
      let rc := if server.version ≠ a.clientVersion then .errNotSupported else .success
      return .hello (rcInt rc) topo.topologyFile
  | .getCpubind a => do
      let topo ← server.get a.flags
      let (rc, bitmap) ← statusOf ∅ (os.taskGetCpubind topo a.who)
      return .getCpubind (rcInt rc) bitmap
  | .setCpubind a => do
      let topo ← server.get a.flags
      let (rc, _) ← statusOf () (os.taskSetCpubindFromCpuset topo a.who a.cpuset)
      return .setCpubind (rcInt rc)
  | .objTypeDepth a => do
      let topo ← server.get a.flags
      let (rc, depth) ← statusOf 0 (topo.objTypeDepth a.obj)
      return .objTypeDepth (rcInt rc) depth
  | .getNobjsInCpuset a => do
      let topo ← server.get a.flags
      let (rc, nobjs) ← statusOf 0 (topo.getNobjsInCpuset a.targetObj a.cpuset)
      return .getNobjsInCpuset (rcInt rc) nobjs
  | .getCpusetForNobjs a => do
      let topo ← server.get a.flags
      let (rc, result) ← topo.getCpusetForNobjs a.cpuset a.objType a.nobjs
      return .getCpusetForNobjs (rcInt rc) result
  | .getDeviceInCpuset a => do
      let topo ← server.get a.flags
      let (rc, devId) ← statusOf [] (topo.getDeviceIdInCpuset a.devObj a.devI a.cpuset a.devidType)
      return .getDeviceInCpuset (rcInt rc) devId
  | .getIntrinsicHwpool a => do
      let (rc, hwpool) ← statusOf default (server.getIntrinsicHwpool os a)
      return .getIntrinsicHwpool (rcInt rc) (.ofPool hwpool)

end Server

/-- What the dispatch of a message ends with: a reply is sent, the empty reply to a
shutdown request is sent, or nothing is sent and the return code says why. -/
inductive Answer where
  | replied (reply : Reply Bitmap)
  | shutdown
  | refused (rc : Rc)

/-- The dispatch of a message: the ranges of it that were read, and how it ended. -/
structure Dispatched where
  touched : List (Nat × Nat)
  result : Qv Answer

namespace Server

variable (server : Server) (os : Os) (limit : StringLimit)

/-- What the handlers have in common: unpack, and either work or reply with the code
of the failure and the result variable as it is. -/
def handler {L : Type} (fields : List (Field Bitmap L)) (call : L → Request Bitmap)
    (failed : Rc → Reply Bitmap) (m : Memory) (l : L) : Dispatched :=
  let u := Bbuff.unpack limit fields m headerSize l
  { touched := u.touched
    result :=
      if u.rc ≠ .success then .ok (.replied (failed u.rc))
      else (server.serve os (call u.locals)).map .replied }

/-- `s_rpc_invalid`. -/
def sRpcInvalid : Dispatched := ⟨[], .error .trap⟩

/-- `s_rpc_shutdown`. -/
def sRpcShutdown : Dispatched := ⟨[], .ok .shutdown⟩

/-- `s_rpc_hello`.  It goes on when its variables could not be unpacked. -/
def sRpcHello (m : Memory) (l : HelloArgs) : Dispatched :=
  let u := Bbuff.unpack limit (helloFields Bitmap) m headerSize l
  { touched := u.touched
    result := do
      let rpcrc := if u.rc ≠ .success then u.rc else .success
      let rpcrc := if server.version ≠ u.locals.clientVersion then .errNotSupported else rpcrc
      let topo ← server.get u.locals.flags
      return .replied (.hello (rcInt rpcrc) topo.topologyFile) }

/-- `s_rpc_get_cpubind`. -/
def sRpcGetCpubind : Memory → GetCpubindArgs → Dispatched :=
  server.handler os limit (getCpubindFields Bitmap) .getCpubind fun rc => .getCpubind (rcInt rc) ∅

/-- `s_rpc_set_cpubind`. -/
def sRpcSetCpubind : Memory → SetCpubindArgs Bitmap → Dispatched :=
  server.handler os limit setCpubindFields .setCpubind fun rc => .setCpubind (rcInt rc)

/-- `s_rpc_obj_type_depth`. -/
def sRpcObjTypeDepth : Memory → ObjTypeDepthArgs → Dispatched :=
  server.handler os limit (objTypeDepthFields Bitmap) .objTypeDepth
    fun rc => .objTypeDepth (rcInt rc) 0

/-- `s_rpc_get_nobjs_in_cpuset`. -/
def sRpcGetNobjsInCpuset : Memory → GetNobjsInCpusetArgs Bitmap → Dispatched :=
  server.handler os limit getNobjsInCpusetFields .getNobjsInCpuset
    fun rc => .getNobjsInCpuset (rcInt rc) 0

/-- `s_rpc_get_cpuset_for_nobjs`. -/
def sRpcGetCpusetForNobjs : Memory → GetCpusetForNobjsArgs Bitmap → Dispatched :=
  server.handler os limit getCpusetForNobjsFields .getCpusetForNobjs
    fun rc => .getCpusetForNobjs (rcInt rc) ∅

/-- `s_rpc_get_device_in_cpuset`. -/
def sRpcGetDeviceInCpuset : Memory → GetDeviceInCpusetArgs Bitmap → Dispatched :=
  server.handler os limit getDeviceInCpusetFields .getDeviceInCpuset
    fun rc => .getDeviceInCpuset (rcInt rc) []

/-- `s_rpc_get_intrinsic_hwpool`. -/
def sRpcGetIntrinsicHwpool : Memory → GetIntrinsicHwpoolArgs → Dispatched :=
  server.handler os limit (getIntrinsicHwpoolFields Bitmap) .getIntrinsicHwpool
    fun rc => .getIntrinsicHwpool (rcInt rc) (.ofPool default)

/-- The entry of `m_rpc_dispatch_table` for a function ID. -/
def dispatchTable (m : Memory) (l : Locals Bitmap) : Fid → Dispatched
  | .invalid => sRpcInvalid
  | .serverShutdown => sRpcShutdown
  | .hello => server.sRpcHello limit m l.hello
  | .getCpubind => server.sRpcGetCpubind os limit m l.getCpubind
  | .setCpubind => server.sRpcSetCpubind os limit m l.setCpubind
  | .objTypeDepth => server.sRpcObjTypeDepth os limit m l.objTypeDepth
  | .getNobjsInCpuset => server.sRpcGetNobjsInCpuset os limit m l.getNobjsInCpuset
  | .getCpusetForNobjs => server.sRpcGetCpusetForNobjs os limit m l.getCpusetForNobjs
  | .getDeviceInCpuset => server.sRpcGetDeviceInCpuset os limit m l.getDeviceInCpuset
  | .getIntrinsicHwpool => server.sRpcGetIntrinsicHwpool os limit m l.getIntrinsicHwpool

/-- `m_rpc_dispatch`. -/
def mRpcDispatch (m : Memory) (l : Locals Bitmap) : Dispatched :=
  match Fid.find (unpackMsgHeader m) with
  | none => ⟨[(0, headerSize)], .ok (.refused .errRpc)⟩
  | some fid =>
      let d := server.dispatchTable os limit m l fid
      { d with touched := (0, headerSize) :: d.touched }

end Server

/-! ## A small server -/

/-- A topology of two PUs with one GPU; the depth of a type is its number. -/
def twoPuTopology : Topology where
  hwloc := Hwloc.onePackage 2 ["0000:01:00.0"]
  typeDepth := fun t => Int32.ofNat t.ctorIdx
  topologyCpuset := {0, 1}
  completeCpuset := {0, 1}
  topologyFile := stdString "/tmp/topology.xml"

def twoPuServer : Server := ⟨0x000100, twoPuTopology, twoPuTopology⟩

end QuoVadis.Kernel.Rmi
