/-
# Kernel.Rmi -- the messages between clients and the server

A message is the function ID and a packed archive.  The client methods list the
arguments they send, the handlers list the variables they unpack, and the two
lists are written down in two places; the same holds for the replies, the other
way round.  Nothing on the wire says which type a field has.

Here the lists are kept as the source has them: `Request.args` by client method,
`helloFields` and its like by handler, `Reply.args` by handler and
`clientDecode` by client method.  `rpc_agrees` checks them against each other for
all argument values.

`β` is the type of the bitmaps.  A value that no message carries has no place
here: `qvi_hwpool_dev` below is the device as it is serialised, with the widths
of its fields.
-/
import QuoVadis.Kernel.Bbuff

namespace QuoVadis.Kernel.Rmi

open QuoVadis.Theory

set_option autoImplicit false
set_option linter.unusedSectionVars false

variable {β δ : Type}

/-! ## Hardware pools -/

/-- `qvi_hwpool_res` and `qvi_hwpool_cpu`. -/
structure HwpoolRes (β : Type) where
  mFlags : Int64
  mAffinity : β
  deriving DecidableEq

/-- `qvi_hwpool_dev`. -/
structure HwpoolDev (β : Type) where
  mFlags : Int64
  mAffinity : β
  mType : UInt32
  mId : Int32
  mPciBusId : StdString
  mUuid : StdString
  deriving DecidableEq

/-- `qvi_hwpool`. -/
structure Hwpool (β : Type) where
  mCpu : HwpoolRes β
  mDevMap : StdMap UInt32 (List (SharedPtr (HwpoolDev β)))

/-- The default constructor. -/
instance [Inhabited β] : Inhabited (Hwpool β) := ⟨⟨0, default⟩, ⟨[], List.Pairwise.nil⟩⟩

instance (priority := low) bitmap [BitmapText β] : Serializable δ β where
  codec := bitmapCodec

variable [BitmapText β]

/-- `qvi_hwpool_res::serialize`. -/
instance : Serializable δ (HwpoolRes β) where
  codec := (Serializable.codec : Format δ (Int64 × β)).via
    (fun res => (res.mFlags, res.mAffinity))
    (fun (flags, affinity) => .ok ⟨flags, affinity⟩) fun _ => rfl

/-- `qvi_hwpool_dev::serialize`. -/
instance : Serializable δ (HwpoolDev β) where
  codec := (Serializable.codec : Format δ (Int64 × β × UInt32 × Int32 × StdString × StdString)).via
    (fun dev => (dev.mFlags, dev.mAffinity, dev.mType, dev.mId, dev.mPciBusId, dev.mUuid))
    (fun (flags, affinity, type, id, busId, uuid) => .ok ⟨flags, affinity, type, id, busId, uuid⟩)
    fun _ => rfl

/-- `qvi_hwpool::serialize`. -/
instance : Serializable (HwpoolDev β) (Hwpool β) where
  codec := (Serializable.codec :
      Format (HwpoolDev β) (HwpoolRes β × StdMap UInt32 (List (SharedPtr (HwpoolDev β))))).via
    (fun pool => (pool.mCpu, pool.mDevMap)) (fun (cpu, devMap) => .ok ⟨cpu, devMap⟩) fun _ => rfl

/-! ## Function IDs -/

/-- `qvi_rmi_rpc_fid_t`. -/
inductive Fid where
  | invalid
  | serverShutdown
  | hello
  | getCpubind
  | setCpubind
  | objTypeDepth
  | getNobjsInCpuset
  | getCpusetForNobjs
  | getDeviceInCpuset
  | getIntrinsicHwpool
  deriving DecidableEq, Repr

def Fid.code (fid : Fid) : Nat := fid.ctorIdx

/-- `m_rpc_dispatch_table.find`. -/
def Fid.find : Nat → Option Fid
  | 0 => some .invalid
  | 1 => some .serverShutdown
  | 2 => some .hello
  | 3 => some .getCpubind
  | 4 => some .setCpubind
  | 5 => some .objTypeDepth
  | 6 => some .getNobjsInCpuset
  | 7 => some .getCpusetForNobjs
  | 8 => some .getDeviceInCpuset
  | 9 => some .getIntrinsicHwpool
  | _ => none

theorem Fid.find_code (fid : Fid) : Fid.find fid.code = some fid := by
  cases fid <;> rfl

theorem Fid.code_lt (fid : Fid) : fid.code < 256 ^ 4 := by
  cases fid <;> decide

/-- `sizeof(qvi_rmi_msg_header)`. -/
def headerSize : Nat := 4

/-- `unpack_msg_header`: the function ID, as a number. -/
def unpackMsgHeader (m : Memory) : Nat := ofBytes (m.read 0 headerSize)

/-- `rpc_pack`. -/
def rpcPack (fid : Fid) (args : List (Encoder UInt8 (OutArchive (HwpoolDev β)))) : List UInt8 :=
  toBytes headerSize fid.code ++ Bbuff.pack args

/-! ## Requests -/

structure HelloArgs where
  clientVersion : UInt64
  flags : Int64
  whoisit : Int32
  deriving DecidableEq, Inhabited

structure GetCpubindArgs where
  flags : Int64
  who : Int32
  deriving DecidableEq, Inhabited

structure SetCpubindArgs (β : Type) where
  flags : Int64
  who : Int32
  cpuset : β
  deriving DecidableEq, Inhabited

structure ObjTypeDepthArgs where
  flags : Int64
  obj : UInt32
  deriving DecidableEq, Inhabited

structure GetNobjsInCpusetArgs (β : Type) where
  flags : Int64
  targetObj : UInt32
  cpuset : β
  deriving DecidableEq, Inhabited

structure GetCpusetForNobjsArgs (β : Type) where
  flags : Int64
  cpuset : β
  objType : UInt32
  nobjs : Int32
  deriving DecidableEq, Inhabited

structure GetDeviceInCpusetArgs (β : Type) where
  flags : Int64
  devObj : UInt32
  devI : Int32
  cpuset : β
  devidType : UInt32
  deriving DecidableEq, Inhabited

structure GetIntrinsicHwpoolArgs where
  hwlocFlags : Int64
  who : List Int32
  iscope : UInt32
  scopeFlags : Int64
  deriving DecidableEq, Inhabited

/-- A call of a client method, with the values it sends. -/
inductive Request (β : Type) where
  | serverShutdown
  | hello (args : HelloArgs)
  | getCpubind (args : GetCpubindArgs)
  | setCpubind (args : SetCpubindArgs β)
  | objTypeDepth (args : ObjTypeDepthArgs)
  | getNobjsInCpuset (args : GetNobjsInCpusetArgs β)
  | getCpusetForNobjs (args : GetCpusetForNobjsArgs β)
  | getDeviceInCpuset (args : GetDeviceInCpusetArgs β)
  | getIntrinsicHwpool (args : GetIntrinsicHwpoolArgs)

abbrev Arg (β : Type) := Encoder UInt8 (OutArchive (HwpoolDev β))

abbrev Field (β L : Type) := Decoder UInt8 (InArchive (HwpoolDev β)) ArchiveError (L → L)

namespace Request

/-- The function ID a client method puts into the header. -/
def fid : Request β → Fid
  | serverShutdown => .serverShutdown
  | hello _ => .hello
  | getCpubind _ => .getCpubind
  | setCpubind _ => .setCpubind
  | objTypeDepth _ => .objTypeDepth
  | getNobjsInCpuset _ => .getNobjsInCpuset
  | getCpusetForNobjs _ => .getCpusetForNobjs
  | getDeviceInCpuset _ => .getDeviceInCpuset
  | getIntrinsicHwpool _ => .getIntrinsicHwpool

/-- The arguments of the client methods' `rpc_req`. -/
def args : Request β → List (Arg β)
  -- `send_shutdown_message`
  | serverShutdown => []
  -- `m_hello`
  | hello a => [save a.clientVersion, save a.flags, save a.whoisit]
  -- `get_cpubind`
  | getCpubind a => [save a.flags, save a.who]
  -- `set_cpubind`
  | setCpubind a => [save a.flags, save a.who, save a.cpuset]
  -- `get_obj_depth`
  | objTypeDepth a => [save a.flags, save a.obj]
  -- `get_nobjs_in_cpuset`
  | getNobjsInCpuset a => [save a.flags, save a.targetObj, save a.cpuset]
  -- `get_cpuset_for_nobjs`
  | getCpusetForNobjs a => [save a.flags, save a.cpuset, save a.objType, save a.nobjs]
  -- `get_device_in_cpuset`
  | getDeviceInCpuset a => [save a.flags, save a.devObj, save a.devI, save a.cpuset, save a.devidType]
  -- `get_intrinsic_hwpool`
  | getIntrinsicHwpool a => [save a.hwlocFlags, save a.who, save a.iscope, save a.scopeFlags]

/-- `rpc_req`: what is sent. -/
def message (request : Request β) : List UInt8 := rpcPack request.fid request.args

end Request

/-! ## The variables of the handlers -/

/-- `s_rpc_hello`. -/
def helloFields (β : Type) : List (Field β HelloArgs) :=
  [into fun clientVersion l => { l with clientVersion },
   into fun flags l => { l with flags },
   into fun whoisit l => { l with whoisit }]

/-- `s_rpc_get_cpubind`. -/
def getCpubindFields (β : Type) : List (Field β GetCpubindArgs) :=
  [into fun flags l => { l with flags },
   into fun who l => { l with who }]

/-- `s_rpc_set_cpubind`. -/
def setCpubindFields : List (Field β (SetCpubindArgs β)) :=
  [into fun flags l => { l with flags },
   into fun who l => { l with who },
   into fun cpuset l => { l with cpuset }]

/-- `s_rpc_obj_type_depth`. -/
def objTypeDepthFields (β : Type) : List (Field β ObjTypeDepthArgs) :=
  [into fun flags l => { l with flags },
   into fun obj l => { l with obj }]

/-- `s_rpc_get_nobjs_in_cpuset`. -/
def getNobjsInCpusetFields : List (Field β (GetNobjsInCpusetArgs β)) :=
  [into fun flags l => { l with flags },
   into fun targetObj l => { l with targetObj },
   into fun cpuset l => { l with cpuset }]

/-- `s_rpc_get_cpuset_for_nobjs`. -/
def getCpusetForNobjsFields : List (Field β (GetCpusetForNobjsArgs β)) :=
  [into fun flags l => { l with flags },
   into fun cpuset l => { l with cpuset },
   into fun objType l => { l with objType },
   into fun nobjs l => { l with nobjs }]

/-- `s_rpc_get_device_in_cpuset`. -/
def getDeviceInCpusetFields : List (Field β (GetDeviceInCpusetArgs β)) :=
  [into fun flags l => { l with flags },
   into fun devObj l => { l with devObj },
   into fun devI l => { l with devI },
   into fun cpuset l => { l with cpuset },
   into fun devidType l => { l with devidType }]

/-- `s_rpc_get_intrinsic_hwpool`. -/
def getIntrinsicHwpoolFields (β : Type) : List (Field β GetIntrinsicHwpoolArgs) :=
  [into fun hwlocFlags l => { l with hwlocFlags },
   into fun who l => { l with who },
   into fun iscope l => { l with iscope },
   into fun scopeFlags l => { l with scopeFlags }]

/-- What is in the variables of the handlers before they are unpacked. -/
structure Locals (β : Type) where
  hello : HelloArgs
  getCpubind : GetCpubindArgs
  setCpubind : SetCpubindArgs β
  objTypeDepth : ObjTypeDepthArgs
  getNobjsInCpuset : GetNobjsInCpusetArgs β
  getCpusetForNobjs : GetCpusetForNobjsArgs β
  getDeviceInCpuset : GetDeviceInCpusetArgs β
  getIntrinsicHwpool : GetIntrinsicHwpoolArgs
  deriving Inhabited

section Decode

variable (limit : StringLimit)

/-- A call whose variables were all unpacked. -/
def decoded {L ρ : Type} (call : L → ρ) (u : Bbuff.Unpacked L) : Qv ρ :=
  if u.rc ≠ .success then .error (.ret u.rc) else .ok (call u.locals)

/-- The header and the body of a message as the server takes them apart: the function
ID selects the handler, and the handler its variables. -/
def serverDecode (m : Memory) (l : Locals β) : Qv (Request β) :=
  match Fid.find (unpackMsgHeader m) with
  | none => .error (.ret .errRpc)
  | some .invalid => .error .trap
  | some .serverShutdown => .ok .serverShutdown
  | some .hello => decoded .hello (Bbuff.unpack limit (helloFields β) m headerSize l.hello)
  | some .getCpubind =>
      decoded .getCpubind (Bbuff.unpack limit (getCpubindFields β) m headerSize l.getCpubind)
  | some .setCpubind =>
      decoded .setCpubind (Bbuff.unpack limit setCpubindFields m headerSize l.setCpubind)
  | some .objTypeDepth =>
      decoded .objTypeDepth (Bbuff.unpack limit (objTypeDepthFields β) m headerSize l.objTypeDepth)
  | some .getNobjsInCpuset =>
      decoded .getNobjsInCpuset
        (Bbuff.unpack limit getNobjsInCpusetFields m headerSize l.getNobjsInCpuset)
  | some .getCpusetForNobjs =>
      decoded .getCpusetForNobjs
        (Bbuff.unpack limit getCpusetForNobjsFields m headerSize l.getCpusetForNobjs)
  | some .getDeviceInCpuset =>
      decoded .getDeviceInCpuset
        (Bbuff.unpack limit getDeviceInCpusetFields m headerSize l.getDeviceInCpuset)
  | some .getIntrinsicHwpool =>
      decoded .getIntrinsicHwpool
        (Bbuff.unpack limit (getIntrinsicHwpoolFields β) m headerSize l.getIntrinsicHwpool)

/-! ## Replies -/

/-- What a handler answers: the status of the operation and its result.  Nobody
reads the reply to a shutdown request. -/
inductive Reply (β : Type) where
  | hello (rpcrc : Int32) (hwtopoPath : StdString)
  | getCpubind (rpcrc : Int32) (cpuset : β)
  | setCpubind (rpcrc : Int32)
  | objTypeDepth (rpcrc depth : Int32)
  | getNobjsInCpuset (rpcrc : Int32) (nobjs : UInt64)
  | getCpusetForNobjs (rpcrc : Int32) (result : β)
  | getDeviceInCpuset (rpcrc : Int32) (devId : StdString)
  | getIntrinsicHwpool (rpcrc : Int32) (hwpool : Hwpool β)

namespace Reply

/-- The function ID of the request, which the header repeats. -/
def fid : Reply β → Fid
  | hello _ _ => .hello
  | getCpubind _ _ => .getCpubind
  | setCpubind _ => .setCpubind
  | objTypeDepth _ _ => .objTypeDepth
  | getNobjsInCpuset _ _ => .getNobjsInCpuset
  | getCpusetForNobjs _ _ => .getCpusetForNobjs
  | getDeviceInCpuset _ _ => .getDeviceInCpuset
  | getIntrinsicHwpool _ _ => .getIntrinsicHwpool

/-- The status. -/
def rpcrc : Reply β → Int32
  | hello rc _ | getCpubind rc _ | setCpubind rc | objTypeDepth rc _ | getNobjsInCpuset rc _
  | getCpusetForNobjs rc _ | getDeviceInCpuset rc _ | getIntrinsicHwpool rc _ => rc

/-- The arguments of the handlers' `rpc_pack`. -/
def args : Reply β → List (Arg β)
  | hello rpcrc topologyFile => [save rpcrc, save topologyFile]
  | getCpubind rpcrc bitmap => [save rpcrc, save bitmap]
  | setCpubind rpcrc => [save rpcrc]
  | objTypeDepth rpcrc depth => [save rpcrc, save depth]
  | getNobjsInCpuset rpcrc nobjs => [save rpcrc, save nobjs]
  | getCpusetForNobjs rpcrc result => [save rpcrc, save result]
  | getDeviceInCpuset rpcrc devId => [save rpcrc, save devId]
  | getIntrinsicHwpool rpcrc hwpool => [save rpcrc, save hwpool]

def message (reply : Reply β) : List UInt8 := rpcPack reply.fid reply.args

end Reply

/-- What is in the result variables of the client methods before the reply. -/
structure Results (β : Type) where
  hwtopoPath : StdString
  cpuset : β
  depth : Int32
  nobjs : UInt64
  result : β
  devId : StdString
  hwpool : Hwpool β
  deriving Inhabited

/-- `QV_ERR_RPC`, which the client methods assume until the reply says otherwise. -/
def rpcrcUnset : Int32 := Int32.ofInt Rc.errRpc.code

/-- `rpcrc, result`, as the client methods pass them to `rpc_rep`. -/
def replyFields (β α : Type) [Serializable (HwpoolDev β) α] : List (Field β (Int32 × α)) :=
  [into fun rpcrc l => (rpcrc, l.2), into fun result l => (l.1, result)]

/-- `rpc_rep(rpcrc, result)`. -/
def rpcRep (β : Type) {α : Type} [Serializable (HwpoolDev β) α] (m : Memory) (result : α) :
    Bbuff.Unpacked (Int32 × α) :=
  Bbuff.unpack limit (replyFields β α) m headerSize (rpcrcUnset, result)

def statusFields (β : Type) : List (Field β Int32) := [into fun rpcrc _ => rpcrc]

/-- `rpc_rep(rpcrc)`. -/
def rpcRepStatus (β : Type) (m : Memory) : Bbuff.Unpacked Int32 :=
  Bbuff.unpack limit (statusFields β) m headerSize rpcrcUnset

/-- What the method that sent the given function ID gets out of a reply. -/
def clientDecode (m : Memory) (out : Results β) : Fid → Qv (Reply β)
  | .hello => decoded (fun l => .hello l.1 l.2) (rpcRep limit β m out.hwtopoPath)
  | .getCpubind => decoded (fun l => .getCpubind l.1 l.2) (rpcRep limit β m out.cpuset)
  | .setCpubind => decoded .setCpubind (rpcRepStatus limit β m)
  | .objTypeDepth => decoded (fun l => .objTypeDepth l.1 l.2) (rpcRep limit β m out.depth)
  | .getNobjsInCpuset => decoded (fun l => .getNobjsInCpuset l.1 l.2) (rpcRep limit β m out.nobjs)
  | .getCpusetForNobjs => decoded (fun l => .getCpusetForNobjs l.1 l.2) (rpcRep limit β m out.result)
  | .getDeviceInCpuset => decoded (fun l => .getDeviceInCpuset l.1 l.2) (rpcRep limit β m out.devId)
  | .getIntrinsicHwpool =>
      decoded (fun l => .getIntrinsicHwpool l.1 l.2) (rpcRep limit β m out.hwpool)
  -- no method waits for a reply to these
  | .invalid | .serverShutdown => .error .trap

end Decode

/-! ## The two sides agree -/

section Agreement

variable {limit : StringLimit}

/-- The header of a packed message. -/
theorem unpackMsgHeader_rpcPack (fid : Fid) (args : List (Arg β)) (beyond : Nat → UInt8) :
    unpackMsgHeader ⟨rpcPack fid args, beyond⟩ = fid.code := by
  have := Memory.read_append [] (toBytes headerSize fid.code) (Bbuff.pack args) beyond
  rw [length_toBytes, List.nil_append] at this
  rw [unpackMsgHeader, rpcPack]
  erw [this]
  exact ofBytes_toBytes fid.code_lt

/-- A body whose fields match the arguments is decoded to the call itself. -/
theorem decoded_rpcPack {L ρ : Type} {fields : List (Field β L)} {args : List (Arg β)} {value : L}
    (agree : Matches fields args fun _ => value) (short : (archives args).length ≤ limit.maxSize)
    (fid : Fid) (beyond : Nat → UInt8) (call : L → ρ) (l : L) :
    decoded call (Bbuff.unpack limit fields ⟨rpcPack fid args, beyond⟩ headerSize l) =
      .ok (call value) := by
  have run := Bbuff.unpack_pack agree short (toBytes headerSize fid.code) beyond l
  rw [length_toBytes] at run
  rw [rpcPack, run]
  rfl

/-- A status and a result. -/
theorem decoded_rpcRep {α ρ : Type} [Serializable (HwpoolDev β) α] (fid : Fid) (rpcrc : Int32)
    (result : α) (beyond : Nat → UInt8)
    (short : (archives ([save rpcrc, save result] : List (Arg β))).length ≤ limit.maxSize)
    (call : Int32 × α → ρ) (before : α) :
    decoded call (rpcRep limit β
        ⟨rpcPack fid ([save rpcrc, save result] : List (Arg β)), beyond⟩ before) =
      .ok (call (rpcrc, result)) := by
  have agree : Matches (replyFields β α) [save rpcrc, save result] fun _ => (rpcrc, result) :=
    .cons rpcrc (fun rpcrc l => (rpcrc, l.2)) (.cons result (fun result l => (l.1, result)) .nil)
  rw [rpcRep]
  exact decoded_rpcPack agree short fid beyond call _

theorem decoded_rpcRepStatus {ρ : Type} (fid : Fid) (rpcrc : Int32) (beyond : Nat → UInt8)
    (short : (archives ([save rpcrc] : List (Arg β))).length ≤ limit.maxSize) (call : Int32 → ρ) :
    decoded call (rpcRepStatus limit β ⟨rpcPack fid ([save rpcrc] : List (Arg β)), beyond⟩) =
      .ok (call rpcrc) := by
  have agree : Matches (statusFields β) [save rpcrc] fun _ => rpcrc :=
    .cons rpcrc (fun rpcrc _ => rpcrc) .nil
  rw [rpcRepStatus]
  exact decoded_rpcPack agree short fid beyond call _

/-- **The server decodes what the client encodes.** -/
theorem serverDecode_message (request : Request β) (beyond : Nat → UInt8) (l : Locals β)
    (short : (archives request.args).length ≤ limit.maxSize) :
    serverDecode limit ⟨request.message, beyond⟩ l = .ok request := by
  simp only [serverDecode, Request.message, unpackMsgHeader_rpcPack, Fid.find_code]
  cases request with
  | serverShutdown => rfl
  | hello a =>
      exact decoded_rpcPack (.cons _ _ (.cons _ _ (.cons _ _ .nil))) short _ _ _ _
  | getCpubind a => exact decoded_rpcPack (.cons _ _ (.cons _ _ .nil)) short _ _ _ _
  | setCpubind a =>
      exact decoded_rpcPack (.cons _ _ (.cons _ _ (.cons _ _ .nil))) short _ _ _ _
  | objTypeDepth a => exact decoded_rpcPack (.cons _ _ (.cons _ _ .nil)) short _ _ _ _
  | getNobjsInCpuset a =>
      exact decoded_rpcPack (.cons _ _ (.cons _ _ (.cons _ _ .nil))) short _ _ _ _
  | getCpusetForNobjs a =>
      exact decoded_rpcPack (.cons _ _ (.cons _ _ (.cons _ _ (.cons _ _ .nil)))) short _ _ _ _
  | getDeviceInCpuset a =>
      exact decoded_rpcPack (.cons _ _ (.cons _ _ (.cons _ _ (.cons _ _ (.cons _ _ .nil))))) short
        _ _ _ _
  | getIntrinsicHwpool a =>
      exact decoded_rpcPack (.cons _ _ (.cons _ _ (.cons _ _ (.cons _ _ .nil)))) short _ _ _ _

/-- **The client decodes what the handler packs.** -/
theorem clientDecode_message (reply : Reply β) (beyond : Nat → UInt8) (out : Results β)
    (short : (archives reply.args).length ≤ limit.maxSize) :
    clientDecode limit ⟨reply.message, beyond⟩ out reply.fid = .ok reply := by
  cases reply <;> simp only [clientDecode, Reply.message, Reply.fid, Reply.args] at short ⊢
  case setCpubind rpcrc => exact decoded_rpcRepStatus _ _ _ short _
  all_goals exact decoded_rpcRep _ _ _ _ short _ _

/-- **The two sides of every remote call agree.**  Whatever lies behind a message in
memory and whatever was in the variables, the server gets the function ID and the
argument values the client method was called with, and the client method gets the
status and the result the handler packed. -/
theorem rpc_agrees (limit : StringLimit) (beyond : Nat → UInt8) :
    (∀ (request : Request β) (l : Locals β), (archives request.args).length ≤ limit.maxSize →
      serverDecode limit ⟨request.message, beyond⟩ l = .ok request) ∧
    (∀ (reply : Reply β) (out : Results β), (archives reply.args).length ≤ limit.maxSize →
      clientDecode limit ⟨reply.message, beyond⟩ out reply.fid = .ok reply) :=
  ⟨fun request l short => serverDecode_message request beyond l short,
    fun reply out short => clientDecode_message reply beyond out short⟩

end Agreement

/-- A pool on PUs 0, 1 and 35 with two GPUs. -/
def twoGpuPool : Hwpool Bitmap where
  mCpu := ⟨0, {0, 1, 35}⟩
  mDevMap :=
    ⟨[(10, [some ⟨0, {0, 1}, 10, 0, [48, 49], [71]⟩, some ⟨0, {35}, 10, 1, [48, 50], []⟩])], by decide⟩

/-- A job of two processes asks for its pool and gets it. -/
theorem rpc_agrees_twoGpuPool :
    serverDecode stringLimit64
        ⟨(Request.getIntrinsicHwpool ⟨5, [101, 102], 2, 0⟩ : Request Bitmap).message, fun _ => 255⟩
        (default : Locals Bitmap) =
      .ok (.getIntrinsicHwpool ⟨5, [101, 102], 2, 0⟩) ∧
    clientDecode stringLimit64
        ⟨(Reply.getIntrinsicHwpool 0 twoGpuPool).message, fun _ => 255⟩ default .getIntrinsicHwpool =
      .ok (.getIntrinsicHwpool 0 twoGpuPool) :=
  ⟨(rpc_agrees stringLimit64 fun _ => 255).1 _ default (by decide),
    (rpc_agrees stringLimit64 fun _ => 255).2 _ default (by decide +kernel)⟩

end QuoVadis.Kernel.Rmi
