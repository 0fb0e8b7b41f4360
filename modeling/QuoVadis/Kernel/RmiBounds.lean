/-
# Kernel.RmiBounds -- which messages are decoded inside their bytes

A message can be any bytes.  Three things are asked of decoding one: it reads only
bytes of the message; a message too short for its header, its length prefix or its
declared length is reported as an error; and what the handler does never depends
on what was in a variable before the message.

Neither side compares the size of the message with what it reads.  So the length
prefix must be there and must not promise more than the message has, unless it
promises more than any string can hold (`Framed`).  `s_rpc_hello` goes on with
variables that were not unpacked, and `s_rpc_shutdown` does not look at its
message at all (`ServerFramed`); `decodes_inside_iff` says that this is all.
-/
import QuoVadis.Kernel.RmiServer

namespace QuoVadis.Kernel.Rmi

open QuoVadis.Theory

set_option autoImplicit false

/-! ## The property -/

/-- The eight bytes behind the header, as a number. -/
def declared (message : List UInt8) : Nat := ofBytes ((message.drop headerSize).take 8)

/-- The message ends before its header, its length prefix or its declared length does. -/
def TooShort (message : List UInt8) : Prop :=
  message.length < headerSize + 8 ∨ message.length < headerSize + 8 + declared message

/-- All ranges end inside the first `size` bytes. -/
def Inside (size : Nat) (touched : List (Nat × Nat)) : Prop :=
  ∀ range ∈ touched, range.1 + range.2 ≤ size

/-- The dispatch reports an error: in the status of the reply or as its own return code. -/
def Reported : Qv Answer → Prop
  | .ok (.replied reply) => reply.rpcrc ≠ rcInt .success
  | .ok (.refused rc) => rc ≠ .success
  | .ok .shutdown => False
  | .error _ => False

/-- The server decodes a message inside its bytes. -/
structure ServerDecodesInside (server : Server) (limit : StringLimit) (message : List UInt8) :
    Prop where
  inside : ∀ os beyond l,
    Inside message.length (server.mRpcDispatch os limit ⟨message, beyond⟩ l).touched
  reported : TooShort message → ∀ os beyond l,
    Reported (server.mRpcDispatch os limit ⟨message, beyond⟩ l).result
  decodedOnly : ∀ os beyond l l',
    (server.mRpcDispatch os limit ⟨message, beyond⟩ l).result =
      (server.mRpcDispatch os limit ⟨message, beyond⟩ l').result

/-- The ranges that `rpc_rep` of a client method reads. -/
def clientTouched (limit : StringLimit) (m : Memory) (out : Results Bitmap) : Fid → List (Nat × Nat)
  | .hello => (0, headerSize) :: (rpcRep limit Bitmap m out.hwtopoPath).touched
  | .getCpubind => (0, headerSize) :: (rpcRep limit Bitmap m out.cpuset).touched
  | .setCpubind => (0, headerSize) :: (rpcRepStatus limit Bitmap m).touched
  | .objTypeDepth => (0, headerSize) :: (rpcRep limit Bitmap m out.depth).touched
  | .getNobjsInCpuset => (0, headerSize) :: (rpcRep limit Bitmap m out.nobjs).touched
  | .getCpusetForNobjs => (0, headerSize) :: (rpcRep limit Bitmap m out.result).touched
  | .getDeviceInCpuset => (0, headerSize) :: (rpcRep limit Bitmap m out.devId).touched
  | .getIntrinsicHwpool => (0, headerSize) :: (rpcRep limit Bitmap m out.hwpool).touched
  | .invalid | .serverShutdown => []

/-- The methods that wait for a reply. -/
def Awaited (fid : Fid) : Prop := fid ≠ .invalid ∧ fid ≠ .serverShutdown

/-- The client method that sent `fid` decodes a reply inside its bytes. -/
structure ClientDecodesInside (limit : StringLimit) (message : List UInt8) (fid : Fid) : Prop where
  inside : ∀ beyond out, Inside message.length (clientTouched limit ⟨message, beyond⟩ out fid)
  reported : TooShort message → ∀ beyond (out : Results Bitmap),
    ∃ rc, rc ≠ .success ∧ clientDecode limit ⟨message, beyond⟩ out fid = .error (.ret rc)
  decodedOnly : ∀ beyond (out out' : Results Bitmap),
    clientDecode limit ⟨message, beyond⟩ out fid = clientDecode limit ⟨message, beyond⟩ out' fid

/-! ## The condition -/

/-- The length prefix is there, and the message is as long as it says or the length is
more than a string can have. -/
def Framed (limit : StringLimit) (message : List UInt8) : Prop :=
  headerSize + 8 ≤ message.length ∧
    (headerSize + 8 + declared message ≤ message.length ∨ limit.maxSize < declared message)

/-- What the handler of the function ID needs of a message. -/
def HandlerFramed (limit : StringLimit) (message : List UInt8) : Option Fid → Prop
  | none => True
  | some .invalid => ¬ TooShort message
  | some .serverShutdown => ¬ TooShort message
  | some .hello =>
      ¬ TooShort message ∧ 16 ≤ declared message ∧ declared message ≤ limit.maxSize
  | some _ => Framed limit message

/-- The header is there, and the message is as its function ID needs it. -/
def ServerFramed (limit : StringLimit) (message : List UInt8) : Prop :=
  headerSize ≤ message.length ∧
    HandlerFramed limit message (Fid.find (ofBytes (message.take headerSize)))

/-! ## Reading -/

section

variable {message : List UInt8} {beyond : Nat → UInt8} {limit : StringLimit}

theorem read_inside {offset size : Nat} (fits : offset + size ≤ message.length) :
    (Memory.mk message beyond).read offset size = (message.drop offset).take size := by
  have split : message = message.take offset ++ (message.drop offset).take size ++
      (message.drop offset).drop size := by
    rw [List.append_assoc, List.take_append_drop, List.take_append_drop]
  have here := Memory.read_append (message.take offset) ((message.drop offset).take size)
    ((message.drop offset).drop size) beyond
  rw [← split, List.length_take, List.length_take, List.length_drop,
    Nat.min_eq_left (by omega : offset ≤ message.length),
    Nat.min_eq_left (by omega : size ≤ message.length - offset)] at here
  exact here

theorem unpackMsgHeader_inside (header : headerSize ≤ message.length) :
    unpackMsgHeader ⟨message, beyond⟩ = ofBytes (message.take headerSize) := by
  rw [unpackMsgHeader, read_inside (by omega), List.drop_zero]

theorem slen_inside (long : headerSize + 8 ≤ message.length) :
    ofBytes ((Memory.mk message beyond).read headerSize 8) = declared message := by
  rw [read_inside long, declared]

variable {δ L : Type} {fields : List (Decoder UInt8 (InArchive δ) ArchiveError (L → L))} {m : Memory}

/-- The status of an input archive call. -/
def loadStatus {σ : Type} : Except ArchiveError σ → Rc
  | .ok _ => .success
  | .error e => e.rc

theorem unpack_eq (l : L) :
    Bbuff.unpack limit fields m headerSize l =
      let slen := ofBytes (m.read headerSize 8)
      let loaded := loadAll fields l ({ }, m.read (headerSize + 8) slen)
      if limit.maxSize < slen then ⟨.err, l, [(headerSize, 8)]⟩
      else ⟨loadStatus loaded.2, loaded.1, [(headerSize, 8), (headerSize + 8, slen)]⟩ := by
  unfold Bbuff.unpack
  dsimp only
  split_ifs with huge
  · rfl
  · rcases loadAll fields l _ with ⟨after, e | st⟩ <;> rfl

/-- The status does not depend on the variables. -/
theorem unpack_rc (l l' : L) :
    (Bbuff.unpack limit fields m headerSize l).rc =
      (Bbuff.unpack limit fields m headerSize l').rc := by
  rw [unpack_eq, unpack_eq]
  dsimp only
  rw [loadAll_snd fields l l']
  split_ifs <;> rfl

/-- Variables that are all assigned do not depend on what they held. -/
theorem unpack_settled (settles : Settles fields fun _ _ => True) (l l' : L)
    (success : (Bbuff.unpack limit fields m headerSize l).rc = .success) :
    (Bbuff.unpack limit fields m headerSize l).locals =
      (Bbuff.unpack limit fields m headerSize l').locals := by
  rw [unpack_eq] at success ⊢
  rw [unpack_eq]
  dsimp only at success ⊢
  split_ifs at success ⊢ with huge
  cases loaded : (loadAll fields l ({ }, m.read (headerSize + 8) (ofBytes (m.read headerSize 8)))).2 with
  | error e =>
      rw [loaded] at success
      exact absurd success e.rc_ne_success
  | ok st => exact settles l l' _ st trivial loaded

/-- What `unpack` touches: the prefix, and the payload if a string can be that long. -/
theorem inside_unpack_iff (l : L) :
    Inside message.length (Bbuff.unpack limit fields ⟨message, beyond⟩ headerSize l).touched ↔
      Framed limit message := by
  rw [unpack_eq]
  dsimp only
  unfold Framed
  by_cases long : headerSize + 8 ≤ message.length
  · rw [slen_inside long]
    by_cases huge : limit.maxSize < declared message
    · simp [Inside, huge, long]
    · simp [Inside, huge, long]
  · constructor
    · intro inside
      apply absurd _ long
      split_ifs at inside <;> exact inside _ List.mem_cons_self
    · rintro ⟨there, -⟩
      exact absurd there long

/-- A length that no string can have is reported. -/
theorem unpack_rc_of_tooShort (framed : Framed limit message) (short : TooShort message) (l : L) :
    (Bbuff.unpack limit fields ⟨message, beyond⟩ headerSize l).rc = .err := by
  have huge : limit.maxSize < declared message := by
    unfold TooShort at short
    have := framed.1
    rcases framed.2 with enough | huge
    · omega
    · exact huge
  rw [unpack_eq]
  simp only [slen_inside framed.1, if_pos huge]

end

/-! ## The handlers -/

section

variable {server : Server} {os : Os} {limit : StringLimit} {message : List UInt8}
  {beyond : Nat → UInt8} {L : Type} {fields : List (Field Bitmap L)} {call : L → Request Bitmap}
  {failed : Rc → Reply Bitmap}

theorem handler_touched (m : Memory) (l : L) :
    (server.handler os limit fields call failed m l).touched =
      (Bbuff.unpack limit fields m headerSize l).touched := by
  simp only [Server.handler]

/-- A handler that breaks off when its variables could not be unpacked only uses what
was decoded. -/
theorem handler_decodedOnly {m : Memory} (settles : Settles fields fun _ _ => True) (l l' : L) :
    (server.handler os limit fields call failed m l).result =
      (server.handler os limit fields call failed m l').result := by
  simp only [Server.handler]
  rw [unpack_rc l l']
  split_ifs with failure
  · rfl
  · have success : (Bbuff.unpack limit fields m headerSize l).rc = .success := by
      rw [unpack_rc l l']
      exact not_not.1 failure
    rw [unpack_settled settles l l' success]

/-- What a handler does with a message that is too short for a length no string can have. -/
theorem handler_tooShort (framed : Framed limit message) (short : TooShort message) (l : L) :
    (server.handler os limit fields call failed ⟨message, beyond⟩ l).result =
      .ok (.replied (failed .err)) := by
  have rc : (Bbuff.unpack limit fields ⟨message, beyond⟩ headerSize l).rc = .err :=
    unpack_rc_of_tooShort framed short l
  simp only [Server.handler, rc]
  rfl

/-- The dispatch of a message whose header names a handler. -/
theorem mRpcDispatch_touched {fid : Fid} (header : headerSize ≤ message.length)
    (found : Fid.find (ofBytes (message.take headerSize)) = some fid) (l : Locals Bitmap) :
    (server.mRpcDispatch os limit ⟨message, beyond⟩ l).touched =
      (0, headerSize) :: (server.dispatchTable os limit ⟨message, beyond⟩ l fid).touched := by
  simp only [Server.mRpcDispatch, unpackMsgHeader_inside header, found]

theorem mRpcDispatch_result {fid : Fid} (header : headerSize ≤ message.length)
    (found : Fid.find (ofBytes (message.take headerSize)) = some fid) (l : Locals Bitmap) :
    (server.mRpcDispatch os limit ⟨message, beyond⟩ l).result =
      (server.dispatchTable os limit ⟨message, beyond⟩ l fid).result := by
  simp only [Server.mRpcDispatch, unpackMsgHeader_inside header, found]

theorem inside_cons {size : Nat} {range : Nat × Nat} {touched : List (Nat × Nat)} :
    Inside size (range :: touched) ↔ range.1 + range.2 ≤ size ∧ Inside size touched := by
  unfold Inside
  exact List.forall_mem_cons

/-- An operating system that refuses everything. -/
def refusingOs : Os := ⟨fun _ _ => none, fun _ _ _ => false⟩

/-- Messages for a handler that breaks off when its variables could not be unpacked. -/
theorem serverDecodesInside_handler {fid : Fid} (call : L → Request Bitmap)
    (failed : Rc → Reply Bitmap) (proj : Locals Bitmap → L) (header : headerSize ≤ message.length)
    (found : Fid.find (ofBytes (message.take headerSize)) = some fid)
    (entry : ∀ os m l, server.dispatchTable os limit m l fid =
      server.handler os limit fields call failed m (proj l))
    (settles : Settles fields fun _ _ => True) (status : ∀ rc, (failed rc).rpcrc = rcInt rc) :
    ServerDecodesInside server limit message ↔ Framed limit message := by
  constructor
  · intro decodes
    have inside := decodes.inside refusingOs (fun _ => 0) default
    rw [mRpcDispatch_touched header found, entry, inside_cons, handler_touched, inside_unpack_iff] at inside
    exact inside.2
  · intro framed
    constructor
    · intro os beyond l
      rw [mRpcDispatch_touched header found, entry, inside_cons, handler_touched, inside_unpack_iff]
      exact ⟨by simpa using header, framed⟩
    · intro short os beyond l
      rw [mRpcDispatch_result header found, entry, handler_tooShort framed short]
      show (failed .err).rpcrc ≠ rcInt .success
      rw [status]
      decide
    · intro os beyond l l'
      rw [mRpcDispatch_result header found, mRpcDispatch_result header found, entry, entry]
      exact handler_decodedOnly settles _ _

end

/-! ## The other handlers -/

section

variable {server : Server} {limit : StringLimit} {message : List UInt8} {beyond : Nat → UInt8}

/-- A handler that reads nothing and reports nothing. -/
theorem serverDecodesInside_silent {fid : Fid} {result : Qv Answer}
    (header : headerSize ≤ message.length)
    (found : Fid.find (ofBytes (message.take headerSize)) = some fid)
    (entry : ∀ os m l, server.dispatchTable os limit m l fid = ⟨[], result⟩)
    (silent : ¬ Reported result) :
    ServerDecodesInside server limit message ↔ ¬ TooShort message := by
  constructor
  · intro decodes short
    have reported := decodes.reported short refusingOs (fun _ => 0) default
    rw [mRpcDispatch_result header found, entry] at reported
    exact silent reported
  · intro long
    constructor
    · intro os beyond l
      rw [mRpcDispatch_touched header found, entry, inside_cons]
      exact ⟨by simpa using header, fun range member => absurd member List.not_mem_nil⟩
    · intro short
      exact absurd short long
    · intro os beyond l l'
      rw [mRpcDispatch_result header found, mRpcDispatch_result header found, entry, entry]

/-- A field of fixed width takes its bytes or ends the call. -/
theorem assign_fixedWidth {δ L α : Type} {width : Nat} {toNat : α → Nat} {ofNat : Nat → α}
    {positive : 0 < width} {bounded : ∀ a, toNat a < 256 ^ width}
    {inverse : ∀ a, ofNat (toNat a) = a} (put : α → L → L) (archive : InArchive δ)
    (stream : List UInt8) :
    assign (fixedWidth width toNat ofNat positive bounded inverse).read put (archive, stream) =
      if stream.length < width then .error .exception
      else .ok (put (ofNat (ofBytes (stream.take width))), archive, stream.drop width) := by
  show ((loadBinary width (archive, stream) >>= _) >>= _) = _
  by_cases short : stream.length < width
  · have stop : loadBinary width (archive, stream) = .error .exception := if_pos short
    rw [stop, if_pos short]
    rfl
  · have go : loadBinary width (archive, stream) =
        .ok (stream.take width, archive, stream.drop width) := if_neg short
    rw [go, if_neg short]
    rfl

/-- The first two fields of a `hello` request. -/
theorem loadAll_hello (l : HelloArgs) (archive : InArchive (HwpoolDev Bitmap)) (stream : List UInt8) :
    loadAll (helloFields Bitmap) l (archive, stream) =
      if stream.length < 8 then (l, .error .exception)
      else if (stream.drop 8).length < 8 then
        ({ l with clientVersion := UInt64.ofNat (ofBytes (stream.take 8)) }, .error .exception)
      else
        loadAll [into fun whoisit l => { l with whoisit }]
          { l with
            clientVersion := UInt64.ofNat (ofBytes (stream.take 8))
            flags := (UInt64.ofNat (ofBytes ((stream.drop 8).take 8))).toInt64 }
          (archive, (stream.drop 8).drop 8) := by
  have first : ∀ stream, (into (fun clientVersion l => { l with clientVersion }) : Field Bitmap HelloArgs)
      (archive, stream) = _ := fun stream => assign_fixedWidth _ archive stream
  have second : ∀ stream, (into (fun flags l => { l with flags }) : Field Bitmap HelloArgs)
      (archive, stream) = _ := fun stream => assign_fixedWidth _ archive stream
  rw [helloFields, loadAll, first]
  by_cases short : stream.length < 8
  · rw [if_pos short, if_pos short]
  · rw [if_neg short, if_neg short]
    dsimp only
    rw [loadAll, second]
    by_cases short' : (stream.drop 8).length < 8
    · rw [if_pos short', if_pos short']
    · rw [if_neg short', if_neg short']

/-- The variable of the last field alone. -/
theorem loadAll_whoisit (l : HelloArgs) (st : InArchive (HwpoolDev Bitmap) × List UInt8) :
    (loadAll [(into fun whoisit l => { l with whoisit } : Field Bitmap HelloArgs)] l st).1.clientVersion =
        l.clientVersion ∧
      (loadAll [(into fun whoisit l => { l with whoisit } : Field Bitmap HelloArgs)] l st).1.flags =
        l.flags := by
  have field : (into fun whoisit l => { l with whoisit } : Field Bitmap HelloArgs) st = _ :=
    assign_fixedWidth _ st.1 st.2
  rw [loadAll, field]
  split_ifs <;> exact ⟨rfl, rfl⟩

/-- With fewer than 16 bytes the flags stay what they were. -/
theorem hello_flags_short {stream : List UInt8} (short : stream.length < 16) (l : HelloArgs)
    (archive : InArchive (HwpoolDev Bitmap)) :
    (loadAll (helloFields Bitmap) l (archive, stream)).1.flags = l.flags := by
  rw [loadAll_hello]
  have : (stream.drop 8).length < 8 ∨ stream.length < 8 := by
    rw [List.length_drop]
    omega
  split_ifs with first second
  · rfl
  · rfl
  · omega

/-- With at least 16 bytes the version and the flags come from the message. -/
theorem hello_decoded {stream : List UInt8} (long : 16 ≤ stream.length) (l l' : HelloArgs)
    (archive : InArchive (HwpoolDev Bitmap)) :
    (loadAll (helloFields Bitmap) l (archive, stream)).1.clientVersion =
        (loadAll (helloFields Bitmap) l' (archive, stream)).1.clientVersion ∧
      (loadAll (helloFields Bitmap) l (archive, stream)).1.flags =
        (loadAll (helloFields Bitmap) l' (archive, stream)).1.flags := by
  have first : ¬ stream.length < 8 := by omega
  have second : ¬ (stream.drop 8).length < 8 := by
    rw [List.length_drop]
    omega
  simp only [loadAll_hello, if_neg first, if_neg second, (loadAll_whoisit _ _).1,
    (loadAll_whoisit _ _).2, and_self]

theorem sRpcHello_result (m : Memory) (l : HelloArgs) :
    (server.sRpcHello limit m l).result =
      let u := Bbuff.unpack limit (helloFields Bitmap) m headerSize l
      (server.get u.locals.flags).map fun topo =>
        .replied (.hello (rcInt (if server.version ≠ u.locals.clientVersion then .errNotSupported
          else if u.rc ≠ .success then u.rc else .success)) topo.topologyFile) := by
  simp only [Server.sRpcHello]
  cases server.get (Bbuff.unpack limit (helloFields Bitmap) m headerSize l).locals.flags <;> rfl

/-- If the flags are not unpacked, then what was in them decides: 0 aborts, 1 does not. -/
theorem hello_uses_flags {m : Memory}
    (kept : ∀ l, (Bbuff.unpack limit (helloFields Bitmap) m headerSize l).locals.flags = l.flags) :
    (server.sRpcHello limit m ⟨0, 0, 0⟩).result ≠ (server.sRpcHello limit m ⟨0, 1, 0⟩).result := by
  have none : server.get 0 = .error .trap := by
    unfold Server.get topoMask
    rw [if_neg (by decide), if_neg (by decide)]
  have full : server.get 1 = .ok server.full := by
    unfold Server.get topoMask
    rw [if_pos (by decide)]
  rw [sRpcHello_result, sRpcHello_result]
  dsimp only
  rw [kept, kept, none, full]
  simp only [Except.map, ne_eq, reduceCtorEq, not_false_eq_true]

theorem dispatchTable_hello (os : Os) (m : Memory) (l : Locals Bitmap) :
    server.dispatchTable os limit m l .hello = server.sRpcHello limit m l.hello := rfl

theorem inside_hello_iff (l : HelloArgs) :
    Inside message.length (server.sRpcHello limit ⟨message, beyond⟩ l).touched ↔
      Framed limit message := by
  simp only [Server.sRpcHello]
  exact inside_unpack_iff l

/-- With a payload a string can hold, the variables are what the payload says. -/
theorem hello_locals (long : headerSize + 8 ≤ message.length)
    (possible : declared message ≤ limit.maxSize) (l : HelloArgs) :
    (Bbuff.unpack limit (helloFields Bitmap) ⟨message, beyond⟩ headerSize l).locals =
      (loadAll (helloFields Bitmap) l
        ({ }, (Memory.mk message beyond).read (headerSize + 8) (declared message))).1 := by
  rw [unpack_eq]
  simp only [slen_inside long, if_neg (not_lt.2 possible)]

/-- The flags are unpacked only from a payload that a string can hold, and that has 16
bytes. -/
theorem hello_flags_kept (long : headerSize + 8 ≤ message.length)
    (few : declared message < 16 ∨ limit.maxSize < declared message) (l : HelloArgs) :
    (Bbuff.unpack limit (helloFields Bitmap) ⟨message, beyond⟩ headerSize l).locals.flags =
      l.flags := by
  by_cases possible : declared message ≤ limit.maxSize
  · rw [hello_locals long possible]
    apply hello_flags_short
    rw [Memory.length_read]
    omega
  · rw [unpack_eq]
    simp only [slen_inside long, if_pos (not_le.1 possible)]

/-- A `hello` message that is decoded inside its bytes has the version and the flags. -/
theorem hello_of_decodes (header : headerSize ≤ message.length)
    (found : Fid.find (ofBytes (message.take headerSize)) = some .hello)
    (decodes : ServerDecodesInside server limit message) :
    ¬ TooShort message ∧ 16 ≤ declared message ∧ declared message ≤ limit.maxSize := by
  have framed : Framed limit message := by
    have inside := decodes.inside refusingOs (fun _ => 0) default
    rw [mRpcDispatch_touched header found, dispatchTable_hello, inside_cons, inside_hello_iff]
      at inside
    exact inside.2
  have same : ∀ l l' : HelloArgs, (server.sRpcHello limit ⟨message, fun _ => 0⟩ l).result =
      (server.sRpcHello limit ⟨message, fun _ => 0⟩ l').result := by
    intro l l'
    have only := decodes.decodedOnly refusingOs (fun _ => 0)
      { (default : Locals Bitmap) with hello := l } { (default : Locals Bitmap) with hello := l' }
    rwa [mRpcDispatch_result header found, mRpcDispatch_result header found, dispatchTable_hello,
      dispatchTable_hello] at only
  have enough : ¬ (declared message < 16 ∨ limit.maxSize < declared message) := by
    intro few
    have kept : ∀ l, (Bbuff.unpack limit (helloFields Bitmap) ⟨message, fun _ => 0⟩ headerSize
        l).locals.flags = l.flags := fun l => hello_flags_kept framed.1 few l
    exact hello_uses_flags kept (same ⟨0, 0, 0⟩ ⟨0, 1, 0⟩)
  unfold TooShort
  unfold Framed at framed
  omega

/-- And those messages are. -/
theorem decodes_of_hello (header : headerSize ≤ message.length)
    (found : Fid.find (ofBytes (message.take headerSize)) = some .hello)
    (long : ¬ TooShort message) (enough : 16 ≤ declared message)
    (possible : declared message ≤ limit.maxSize) : ServerDecodesInside server limit message := by
  have framed : Framed limit message := by
    unfold TooShort at long
    unfold Framed
    omega
  constructor
  · intro os beyond l
    rw [mRpcDispatch_touched header found, dispatchTable_hello, inside_cons, inside_hello_iff]
    exact ⟨by simpa using header, framed⟩
  · intro short
    exact absurd short long
  · intro os beyond l l'
    rw [mRpcDispatch_result header found, mRpcDispatch_result header found, dispatchTable_hello,
      dispatchTable_hello, sRpcHello_result, sRpcHello_result]
    dsimp only
    have sixteen : 16 ≤ ((Memory.mk message beyond).read (headerSize + 8) (declared message)).length := by
      rwa [Memory.length_read]
    obtain ⟨version, flags⟩ := hello_decoded sixteen l.hello l'.hello { }
    rw [unpack_rc l.hello l'.hello, hello_locals framed.1 possible, hello_locals framed.1 possible,
      version, flags]

end

/-! ## Every variable of the other handlers is assigned -/

theorem getCpubindFields_settles : Settles (getCpubindFields Bitmap) fun _ _ => True :=
  (Settles.cons (.cons .nil)).all fun _ _ _ _ => rfl

theorem setCpubindFields_settles :
    Settles (setCpubindFields : List (Field Bitmap (SetCpubindArgs Bitmap))) fun _ _ => True :=
  (Settles.cons (.cons (.cons .nil))).all fun _ _ _ _ _ => rfl

theorem objTypeDepthFields_settles : Settles (objTypeDepthFields Bitmap) fun _ _ => True :=
  (Settles.cons (.cons .nil)).all fun _ _ _ _ => rfl

theorem getNobjsInCpusetFields_settles :
    Settles (getNobjsInCpusetFields : List (Field Bitmap (GetNobjsInCpusetArgs Bitmap)))
      fun _ _ => True :=
  (Settles.cons (.cons (.cons .nil))).all fun _ _ _ _ _ => rfl

theorem getCpusetForNobjsFields_settles :
    Settles (getCpusetForNobjsFields : List (Field Bitmap (GetCpusetForNobjsArgs Bitmap)))
      fun _ _ => True :=
  (Settles.cons (.cons (.cons (.cons .nil)))).all fun _ _ _ _ _ _ => rfl

theorem getDeviceInCpusetFields_settles :
    Settles (getDeviceInCpusetFields : List (Field Bitmap (GetDeviceInCpusetArgs Bitmap)))
      fun _ _ => True :=
  (Settles.cons (.cons (.cons (.cons (.cons .nil))))).all fun _ _ _ _ _ _ _ => rfl

theorem getIntrinsicHwpoolFields_settles :
    Settles (getIntrinsicHwpoolFields Bitmap) fun _ _ => True :=
  (Settles.cons (.cons (.cons (.cons .nil)))).all fun _ _ _ _ _ _ => rfl

theorem replyFields_settles (α : Type) [Serializable (HwpoolDev Bitmap) α] :
    Settles (replyFields Bitmap α) fun _ _ => True :=
  (Settles.cons (.cons .nil)).all fun _ _ _ _ => rfl

theorem statusFields_settles : Settles (statusFields Bitmap) fun _ _ => True :=
  (Settles.cons .nil).all fun _ _ _ => rfl

/-! ## The client -/

section

variable {limit : StringLimit} {message : List UInt8} {beyond : Nat → UInt8} {L ρ : Type}
  {fields : List (Field Bitmap L)}

theorem decoded_tooShort (call : L → ρ) (framed : Framed limit message) (short : TooShort message)
    (l : L) :
    decoded call (Bbuff.unpack limit fields ⟨message, beyond⟩ headerSize l) = .error (.ret .err) := by
  have rc : (Bbuff.unpack limit fields ⟨message, beyond⟩ headerSize l).rc = .err :=
    unpack_rc_of_tooShort framed short l
  rw [decoded, rc, if_pos (by decide)]

/-- A method that returns the error of `rpc_rep` only uses what was decoded. -/
theorem decoded_decodedOnly (call : L → ρ) {m : Memory} (settles : Settles fields fun _ _ => True)
    (l l' : L) :
    decoded call (Bbuff.unpack limit fields m headerSize l) =
      decoded call (Bbuff.unpack limit fields m headerSize l') := by
  rw [decoded, decoded, unpack_rc l l']
  split_ifs with failure
  · rfl
  · have success : (Bbuff.unpack limit fields m headerSize l).rc = .success := by
      rw [unpack_rc l l']
      exact not_not.1 failure
    rw [unpack_settled settles l l' success]

/-- Replies to a method that waits for one. -/
theorem clientDecodesInside_method {fid : Fid} (call : L → Reply Bitmap) (proj : Results Bitmap → L)
    (touched : ∀ m out, clientTouched limit m out fid =
      (0, headerSize) :: (Bbuff.unpack limit fields m headerSize (proj out)).touched)
    (result : ∀ m out, clientDecode limit m out fid =
      decoded call (Bbuff.unpack limit fields m headerSize (proj out)))
    (settles : Settles fields fun _ _ => True) :
    ClientDecodesInside limit message fid ↔ Framed limit message := by
  constructor
  · intro decodes
    have inside := decodes.inside (fun _ => 0) default
    rw [touched, inside_cons, inside_unpack_iff] at inside
    exact inside.2
  · intro framed
    constructor
    · intro beyond out
      rw [touched, inside_cons, inside_unpack_iff]
      have := framed.1
      exact ⟨by dsimp only; omega, framed⟩
    · intro short beyond out
      refine ⟨.err, by decide, ?_⟩
      rw [result, decoded_tooShort call framed short]
    · intro beyond out out'
      rw [result, result]
      exact decoded_decodedOnly call settles _ _

/-- Methods with a result. -/
theorem clientDecodesInside_rpcRep {α : Type} [Serializable (HwpoolDev Bitmap) α] {fid : Fid}
    (call : Int32 × α → Reply Bitmap) (proj : Results Bitmap → α)
    (touched : ∀ m out, clientTouched limit m out fid =
      (0, headerSize) :: (rpcRep limit Bitmap m (proj out)).touched)
    (result : ∀ m out, clientDecode limit m out fid =
      decoded call (rpcRep limit Bitmap m (proj out))) :
    ClientDecodesInside limit message fid ↔ Framed limit message :=
  clientDecodesInside_method call (fun out => (rpcrcUnset, proj out)) touched result
    (replyFields_settles α)

end

/-! ## Both sides -/

section

variable {limit : StringLimit} {message : List UInt8}

/-- A function ID that is not in the table is reported before anything else is read. -/
theorem serverDecodesInside_unknown {server : Server} (header : headerSize ≤ message.length)
    (unknown : Fid.find (ofBytes (message.take headerSize)) = none) :
    ServerDecodesInside server limit message := by
  have dispatch : ∀ os beyond l, server.mRpcDispatch os limit ⟨message, beyond⟩ l =
      ⟨[(0, headerSize)], .ok (.refused .errRpc)⟩ := by
    intro os beyond l
    simp only [Server.mRpcDispatch, unpackMsgHeader_inside header, unknown]
  constructor
  · intro os beyond l
    rw [dispatch, inside_cons]
    exact ⟨by simpa using header, fun range member => absurd member List.not_mem_nil⟩
  · intro short os beyond l
    rw [dispatch]
    show Rc.errRpc ≠ .success
    decide
  · intro os beyond l l'
    rw [dispatch, dispatch]

/-- The header is read whatever the message is. -/
theorem ServerDecodesInside.header {server : Server}
    (decodes : ServerDecodesInside server limit message) : headerSize ≤ message.length := by
  have first : (0, headerSize) ∈
      (server.mRpcDispatch refusingOs limit ⟨message, fun _ => 0⟩ default).touched := by
    unfold Server.mRpcDispatch
    split <;> exact List.mem_cons_self
  have inside := decodes.inside refusingOs (fun _ => 0) default _ first
  simpa using inside

/-- **The server side.** -/
theorem serverDecodesInside_iff {server : Server} :
    ServerDecodesInside server limit message ↔ ServerFramed limit message := by
  unfold ServerFramed
  by_cases header : headerSize ≤ message.length
  · simp only [header, true_and]
    cases found : Fid.find (ofBytes (message.take headerSize)) with
    | none => exact iff_of_true (serverDecodesInside_unknown header found) trivial
    | some fid =>
        cases fid with
        | invalid => exact serverDecodesInside_silent header found (fun _ _ _ => rfl) id
        | serverShutdown => exact serverDecodesInside_silent header found (fun _ _ _ => rfl) id
        | hello =>
            constructor
            · exact hello_of_decodes header found
            · rintro ⟨long, enough, possible⟩
              exact decodes_of_hello header found long enough possible
        | getCpubind =>
            exact serverDecodesInside_handler .getCpubind (fun rc => .getCpubind (rcInt rc) ∅)
              Locals.getCpubind header found (fun _ _ _ => rfl) getCpubindFields_settles fun _ => rfl
        | setCpubind =>
            exact serverDecodesInside_handler .setCpubind (fun rc => .setCpubind (rcInt rc))
              Locals.setCpubind header found (fun _ _ _ => rfl) setCpubindFields_settles fun _ => rfl
        | objTypeDepth =>
            exact serverDecodesInside_handler .objTypeDepth (fun rc => .objTypeDepth (rcInt rc) 0)
              Locals.objTypeDepth header found (fun _ _ _ => rfl) objTypeDepthFields_settles fun _ => rfl
        | getNobjsInCpuset =>
            exact serverDecodesInside_handler .getNobjsInCpuset (fun rc => .getNobjsInCpuset (rcInt rc) 0)
              Locals.getNobjsInCpuset header found (fun _ _ _ => rfl) getNobjsInCpusetFields_settles fun _ => rfl
        | getCpusetForNobjs =>
            exact serverDecodesInside_handler .getCpusetForNobjs (fun rc => .getCpusetForNobjs (rcInt rc) ∅)
              Locals.getCpusetForNobjs header found (fun _ _ _ => rfl) getCpusetForNobjsFields_settles fun _ => rfl
        | getDeviceInCpuset =>
            exact serverDecodesInside_handler .getDeviceInCpuset (fun rc => .getDeviceInCpuset (rcInt rc) [])
              Locals.getDeviceInCpuset header found (fun _ _ _ => rfl) getDeviceInCpusetFields_settles fun _ => rfl
        | getIntrinsicHwpool =>
            exact serverDecodesInside_handler .getIntrinsicHwpool (fun rc => .getIntrinsicHwpool (rcInt rc) (.ofPool default))
              Locals.getIntrinsicHwpool header found (fun _ _ _ => rfl) getIntrinsicHwpoolFields_settles fun _ => rfl
  · simp only [header, false_and, iff_false]
    intro decodes
    exact header decodes.header

/-- **The client side.** -/
theorem clientDecodesInside_iff {fid : Fid} (awaited : Awaited fid) :
    ClientDecodesInside limit message fid ↔ Framed limit message := by
  cases fid with
  | invalid => exact absurd rfl awaited.1
  | serverShutdown => exact absurd rfl awaited.2
  | hello =>
      exact clientDecodesInside_rpcRep (fun l => .hello l.1 l.2) Results.hwtopoPath
        (fun _ _ => rfl) fun _ _ => rfl
  | getCpubind =>
      exact clientDecodesInside_rpcRep (fun l => .getCpubind l.1 l.2) Results.cpuset
        (fun _ _ => rfl) fun _ _ => rfl
  | setCpubind =>
      exact clientDecodesInside_method .setCpubind (fun _ => rpcrcUnset) (fun _ _ => rfl)
        (fun _ _ => rfl) statusFields_settles
  | objTypeDepth =>
      exact clientDecodesInside_rpcRep (fun l => .objTypeDepth l.1 l.2) Results.depth
        (fun _ _ => rfl) fun _ _ => rfl
  | getNobjsInCpuset =>
      exact clientDecodesInside_rpcRep (fun l => .getNobjsInCpuset l.1 l.2) Results.nobjs
        (fun _ _ => rfl) fun _ _ => rfl
  | getCpusetForNobjs =>
      exact clientDecodesInside_rpcRep (fun l => .getCpusetForNobjs l.1 l.2) Results.result
        (fun _ _ => rfl) fun _ _ => rfl
  | getDeviceInCpuset =>
      exact clientDecodesInside_rpcRep (fun l => .getDeviceInCpuset l.1 l.2) Results.devId
        (fun _ _ => rfl) fun _ _ => rfl
  | getIntrinsicHwpool =>
      exact clientDecodesInside_rpcRep (fun l => .getIntrinsicHwpool l.1 l.2) Results.hwpool
        (fun _ _ => rfl) fun _ _ => rfl

end

/-- **Which messages are decoded inside their bytes.**  On the server: those whose header
is there and whose length prefix is as the handler of their function ID needs it.  On the
client: those with a length prefix that does not promise more than there is. -/
theorem decodes_inside_iff (server : Server) (limit : StringLimit) (message : List UInt8) :
    (ServerDecodesInside server limit message ↔ ServerFramed limit message) ∧
    ∀ fid, Awaited fid → (ClientDecodesInside limit message fid ↔ Framed limit message) :=
  ⟨serverDecodesInside_iff, fun _ awaited => clientDecodesInside_iff awaited⟩

/-- A header and a length prefix, and nothing behind them. -/
def promise (fid : Fid) (slen : Nat) : List UInt8 := toBytes headerSize fid.code ++ toBytes 8 slen

theorem decodes_inside_iff_emptyBody :
    ServerDecodesInside twoPuServer stringLimit64 (promise .getCpubind 0) ∧
      ClientDecodesInside stringLimit64 (promise .getCpubind 0) .getCpubind := by
  have framed : Framed stringLimit64 (promise .getCpubind 0) := by
    unfold Framed
    decide
  obtain ⟨server, client⟩ := decodes_inside_iff twoPuServer stringLimit64 (promise .getCpubind 0)
  refine ⟨server.2 ⟨by decide, ?_⟩, (client .getCpubind (by unfold Awaited; decide)).2 framed⟩
  rw [show Fid.find (ofBytes ((promise .getCpubind 0).take headerSize)) = some .getCpubind from by decide]
  exact framed

/-- Twelve bytes that promise a hundred more: both sides read behind the message.  And a
`hello` that promises no more than it has: which topology is used depends on what was in
the flags before, and with 0 there the server aborts. -/
theorem decodes_outside_promise :
    (promise .getCpubind 100).length = 12 ∧
    (12, 100) ∈ (twoPuServer.mRpcDispatch refusingOs stringLimit64
      ⟨promise .getCpubind 100, fun _ => 0⟩ default).touched ∧
    (12, 100) ∈
      clientTouched stringLimit64 ⟨promise .getCpubind 100, fun _ => 0⟩ default .getCpubind ∧
    ¬ ServerDecodesInside twoPuServer stringLimit64 (promise .getCpubind 100) ∧
    ¬ ClientDecodesInside stringLimit64 (promise .getCpubind 100) .getCpubind ∧
    ¬ ServerDecodesInside twoPuServer stringLimit64 (promise .hello 0) := by
  have server : (12, 100) ∈ (twoPuServer.mRpcDispatch refusingOs stringLimit64
      ⟨promise .getCpubind 100, fun _ => 0⟩ default).touched := by
    decide
  have client : (12, 100) ∈
      clientTouched stringLimit64 ⟨promise .getCpubind 100, fun _ => 0⟩ default .getCpubind := by
    decide
  refine ⟨by decide, server, client, ?_, ?_, ?_⟩
  · intro decodes
    have := decodes.inside refusingOs (fun _ => 0) default _ server
    exact absurd this (by decide)
  · intro decodes
    have := decodes.inside (fun _ => 0) default _ client
    exact absurd this (by decide)
  · rw [serverDecodesInside_iff]
    rintro ⟨-, framed⟩
    have enough : 16 ≤ declared (promise .hello 0) := by
      rw [show Fid.find (ofBytes ((promise .hello 0).take headerSize)) = some .hello from by decide] at framed
      exact framed.2.1
    exact absurd enough (by decide)

end QuoVadis.Kernel.Rmi
