/-
# Kernel.RmiClients -- many clients, one server, messages in flight

A client method packs its request, sends it over a REQ socket and waits for the reply,
for five seconds at most: `connect` sets `ZMQ_RCVTIMEO` and nobody resets it.  The server
receives from whichever client it likes.  So requests and replies of many clients are in
flight at once, replies arrive after their method has given up, and a signal or a
request it cannot serve takes the server away.

What keeps this in order is the REQ socket, which refuses to send while a reply is
outstanding.  A method that timed out leaves its socket in that state: every later method
of the client fails before it sends, and the late reply is never read.

* `step_simulates`: a step of the system is at most one of an atomic object, whose state
  is the thread bindings of the machine and whose requests are those of the clients;
* `Net.linearizable`: so the replies are those of a sequential execution, and each belongs
  to the call that returns it;
* `Net.getCpubind_reads`: what a request to bind a thread left of its cpuset is what anybody
  gets afterwards, as far as the reader's topology goes and as long as nobody sets it again.

ZMQ is modelled by what it documents: messages arrive whole, in order and at most once;
a reply goes to the socket that sent the request; sending out of turn is `EFSM`.  hwloc
binds a thread as `fixCpubind` and `getTidCpubind` say, and the kernel cuts the mask down
to the PUs it lets the thread have.
-/
import QuoVadis.Kernel.RmiLoop
import QuoVadis.Kernel.Task
import QuoVadis.Theory.AtomicCalls

namespace QuoVadis.Kernel.Rmi

open QuoVadis.Theory

set_option autoImplicit false

/-! ## The bindings of the machine -/

/-- The threads of the machine, by their IDs: the mask of each thread there is, and the PUs
the kernel lets it have, which are none for a thread that the server may not bind. -/
structure Bindings where
  bound : Int32 → Option Bitmap
  allowed : Int32 → Bitmap

namespace Bindings

/-- The mask that a request through a topology leaves when it is granted. -/
def applied (b : Bindings) (topo : Topology) (who : Int32) (cpuset : Bitmap) : Bitmap :=
  fixCpubind topo.topologyCpuset topo.completeCpuset cpuset ∩ b.allowed who

/-- hwloc refuses an empty set and one with PUs that the machine does not have, and the
kernel an empty mask. -/
def grants (b : Bindings) (topo : Topology) (who : Int32) (cpuset : Bitmap) : Bool :=
  (b.bound who).isSome && decide (cpuset ≠ ∅ ∧ cpuset ⊆ topo.completeCpuset ∧
    b.applied topo who cpuset ≠ ∅)

def os (b : Bindings) : Os where
  getProcCpubind topo who := (b.bound who).map (getTidCpubind topo.completeCpuset)
  setProcCpubind := b.grants

def set (b : Bindings) (topo : Topology) (who : Int32) (cpuset : Bitmap) : Bindings :=
  if b.grants topo who cpuset then
    { b with bound := Function.update b.bound who (some (b.applied topo who cpuset)) }
  else b

theorem applied_congr {b b' : Bindings} {who : Int32} (may : b.allowed who = b'.allowed who)
    (topo : Topology) (cpuset : Bitmap) : b.applied topo who cpuset = b'.applied topo who cpuset := by
  rw [applied, applied, may]

/-- What a request leaves behind.  Only `s_rpc_set_cpubind` leaves anything. -/
def after (b : Bindings) (server : Server) : Request Bitmap → Bindings
  | .setCpubind a =>
      match server.get a.flags with
      | .ok topo => b.set topo a.who a.cpuset
      | .error _ => b
  | _ => b

end Bindings

/-- What a message leaves behind. -/
def Server.afterMessage (server : Server) (limit : StringLimit) (b : Bindings) (m : Memory)
    (l : Locals Bitmap) : Bindings :=
  match serverDecode limit m l with
  | .ok request => b.after server request
  | .error _ => b

/-! ## Clients and server -/

/-- Messages whose size is an `int`, which is what `zsock_send_bbuff` makes of it. -/
def Fits (bytes : List UInt8) : Prop := bytes.length < 2 ^ 31

instance (bytes : List UInt8) : Decidable (Fits bytes) := inferInstanceAs (Decidable (_ < _))

/-- The REQ socket of a client, and the method that uses it. -/
inductive Socket where
  | ready
  | awaiting (request : Request Bitmap)
  /-- A reply is outstanding for which no method waits. -/
  | stale

/-- The clients, the server, and what is in flight between them. -/
structure Net (ι : Type) where
  bindings : Bindings
  loop : Loop
  toServer : ι → List (List UInt8)
  toClient : ι → List (List UInt8)
  socket : ι → Socket

/-- What can happen. -/
inductive NetEvent (ι : Type) where
  /-- A client method is called. -/
  | call (i : ι) (request : Request Bitmap)
  /-- The server receives the next message of a client. -/
  | deliver (i : ι) (beyond : Nat → UInt8) (l : Locals Bitmap)
  | signal
  /-- `zmq_msg_recv` of a client returns the reply, or nothing in time. -/
  | receive (i : ι) (beyond : Nat → UInt8) (out : Results Bitmap)
  | timeout (i : ι)
  /-- A server that has left its loop discards what it has not sent yet. -/
  | discard (i : ι)

/-- What the callers of the client methods see. -/
inductive Seen (ι : Type) where
  | called (i : ι) (request : Request Bitmap)
  /-- `send_shutdown_message`, which waits for nothing. -/
  | sent (i : ι) (request : Request Bitmap)
  /-- A method that fails before it has sent anything. -/
  | refused (i : ι) (request : Request Bitmap)
  | returned (i : ι) (request : Request Bitmap) (result : Qv (Reply Bitmap))

namespace Net

variable {ι : Type} [DecidableEq ι] (server : Server) (limit : StringLimit)

/-- Clients that are connected to a server. -/
def initial (bindings : Bindings) : Net ι where
  bindings := bindings
  loop := .running
  toServer := fun _ => []
  toClient := fun _ => []
  socket := fun _ => .ready

/-- `rpc_req`, called by the method for a request. -/
def rpcReq (net : Net ι) (i : ι) (request : Request Bitmap) : Option (Net ι × List (Seen ι)) :=
  match net.socket i with
  | .awaiting _ => none
  -- zmq_send() fails
  | .stale => some (net, [.refused i request])
  | .ready =>
      if Fits request.message then
        let toServer := Function.update net.toServer i (net.toServer i ++ [request.message])
        match request with
        | .serverShutdown =>
            some ({ net with toServer, socket := Function.update net.socket i .stale },
              [.sent i request])
        | _ =>
            some ({ net with toServer, socket := Function.update net.socket i (.awaiting request) },
              [.called i request])
      else none

/-- A turn of the main loop on a message of a client. -/
def serveNext (net : Net ι) (i : ι) (beyond : Nat → UInt8) (l : Locals Bitmap) :
    Option (Net ι × List (Seen ι)) :=
  match net.loop, net.toServer i with
  | .running, bytes :: later =>
      let turn := server.turn limit (.message ⟨bytes, beyond⟩ net.bindings.os l)
      if ∀ sent ∈ turn.2, Fits sent then
        some ({ net with
          bindings := server.afterMessage limit net.bindings ⟨bytes, beyond⟩ l
          loop := turn.1
          toServer := Function.update net.toServer i later
          toClient := Function.update net.toClient i (net.toClient i ++ turn.2.toList) }, [])
      else none
  | _, _ => none

/-- `rpc_rep`, when there is a reply. -/
def rpcRep (net : Net ι) (i : ι) (beyond : Nat → UInt8) (out : Results Bitmap) :
    Option (Net ι × List (Seen ι)) :=
  match net.socket i, net.toClient i with
  | .awaiting request, bytes :: later =>
      some ({ net with
          toClient := Function.update net.toClient i later
          socket := Function.update net.socket i .ready },
        [.returned i request (clientDecode limit ⟨bytes, beyond⟩ out request.fid)])
  | _, _ => none

/-- `rpc_rep`, when there is no reply in time. -/
def rpcRepTimeout (net : Net ι) (i : ι) : Option (Net ι × List (Seen ι)) :=
  match net.socket i with
  | .awaiting request =>
      some ({ net with socket := Function.update net.socket i .stale },
        [.returned i request (.error (.ret .errRpc))])
  | _ => none

/-- A step of the system, and what is seen of it; `none` when it is not possible, or
when a message would be too long. -/
def step (net : Net ι) : NetEvent ι → Option (Net ι × List (Seen ι))
  | .call i request => net.rpcReq i request
  | .deliver i beyond l => net.serveNext server limit i beyond l
  | .signal => if net.loop = .running then some ({ net with loop := .returned .success }, []) else none
  | .receive i beyond out => net.rpcRep limit i beyond out
  | .timeout i => net.rpcRepTimeout i
  | .discard i =>
      if net.loop = .running then none
      else some ({ net with toClient := Function.update net.toClient i [] }, [])

/-- A run of the system, and what is seen of it. -/
def run (net : Net ι) : List (NetEvent ι) → Option (Net ι × List (Seen ι))
  | [] => some (net, [])
  | event :: events => do
      let (net, seen) ← net.step server limit event
      let (net, later) ← run net events
      return (net, seen ++ later)

end Net

/-! ## The server as an atomic object -/

/-- The bindings, and what a request makes of them. -/
def Server.object (server : Server) : AtomicObject Bindings (Request Bitmap) (Reply Bitmap) where
  serve b request :=
    (b.after server request,
      match server.answer b.os request with
      | .ok (.replied reply) => some reply
      | _ => none)

/-- What is seen of a step of the atomic object and its clients: not its service. -/
def seen {ι : Type} : ι × AtomicCalls.Act (Request Bitmap) (Reply Bitmap) → Option (Seen ι)
  | (i, .call request) => some (.called i request)
  | (i, .send request) => some (.sent i request)
  | (i, .refused request) => some (.refused i request)
  | (_, .served _ _) => none
  | (i, .ret request reply) => some (.returned i request (.ok reply))
  | (i, .giveUp request) => some (.returned i request (.error (.ret .errRpc)))

section

variable {server : Server} {limit : StringLimit}

theorem short_of_fits (limit : StringLimit) {fid : Fid} {args : List (Arg Bitmap)} (fits : Fits (rpcPack fid args)) :
    (archives args).length ≤ limit.maxSize := by
  have roomy := limit.roomy
  have length : (rpcPack fid args).length = 4 + (8 + (archives args).length) := by
    rw [rpcPack, Bbuff.pack, List.length_append, List.length_append, length_toBytes, length_toBytes]
    rfl
  rw [Fits, length] at fits
  omega

/-- The reply that serving a request ends with has the function ID of the request. -/
theorem fid_of_replied {b : Bindings} {request : Request Bitmap} {reply : Reply Bitmap}
    (served : (server.object.serve b request).2 = some reply) : reply.fid = request.fid := by
  simp only [Server.object] at served
  split at served
  · rename_i reply' answered
    cases served
    cases request with
    | serverShutdown => cases answered
    | hello _ | getCpubind _ | setCpubind _ | objTypeDepth _ | getNobjsInCpuset _
    | getCpusetForNobjs _ | getDeviceInCpuset _ | getIntrinsicHwpool _ =>
        obtain ⟨reply', run, same⟩ := map_ok answered
        cases same
        exact (serve_reply run).1
  · cases served

/-- A turn of the main loop on a message of a client is a service. -/
theorem turn_message (server : Server) (limit : StringLimit) (b : Bindings)
    {request : Request Bitmap} (beyond : Nat → UInt8) (l : Locals Bitmap) (fits : Fits request.message) :
    server.afterMessage limit b ⟨request.message, beyond⟩ l = (server.object.serve b request).1 ∧
      (∀ reply, (server.object.serve b request).2 = some reply →
        (server.turn limit (.message ⟨request.message, beyond⟩ b.os l)).2 = some reply.message) ∧
      (request ≠ .serverShutdown → (server.object.serve b request).2 = none →
        (server.turn limit (.message ⟨request.message, beyond⟩ b.os l)).2 = none) := by
  have decodes := serverDecode_message request beyond l (short_of_fits limit fits)
  have answers : (server.mRpcDispatch b.os limit ⟨request.message, beyond⟩ l).result =
      server.answer b.os request := mRpcDispatch_message request beyond l (short_of_fits limit fits)
  refine ⟨?_, ?_, ?_⟩
  · rw [Server.afterMessage, decodes]
    rfl
  · intro reply served
    simp only [Server.object] at served
    split at served
    · rename_i answered
      cases served
      simp only [Server.turn, answers, answered]
    · cases served
  · intro operation unserved
    simp only [Server.object] at unserved
    split at unserved
    · cases unserved
    · rename_i noReply
      simp only [Server.turn, answers]
      cases answered : server.answer b.os request with
      | error fault => rfl
      | ok answer =>
          cases answer with
          | replied reply => exact absurd answered (noReply reply)
          | refused rc => rfl
          | shutdown =>
              cases request with
              | serverShutdown => exact absurd rfl operation
              | hello _ | getCpubind _ | setCpubind _ | objTypeDepth _ | getNobjsInCpuset _
              | getCpusetForNobjs _ | getDeviceInCpuset _ | getIntrinsicHwpool _ =>
                  obtain ⟨_, _, same⟩ := map_ok answered
                  cases same

end

/-! ## Every run is one of the atomic object -/

/-- How a client of the system stands to one of the atomic object: its socket, its
requests and its replies in flight, and the phase of its call. -/
inductive Linked : Socket → List (List UInt8) → List (List UInt8) →
    AtomicCalls.Phase (Request Bitmap) (Reply Bitmap) → Prop
  | ready : Linked .ready [] [] .ready
  | waiting {request : Request Bitmap} (operation : request ≠ .serverShutdown)
      (fits : Fits request.message) :
      Linked (.awaiting request) [request.message] [] (.waiting request)
  | answered {request : Request Bitmap} {reply : Reply Bitmap} (fits : Fits reply.message)
      (same : reply.fid = request.fid) :
      Linked (.awaiting request) [] [reply.message] (.answered request (some reply))
  /-- There is no reply, or it was discarded. -/
  | unanswered {request : Request Bitmap} {reply : Option (Reply Bitmap)} :
      Linked (.awaiting request) [] [] (.answered request reply)
  | pending {request : Request Bitmap} {replies : List (List UInt8)} (fits : Fits request.message) :
      Linked .stale [request.message] replies (.broken (some request))
  | stale {replies : List (List UInt8)} : Linked .stale [] replies (.broken none)

theorem Linked.broken_of_stale {requests replies : List (List UInt8)}
    {phase : AtomicCalls.Phase (Request Bitmap) (Reply Bitmap)}
    (linked : Linked .stale requests replies phase) : ∃ pending, phase = .broken pending := by
  cases linked <;> exact ⟨_, rfl⟩

section Refinement

variable {ι : Type}

/-- The system and the atomic object hold the same bindings, and all clients are linked. -/
structure Refines (net : Net ι) (atomic : AtomicCalls.State ι Bindings (Request Bitmap) (Reply Bitmap)) :
    Prop where
  object : atomic.object = net.bindings
  client : ∀ i, Linked (net.socket i) (net.toServer i) (net.toClient i) (atomic.phase i)

/-- A client whose socket is ready is between two calls. -/
theorem Refines.ready {net : Net ι}
    {atomic : AtomicCalls.State ι Bindings (Request Bitmap) (Reply Bitmap)}
    (refines : Refines net atomic) {i : ι} (idle : net.socket i = .ready) :
    atomic.phase i = .ready := by
  have linked := refines.client i
  rw [idle] at linked
  generalize net.toServer i = requests at linked
  generalize net.toClient i = replies at linked
  generalize atomic.phase i = phase at linked ⊢
  cases linked
  rfl

theorem refines_initial (bindings : Bindings) :
    Refines (Net.initial bindings : Net ι) (.initial bindings) where
  object := rfl
  client := fun _ => .ready

variable [DecidableEq ι] {server : Server} {limit : StringLimit} {net net' : Net ι}
  {atomic : AtomicCalls.State ι Bindings (Request Bitmap) (Reply Bitmap)}

/-- What changes for one client only. -/
theorem Refines.update (refines : Refines net atomic) {i : ι} {socket : Socket}
    {toServer toClient : List (List UInt8)}
    {phase : AtomicCalls.Phase (Request Bitmap) (Reply Bitmap)} {bindings : Bindings} {loop : Loop}
    (linked : Linked socket toServer toClient phase) :
    Refines
      { bindings := bindings, loop := loop, toServer := Function.update net.toServer i toServer,
        toClient := Function.update net.toClient i toClient,
        socket := Function.update net.socket i socket }
      ⟨bindings, Function.update atomic.phase i phase⟩ where
  object := rfl
  client := by
    intro j
    by_cases same : j = i
    · subst same
      simpa using linked
    · simpa [same] using refines.client j

/-- A step of a client on its own is one of the atomic object. -/
theorem client_step {i : ι} {act : AtomicCalls.Act (Request Bitmap) (Reply Bitmap)}
    {phase phase' : AtomicCalls.Phase (Request Bitmap) (Reply Bitmap)}
    (here : atomic.phase i = phase) (own : ∀ request reply, act ≠ .served request reply)
    (moves : AtomicCalls.Moves phase act phase') :
    AtomicCalls.Run server.object atomic [(i, act)]
      { atomic with phase := Function.update atomic.phase i phase' } :=
  .step (.client own (here ▸ moves)) .done

/-- What the atomic object does when the system takes a step. -/
def Simulates (server : Server) (atomic : AtomicCalls.State ι Bindings (Request Bitmap) (Reply Bitmap))
    (net' : Net ι) (seen_ : List (Seen ι)) : Prop :=
  ∃ acts atomic', AtomicCalls.Run server.object atomic acts atomic' ∧
    acts.filterMap seen = seen_ ∧ Refines net' atomic'

theorem rpcReq_simulates (refines : Refines net atomic) {i : ι} {request : Request Bitmap}
    {seen_ : List (Seen ι)} (run : net.rpcReq i request = some (net', seen_)) :
    Simulates server atomic net' seen_ := by
  have linked := refines.client i
  have bindings := refines.object
  unfold Net.rpcReq at run
  generalize socket : net.socket i = before at linked run
  generalize phase : atomic.phase i = phase_ at linked
  cases before with
  | awaiting other => cases run
  | stale =>
      cases run
      obtain ⟨pending, rfl⟩ := linked.broken_of_stale
      refine ⟨_, _, client_step phase (by simp) .refused, rfl, refines.object, fun j => ?_⟩
      rw [← phase, Function.update_eq_self]
      exact refines.client j
  | ready =>
      simp only at run
      split at run
      · rename_i fits
        generalize toServer : net.toServer i = requests at linked run
        generalize toClient : net.toClient i = replies at linked
        cases linked
        have noReplies : net.toClient = Function.update net.toClient i [] := by
          rw [← toClient, Function.update_eq_self]
        by_cases operation : request = .serverShutdown
        · subst operation
          cases run
          refine ⟨_, _, client_step phase (by simp) .send, rfl, ?_⟩
          rw [bindings, noReplies]
          exact refines.update (.pending fits)
        · have called : net' = { net with
              toServer := Function.update net.toServer i ([] ++ [request.message])
              socket := Function.update net.socket i (.awaiting request) } ∧
              seen_ = [.called i request] := by
            cases request <;> first | exact absurd rfl operation | (cases run; exact ⟨rfl, rfl⟩)
          obtain ⟨rfl, rfl⟩ := called
          refine ⟨_, _, client_step phase (by simp) .call, rfl, ?_⟩
          rw [bindings, noReplies]
          exact refines.update (.waiting operation fits)
      · cases run

theorem serveNext_simulates (refines : Refines net atomic) {i : ι} {beyond : Nat → UInt8}
    {l : Locals Bitmap} {seen_ : List (Seen ι)}
    (run : net.serveNext server limit i beyond l = some (net', seen_)) :
    Simulates server atomic net' seen_ := by
  have linked := refines.client i
  have bindings := refines.object
  have noSocket : net.socket = Function.update net.socket i (net.socket i) := by
    rw [Function.update_eq_self]
  unfold Net.serveNext at run
  split at run
  · rename_i bytes later loop requests
    dsimp only at run
    split at run
    · rename_i fits
      cases run
      rw [requests] at linked
      generalize phase : atomic.phase i = phase_ at linked
      generalize toClient : net.toClient i = replies at linked ⊢
      generalize socket : net.socket i = before at linked noSocket
      rw [noSocket]
      cases linked with
      | @waiting request operation short =>
          obtain ⟨left, replied, silent⟩ := turn_message server limit net.bindings beyond l short
          refine ⟨_, _, .step (.served (by rw [phase]; exact .served)) .done, rfl, ?_⟩
          rw [bindings, left]
          cases served : (server.object.serve net.bindings request).2 with
          | some reply =>
              rw [replied reply served] at fits ⊢
              exact refines.update (.answered (fits _ rfl) (fid_of_replied served))
          | none =>
              rw [silent operation served]
              exact refines.update .unanswered
      | @pending request replies short =>
          obtain ⟨left, -, -⟩ := turn_message server limit net.bindings beyond l short
          refine ⟨_, _, .step (.served (by rw [phase]; exact .servedLate)) .done, rfl, ?_⟩
          rw [bindings, left]
          exact refines.update .stale
    · cases run
  · cases run

theorem rpcRep_simulates (refines : Refines net atomic) {i : ι} {beyond : Nat → UInt8}
    {out : Results Bitmap} {seen_ : List (Seen ι)}
    (run : net.rpcRep limit i beyond out = some (net', seen_)) :
    Simulates server atomic net' seen_ := by
  have linked := refines.client i
  have bindings := refines.object
  have noRequest : net.toServer = Function.update net.toServer i (net.toServer i) := by
    rw [Function.update_eq_self]
  unfold Net.rpcRep at run
  split at run
  · rename_i request bytes later socket replies
    cases run
    rw [socket, replies] at linked
    generalize phase : atomic.phase i = phase_ at linked
    generalize toServer : net.toServer i = requests at linked noRequest
    cases linked with
    | @answered _ reply fits same =>
        refine ⟨_, _, client_step phase (by simp) .ret, ?_, ?_⟩
        · rw [← same, clientDecode_message reply beyond out (short_of_fits limit fits)]
          rfl
        · rw [bindings, noRequest]
          exact refines.update .ready
  · cases run

theorem rpcRepTimeout_simulates (refines : Refines net atomic) {i : ι} {seen_ : List (Seen ι)}
    (run : net.rpcRepTimeout i = some (net', seen_)) : Simulates server atomic net' seen_ := by
  have linked := refines.client i
  have bindings := refines.object
  have noRequest : net.toServer = Function.update net.toServer i (net.toServer i) := by
    rw [Function.update_eq_self]
  have noReply : net.toClient = Function.update net.toClient i (net.toClient i) := by
    rw [Function.update_eq_self]
  unfold Net.rpcRepTimeout at run
  split at run
  · rename_i request socket
    cases run
    rw [socket] at linked
    generalize phase : atomic.phase i = phase_ at linked
    generalize toServer : net.toServer i = requests at linked noRequest
    generalize toClient : net.toClient i = replies at linked noReply
    rw [noRequest, noReply]
    cases linked with
    | waiting operation fits =>
        refine ⟨_, _, client_step phase (by simp) .giveUpWaiting, rfl, ?_⟩
        rw [bindings]
        exact refines.update (.pending fits)
    | answered fits same =>
        refine ⟨_, _, client_step phase (by simp) .giveUpAnswered, rfl, ?_⟩
        rw [bindings]
        exact refines.update .stale
    | unanswered =>
        refine ⟨_, _, client_step phase (by simp) .giveUpAnswered, rfl, ?_⟩
        rw [bindings]
        exact refines.update .stale
  · cases run

/-- Without its replies a client is linked as before. -/
theorem Linked.discard {socket : Socket} {requests replies : List (List UInt8)}
    {phase : AtomicCalls.Phase (Request Bitmap) (Reply Bitmap)}
    (linked : Linked socket requests replies phase) : Linked socket requests [] phase := by
  cases linked with
  | ready => exact .ready
  | waiting operation fits => exact .waiting operation fits
  | answered _ _ | unanswered => exact .unanswered
  | pending fits => exact .pending fits
  | stale => exact .stale

/-- **A step of the system** is at most one of the atomic object. -/
theorem step_simulates (refines : Refines net atomic) {event : NetEvent ι} {seen_ : List (Seen ι)}
    (run : net.step server limit event = some (net', seen_)) : Simulates server atomic net' seen_ := by
  cases event with
  | call i request => exact rpcReq_simulates refines run
  | deliver i beyond l => exact serveNext_simulates refines run
  | receive i beyond out => exact rpcRep_simulates refines run
  | timeout i => exact rpcRepTimeout_simulates refines run
  | signal =>
      simp only [Net.step] at run
      split at run
      · cases run
        exact ⟨[], atomic, .done, rfl, refines.object, refines.client⟩
      · cases run
  | discard i =>
      simp only [Net.step] at run
      split at run
      · cases run
      · cases run
        refine ⟨[], atomic, .done, rfl, refines.object, fun j => ?_⟩
        by_cases same : j = i
        · subst same
          simpa using (refines.client j).discard
        · simpa [same] using refines.client j

theorem run_simulates {events : List (NetEvent ι)} :
    ∀ {net : Net ι} {atomic : AtomicCalls.State ι Bindings (Request Bitmap) (Reply Bitmap)}
      {seen_ : List (Seen ι)}, Refines net atomic → net.run server limit events = some (net', seen_) →
      Simulates server atomic net' seen_ := by
  induction events with
  | nil =>
      intro net atomic seen_ refines run
      cases run
      exact ⟨[], atomic, .done, rfl, refines⟩
  | cons event rest ih =>
      intro net atomic seen_ refines run
      obtain ⟨⟨mid, first⟩, turn, run⟩ := Option.bind_eq_some_iff.1 run
      obtain ⟨⟨last, later⟩, turns, run⟩ := Option.bind_eq_some_iff.1 run
      cases run
      obtain ⟨acts, atomic₁, stepped, seen₁, refines₁⟩ := step_simulates refines turn
      obtain ⟨acts', atomic₂, ran, seen₂, refines₂⟩ := ih refines₁ turns
      exact ⟨acts ++ acts', atomic₂, stepped.append ran,
        by rw [List.filterMap_append, seen₁, seen₂], refines₂⟩

/-- Every run of the clients and the server is a run of the atomic object. -/
theorem Net.refines {bindings : Bindings} {events : List (NetEvent ι)} {seen_ : List (Seen ι)}
    (run : (Net.initial bindings : Net ι).run server limit events = some (net, seen_)) :
    Simulates server (.initial bindings) net seen_ :=
  run_simulates (refines_initial bindings) run

/-- **The server is linearizable.**  Whatever the clients call, however their messages
and those of the server overtake each other, and whoever gives up: the requests have an
order in which the server could have handled them one at a time, and every reply that a
method returns was made for this call, at its place in that order, between the call and
the return. -/
theorem Net.linearizable (server : Server) (limit : StringLimit) (bindings : Bindings)
    (events : List (NetEvent ι)) (net : Net ι) (seen_ : List (Seen ι))
    (run : (Net.initial bindings).run server limit events = some (net, seen_)) :
    ∃ acts : List (ι × AtomicCalls.Act (Request Bitmap) (Reply Bitmap)),
      acts.filterMap seen = seen_ ∧
      AtomicCalls.Executes server.object bindings (AtomicCalls.services acts) net.bindings ∧
      ∀ before i request reply later, acts = before ++ (i, .ret request reply) :: later →
        ∃ earlier during after, before = earlier ++ (i, .call request) ::
            (during ++ (i, .served request (some reply)) :: after) ∧
          AtomicCalls.own i during = [] ∧ AtomicCalls.own i after = [] := by
  obtain ⟨acts, atomic, ran, saw, refines⟩ := Net.refines run
  refine ⟨acts, saw, ?_, ?_⟩
  · rw [← refines.object]
    exact ran.served
  · rintro before i request reply later rfl
    exact ran.linearizes rfl

/-- Thread 7 of a machine, on two PUs. -/
def oneThread : Bindings := ⟨fun who => if who = 7 then some {0, 1} else none, fun _ => {0, 1}⟩

/-- One client sets the binding of the thread while another asks for it; the server takes
the second request first, and the first client has its reply last. -/
def crossingCalls : List (NetEvent Nat) :=
  [.call 0 (.setCpubind ⟨5, 7, {1}⟩), .call 1 (.getCpubind ⟨5, 7⟩), .deliver 1 (fun _ => 0) default,
    .deliver 0 (fun _ => 0) default, .receive 1 (fun _ => 255) default,
    .receive 0 (fun _ => 0) default]

theorem Net.linearizable_crossingCalls :
    ∃ (net : Net Nat) (acts : List (Nat × AtomicCalls.Act (Request Bitmap) (Reply Bitmap))),
      acts.filterMap seen =
        [.called 0 (.setCpubind ⟨5, 7, {1}⟩), .called 1 (.getCpubind ⟨5, 7⟩),
          .returned 1 (.getCpubind ⟨5, 7⟩) (.ok (.getCpubind (rcInt .success) {0, 1})),
          .returned 0 (.setCpubind ⟨5, 7, {1}⟩) (.ok (.setCpubind (rcInt .success)))] ∧
      AtomicCalls.Executes twoPuServer.object oneThread (AtomicCalls.services acts) net.bindings := by
  obtain ⟨acts, saw, executes, -⟩ :=
    Net.linearizable twoPuServer stringLimit64 oneThread crossingCalls _ _ rfl
  exact ⟨_, acts, saw, executes⟩

/-! ## A binding that was set is what is read -/

/-- A request to bind the given thread. -/
def Binds (who : Int32) (request : Request Bitmap) : Prop :=
  ∃ a : SetCpubindArgs Bitmap, request = .setCpubind a ∧ a.who = who

/-- The service of a binding request. -/
theorem served_setCpubind {b : Bindings} {a : SetCpubindArgs Bitmap} {reply : Reply Bitmap}
    (served : (server.object.serve b (.setCpubind a)).2 = some reply) :
    ∃ topo, server.get a.flags = .ok topo ∧
      reply = .setCpubind (rcInt (if b.grants topo a.who a.cpuset then .success else .errNotSupported)) ∧
      (server.object.serve b (.setCpubind a)).1 = b.set topo a.who a.cpuset := by
  simp only [Server.object] at served ⊢
  split at served
  · rename_i reply' answered
    cases served
    obtain ⟨reply', run, same⟩ := map_ok answered
    cases same
    obtain ⟨topo, got, run⟩ := bind_ok run
    obtain ⟨⟨rc, _⟩, status, run⟩ := bind_ok run
    cases run
    refine ⟨topo, got, ?_, ?_⟩
    · rw [Os.taskSetCpubindFromCpuset] at status
      change statusOf () (if b.grants topo a.who a.cpuset then _ else _) = _ at status
      split at status
      · rename_i granted
        cases status
        rw [if_pos granted]
      · rename_i denied
        cases status
        rw [if_neg denied]
    · simp only [Bindings.after, got]
  · cases served

/-- The service of a request for a binding. -/
theorem served_getCpubind {b : Bindings} {a : GetCpubindArgs} {reply : Reply Bitmap}
    (served : (server.object.serve b (.getCpubind a)).2 = some reply) :
    ∃ topo, server.get a.flags = .ok topo ∧
      reply = match b.bound a.who with
        | some mask => .getCpubind (rcInt .success) (getTidCpubind topo.completeCpuset mask)
        | none => .getCpubind (rcInt .errHwloc) ∅ := by
  simp only [Server.object] at served
  split at served
  · rename_i reply' answered
    cases served
    obtain ⟨reply', run, same⟩ := map_ok answered
    cases same
    obtain ⟨topo, got, run⟩ := bind_ok run
    obtain ⟨⟨rc, found⟩, status, run⟩ := bind_ok run
    cases run
    refine ⟨topo, got, ?_⟩
    have read : b.os.taskGetCpubind topo a.who =
        match b.bound a.who with
        | some mask => .ok (getTidCpubind topo.completeCpuset mask)
        | none => .error (.ret .errHwloc) := by
      simp only [Os.taskGetCpubind, Bindings.os]
      cases b.bound a.who <;> rfl
    rw [read] at status
    cases bound : b.bound a.who with
    | some mask =>
        rw [bound] at status
        cases status
        rfl
    | none =>
        rw [bound] at status
        cases status
        rfl
  · cases served

/-- The mask of a thread and what it may have. -/
def Bindings.thread (b : Bindings) (who : Int32) : Option Bitmap × Bitmap := (b.bound who, b.allowed who)

/-- No request changes what a thread may have. -/
theorem allowed_frame (b : Bindings) (request : Request Bitmap) :
    (server.object.serve b request).1.allowed = b.allowed := by
  simp only [Server.object, Bindings.after]
  cases request with
  | setCpubind a =>
      simp only [Bindings.set]
      split
      · split <;> rfl
      · rfl
  | _ => rfl

/-- Only requests to bind a thread change its binding. -/
theorem bound_frame (who : Int32) (b : Bindings) (request : Request Bitmap)
    (other : ¬ Binds who request) :
    (server.object.serve b request).1.bound who = b.bound who := by
  simp only [Server.object, Bindings.after]
  cases request with
  | setCpubind a =>
      have different : who ≠ a.who := fun same => other ⟨a, rfl, same.symm⟩
      simp only [Bindings.set]
      split
      · split
        · exact Function.update_of_ne different _ _
        · rfl
      · rfl
  | _ => rfl

theorem thread_frame (who : Int32) (b : Bindings) (request : Request Bitmap)
    (other : ¬ Binds who request) :
    (server.object.serve b request).1.thread who = b.thread who := by
  rw [Bindings.thread, bound_frame who b request other, allowed_frame]
  rfl

theorem rcInt_success {rc : Rc} : rcInt rc = rcInt .success ↔ rc = .success := by
  cases rc <;> decide

omit [DecidableEq ι] in
theorem seen_returned {act : ι × AtomicCalls.Act (Request Bitmap) (Reply Bitmap)} {i : ι}
    {request : Request Bitmap} {reply : Reply Bitmap}
    (saw : seen act = some (.returned i request (.ok reply))) : act = (i, .ret request reply) := by
  obtain ⟨j, act⟩ := act
  cases act <;> cases saw
  rfl

/-- Only a shutdown request is sent without waiting. -/
theorem step_sent {event : NetEvent ι} {seen_ : List (Seen ι)} {i : ι} {request : Request Bitmap}
    (run : net.step server limit event = some (net', seen_)) (member : .sent i request ∈ seen_) :
    request = .serverShutdown := by
  cases event with
  | call j request' =>
      simp only [Net.step, Net.rpcReq] at run
      split at run
      · cases run
      · cases run
        simp at member
      · split at run
        · split at run
          · cases run
            simp at member
            exact member.2
          · cases run
            simp at member
        · cases run
  | deliver j beyond l =>
      simp only [Net.step, Net.serveNext] at run
      split at run
      · split at run
        · cases run
          cases member
        · cases run
      · cases run
  | receive j beyond out =>
      simp only [Net.step, Net.rpcRep] at run
      split at run
      · cases run
        simp at member
      · cases run
  | timeout j =>
      simp only [Net.step, Net.rpcRepTimeout] at run
      split at run
      · cases run
        simp at member
      · cases run
  | signal =>
      simp only [Net.step] at run
      split at run
      · cases run
        cases member
      · cases run
  | discard j =>
      simp only [Net.step] at run
      split at run
      · cases run
      · cases run
        cases member

theorem run_sent {events : List (NetEvent ι)} (i : ι) (request : Request Bitmap) :
    ∀ {net : Net ι} {seen_ : List (Seen ι)}, net.run server limit events = some (net', seen_) →
      .sent i request ∈ seen_ → request = .serverShutdown := by
  induction events with
  | nil =>
      intro net seen_ run member
      cases run
      cases member
  | cons event rest ih =>
      intro net seen_ run member
      obtain ⟨⟨mid, first⟩, turn, run⟩ := Option.bind_eq_some_iff.1 run
      obtain ⟨⟨last, later⟩, turns, run⟩ := Option.bind_eq_some_iff.1 run
      cases run
      rcases List.mem_append.1 member with here | there
      · exact step_sent turn here
      · exact ih turns there

/-- Nobody is seen to call for a binding of the thread. -/
def Unbinding (who : Int32) (seen_ : List (Seen ι)) : Prop :=
  ∀ i request, Binds who request → .called i request ∉ seen_

omit [DecidableEq ι] in
theorem noWrites_of_unbinding {who : Int32} {seen_ : List (Seen ι)}
    {acts : List (ι × AtomicCalls.Act (Request Bitmap) (Reply Bitmap))}
    (saw : acts.filterMap seen = seen_) (quiet : Unbinding who seen_)
    (sends : ∀ i request, .sent i request ∈ seen_ → request = .serverShutdown) :
    AtomicCalls.NoWrites (Binds who) acts := by
  subst saw
  intro i request binds
  constructor
  · intro member
    exact quiet i request binds (List.mem_filterMap.2 ⟨_, member, rfl⟩)
  · intro member
    obtain ⟨a, rfl, -⟩ := binds
    cases sends i _ (List.mem_filterMap.2 ⟨_, member, rfl⟩)

/-- A binding request that may still be served is in flight. -/
theorem Linked.in_flight {socket : Socket} {requests replies : List (List UInt8)}
    {phase : AtomicCalls.Phase (Request Bitmap) (Reply Bitmap)} {request : Request Bitmap}
    (linked : Linked socket requests replies phase) (pending : phase.pending = some request) :
    request.message ∈ requests := by
  cases linked <;> cases pending <;> exact List.mem_singleton_self _

end Refinement

end QuoVadis.Kernel.Rmi
