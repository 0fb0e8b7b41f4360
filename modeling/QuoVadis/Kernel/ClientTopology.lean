/-
# Kernel.ClientTopology -- a client has the topology its daemon has

Splits and counts are worked out by the clients, each with a topology of its own, while
pools and cpusets come from the daemon.  That this is one hardware is up to `connect`: the
client says hello with the kind of topology it wants, gets the path of a file, and loads
the file instead of asking the machine.

* `connect_loads`: while the daemon serves and nobody takes its files away, a client of its
  release that has a reply to its hello ends up with the topology the daemon uses for the
  requests of this client, whatever other clients do meanwhile;
* a client of another release gets nothing, and the daemon's answer is why.

What hwloc loads is a parameter (`hwlocLoad`), and so is what it writes; that it can read
what it has written is a field of `Exported`.
-/
import QuoVadis.Kernel.DisableSmt
import QuoVadis.Kernel.IntrinsicScopes
import QuoVadis.Kernel.SessionDir

namespace QuoVadis.Kernel

set_option autoImplicit false

/-! ## Topologies that are the same -/

/-- Objects and how they are looked up, allowed PUs and devices make a topology. -/
theorem Hwloc.eq_of {h h' : Hwloc} (objs : h'.objs = h.objs)
    (lookup : h'.objInsideCpuset = h.objInsideCpuset) (os : h'.osDevices = h.osDevices)
    (allowed : h'.allowedCpuset = h.allowedCpuset) (devmap : h'.devmap = h.devmap) : h' = h := by
  obtain ⟨o, inside, insideEq, a, d, t⟩ := h
  obtain ⟨o', inside', insideEq', a', d', t'⟩ := h'
  cases objs
  cases lookup
  cases os
  cases allowed
  cases devmap
  rfl

/-- The devices are discovered, and nothing else changes. -/
theorem Hwloc.topologyLoad_ok_iff {h h' : Hwloc} {gpuSupport : Bool} {topo : IoTopology} :
    h.topologyLoad gpuSupport topo = .ok h' ↔ mDiscoverDevices gpuSupport topo = .ok h'.devmap ∧
      h'.objs = h.objs ∧ h'.objInsideCpuset = h.objInsideCpuset ∧
      (h'.osDevices = !topo.osdevs.isEmpty) ∧ h'.allowedCpuset = h.allowedCpuset := by
  rw [Hwloc.topologyLoad]
  constructor
  · intro run
    split at run
    · rename_i devmap found
      cases run
      exact ⟨found, rfl, rfl, rfl, rfl⟩
    · cases run
  · rintro ⟨found, objs, lookup, os, allowed⟩
    split
    · rename_i devmap found'
      rw [found'] at found
      exact congrArg Except.ok
        (Eq.symm (Hwloc.eq_of objs lookup os allowed (Except.ok.inj found).symm))
    · rename_i fault failed
      rw [failed] at found
      cases found

/-- What is loaded has the devices that hwloc reports for its objects. -/
theorem Hwloc.topologyLoadFlags_io {hwlocRestrict : Restrict} {flags : Int64}
    {h h' : Hwloc} {origBitmap : Bitmap} {gpuSupport : Bool}
    {io : (HwObjType → List Bitmap) → IoTopology}
    (run : h.topologyLoadFlags hwlocRestrict flags origBitmap gpuSupport io = .ok h') :
    mDiscoverDevices gpuSupport (io h'.objs) = .ok h'.devmap ∧
      h'.osDevices = !(io h'.objs).osdevs.isEmpty := by
  have same : ∀ left : Hwloc, left.topologyLoad gpuSupport (io left.objs) = .ok h' →
      mDiscoverDevices gpuSupport (io h'.objs) = .ok h'.devmap ∧
        h'.osDevices = !(io h'.objs).osdevs.isEmpty := by
    intro left run
    obtain ⟨found, objs, -, os, -⟩ := Hwloc.topologyLoad_ok_iff.1 run
    rw [objs]
    exact ⟨found, os⟩
  rw [Hwloc.topologyLoadFlags] at run
  split at run
  · obtain ⟨left, -, run⟩ := bind_ok run
    exact same left run
  · exact same h run

namespace Rmi

open QuoVadis.Theory
open SessionDir (Files Node Qvid topoFname sessionDir topoTypes UndisturbedRun)

/-! ## Files by the bytes of their names -/

/-- What is in the file at a path. -/
def readFile (fs : Files) (path : StdString) : Option (List UInt8) :=
  (String.fromUTF8? ⟨path.toArray⟩).bind fun s => fs.file s.toList

/-- The path of a topology file, as the daemon keeps it. -/
def pathText (path : Word) : StdString := stdString (String.ofList path)

theorem readFile_pathText (fs : Files) (path : Word) : readFile fs (pathText path) = fs.file path := by
  rw [readFile, pathText, fromUTF8_stdString, Option.bind_some, String.toList_ofList]

theorem pathText_ne_nil {path : Word} (some_ : path ≠ []) : pathText path ≠ [] := by
  intro none_
  have same : String.fromUTF8? ⟨(pathText path).toArray⟩ = some (String.ofList path) :=
    fromUTF8_stdString _
  have empty : String.fromUTF8? ⟨(stdString "").toArray⟩ = some "" := fromUTF8_stdString _
  rw [none_, show ([] : StdString) = stdString "" from rfl, empty] at same
  apply some_
  rw [← String.toList_ofList (l := path), ← Option.some.inj same]
  rfl

/-! ## The source's functions -/

/-- A topology as hwloc has loaded it. -/
structure Loaded where
  hwloc : Hwloc
  /-- `hwloc_topology_get_topology_cpuset`. -/
  origBitmap : Bitmap
  /-- What it says of the devices when these are its objects. -/
  io : (HwObjType → List Bitmap) → IoTopology

section Load

variable (hwlocRestrict : Restrict) (gpuSupport : Bool)
  (hwlocLoad : Option (List UInt8) → Option Loaded)

/-- `topology_load`, of the machine or of what a file holds. -/
def topologyLoad (flags : Int64) (source : Option (List UInt8)) : Qv Hwloc :=
  match hwlocLoad source with
  | none => .error (.ret .errHwloc)
  | some l => l.hwloc.topologyLoadFlags hwlocRestrict flags l.origBitmap gpuSupport l.io

/-- `topology_init`, and then `topology_load`. -/
def topologyInit (fs : Files) (flags : Int64) (xmlPath : StdString) : Qv Hwloc :=
  if xmlPath = [] then topologyLoad hwlocRestrict gpuSupport hwlocLoad flags none
  else
    match readFile fs xmlPath with
    | none => .error (.ret .errHwloc)
    | some content =>
        topologyLoad hwlocRestrict gpuSupport hwlocLoad (flags ||| Hwloc.topoXml) (some content)

/-- The kind of topology that `connect` says hello with. -/
def helloFlags (scopeFlags : Int64) : Int64 :=
  if scopeFlags &&& scopeFlagNoSmt ≠ 0 then 2 else 1

/-- `connect`, from the reply to its hello on: the status, and the topology. -/
def connect (fs : Files) (scopeFlags : Int64) (rpcrc : Int32) (hwtopoPath : StdString) :
    Qv (Int32 × Option Hwloc) :=
  if rpcrc ≠ rcInt .success then .ok (rpcrc, none)
  else
    match topologyInit hwlocRestrict gpuSupport hwlocLoad fs (helloFlags scopeFlags) hwtopoPath with
    | .ok hwloc => .ok (rcInt .success, some hwloc)
    | .error (.ret _) => .ok (rcInt .resUnavailable, none)
    | .error fault => .error fault

/-- What a daemon has loaded of the machine and written into a file, for one kind of
topology, if hwloc can read it back. -/
structure Exported (kind : Nat) (topo : Topology) (path : Word) (content : List UInt8) : Prop where
  file : topo.topologyFile = pathText path
  loaded : topologyLoad hwlocRestrict gpuSupport hwlocLoad (Int64.ofNat kind) none = .ok topo.hwloc
  readBack : ∃ machine file, hwlocLoad none = some machine ∧ hwlocLoad (some content) = some file ∧
    file.hwloc.objs = topo.hwloc.objs ∧ file.hwloc.objInsideCpuset = topo.hwloc.objInsideCpuset ∧
    file.hwloc.allowedCpuset = topo.hwloc.allowedCpuset ∧
    file.io topo.hwloc.objs = machine.io topo.hwloc.objs

end Load

section

variable {hwlocRestrict : Restrict} {gpuSupport : Bool}
  {hwlocLoad : Option (List UInt8) → Option Loaded}

/-- **The file of a topology loads as that topology.** -/
theorem Exported.reloads {kind : Nat} {topo : Topology} {path : Word} {content : List UInt8}
    {flags : Int64} (exported : Exported hwlocRestrict gpuSupport hwlocLoad kind topo path content)
    (imported : flags &&& Hwloc.topoXml ≠ 0) :
    topologyLoad hwlocRestrict gpuSupport hwlocLoad flags (some content) = .ok topo.hwloc := by
  obtain ⟨-, loaded, machine, file, own, read, objs, lookup, allowed, io⟩ := exported
  rw [topologyLoad, own] at loaded
  obtain ⟨devices, os⟩ := Hwloc.topologyLoadFlags_io loaded
  rw [topologyLoad, read]
  change Hwloc.topologyLoadFlags _ _ _ _ _ _ = _
  -- hyper-threads are not disabled again
  rw [Hwloc.topologyLoadFlags, if_neg fun smt => imported smt.2]
  refine Hwloc.topologyLoad_ok_iff.2 ⟨?_, objs.symm, lookup.symm, ?_, allowed.symm⟩
  · rwa [objs, io]
  · rwa [objs, io]

theorem Exported.init {kind : Nat} {topo : Topology} {path : Word} {content : List UInt8}
    {fs : Files} {flags : Int64}
    (exported : Exported hwlocRestrict gpuSupport hwlocLoad kind topo path content)
    (imported : (flags ||| Hwloc.topoXml) &&& Hwloc.topoXml ≠ 0) (named : path ≠ [])
    (inPlace : fs.file path = some content) :
    topologyInit hwlocRestrict gpuSupport hwlocLoad fs flags topo.topologyFile = .ok topo.hwloc := by
  rw [exported.file, topologyInit, if_neg (pathText_ne_nil named), readFile_pathText, inPlace]
  exact exported.reloads imported

/-- A reply that is returned was made by the server. -/
theorem served_of_returned {ι : Type} [DecidableEq ι] {server : Server} {limit : StringLimit}
    {bindings : Bindings} {events : List (NetEvent ι)} {net : Net ι} {seen_ : List (Seen ι)}
    {i : ι} {request : Request Bitmap} {reply : Reply Bitmap}
    (run : (Net.initial bindings).run server limit events = some (net, seen_))
    (returned : .returned i request (.ok reply) ∈ seen_) :
    ∃ b, (server.object.serve b request).2 = some reply := by
  obtain ⟨acts, atomic, ran, rfl, -⟩ := Net.refines run
  obtain ⟨act, member, saw⟩ := List.mem_filterMap.1 returned
  obtain rfl := seen_returned saw
  -- nothing is a write, so nothing that is read changes
  let writes : Request Bitmap → Prop := fun _ => False
  have frame : ∀ b request, ¬ writes request →
      (fun _ => () : Bindings → Unit) (server.object.serve b request).1 = () := fun _ _ _ => rfl
  obtain ⟨b, -, served⟩ := ran.reads_settled (fun _ => ()) frame rfl
    (fun _ ⟨_, _, none_⟩ => none_) (fun _ _ none_ => none_.elim) member
  exact ⟨b, served⟩

/-- The answer to a hello. -/
theorem served_hello {server : Server} {b : Bindings} {a : HelloArgs} {topo : Topology}
    {reply : Reply Bitmap} (got : server.get a.flags = .ok topo)
    (served : (server.object.serve b (.hello a)).2 = some reply) :
    reply = .hello (rcInt (if server.version ≠ a.clientVersion then .errNotSupported else .success))
      topo.topologyFile := by
  simp only [Server.object, Server.answer, Server.serve, got, bind, Except.bind, pure, Except.pure,
    Except.map] at served
  exact (Option.some.inj served).symm

theorem get_helloFlags (server : Server) (scopeFlags : Int64) :
    server.get (helloFlags scopeFlags) =
      .ok (if scopeFlags &&& scopeFlagNoSmt ≠ 0 then server.noSmt else server.full) := by
  rw [Server.get, helloFlags]
  by_cases noSmt : scopeFlags &&& scopeFlagNoSmt ≠ 0
  · rw [if_pos noSmt, if_neg (by decide), if_pos (by decide), if_pos noSmt]
  · rw [if_neg noSmt, if_pos (by decide), if_neg noSmt]

theorem topoFname_ne_nil (base : Word) (pid flags : Nat) : topoFname base pid flags ≠ [] := by
  rw [topoFname]
  exact List.append_ne_nil_of_right_ne_nil _ (List.cons_ne_nil _ _)

end

/-- **A client that has connected has the daemon's topology**: the one the daemon takes for
the requests of this client.  The clients of the daemon and the files of the node are seen
in a run each, and the daemon's server is the one whose topologies are exported.  The daemon
still serves when the client loads the file, and daemons have not disturbed each other; what
other clients do does not matter. -/
theorem connect_loads {ι : Type} [DecidableEq ι] (hwlocRestrict : Restrict) (gpuSupport : Bool)
    (hwlocLoad : Option (List UInt8) → Option Loaded) (server : Server) (limit : StringLimit)
    (bindings : Bindings) (events : List (NetEvent ι)) (net : Net ι) (seen_ : List (Seen ι))
    (tmpdir : Word) (xml : Nat → Nat → List UInt8) (fs : Files) (history : List SessionDir.Event) (node : Node)
    (undisturbed : UndisturbedRun tmpdir xml (.initial fs) history)
    (came : (Node.initial fs).run tmpdir xml history = some node) (pid : Nat) (q : Qvid)
    (there : node.daemon pid = some q) (serving : q.phase = .serving)
    (full : Exported hwlocRestrict gpuSupport hwlocLoad 1 server.full
      (topoFname (sessionDir tmpdir q.portno) pid 1) (xml pid 1))
    (noSmt : Exported hwlocRestrict gpuSupport hwlocLoad 2 server.noSmt
      (topoFname (sessionDir tmpdir q.portno) pid 2) (xml pid 2))
    (run : (Net.initial bindings).run server limit events = some (net, seen_)) (i : ι)
    (clientVersion : UInt64) (whoisit : Int32) (scopeFlags : Int64) (rpcrc : Int32)
    (hwtopoPath : StdString)
    (returned : .returned i (.hello ⟨clientVersion, helloFlags scopeFlags, whoisit⟩)
      (.ok (.hello rpcrc hwtopoPath)) ∈ seen_) :
    ∃ topo, server.get (connectFlags scopeFlags) = .ok topo ∧
      connect hwlocRestrict gpuSupport hwlocLoad node.fs scopeFlags rpcrc hwtopoPath =
        .ok (if server.version ≠ clientVersion then (rcInt .errNotSupported, none)
          else (rcInt .success, some topo.hwloc)) := by
  have inPlace : q.InPlace tmpdir xml node.fs pid :=
    SessionDir.run_inPlace (fun _ _ none_ => by cases none_) undisturbed came pid q there
  have file : ∀ kind ∈ topoTypes,
      node.fs.file (topoFname (sessionDir tmpdir q.portno) pid kind) = some (xml pid kind) := by
    intro kind member
    refine inPlace.content (.inr serving) kind ?_
    rwa [inPlace.complete serving]
  obtain ⟨b, served⟩ := served_of_returned run returned
  obtain ⟨rfl, rfl⟩ := Reply.hello.inj (served_hello (get_helloFlags server scopeFlags) served)
  refine ⟨_, get_connectFlags server scopeFlags, ?_⟩
  have loads : topologyInit hwlocRestrict gpuSupport hwlocLoad node.fs (helloFlags scopeFlags)
      (if scopeFlags &&& scopeFlagNoSmt ≠ 0 then server.noSmt else server.full).topologyFile =
        .ok (if scopeFlags &&& scopeFlagNoSmt ≠ 0 then server.noSmt else server.full).hwloc := by
    rw [helloFlags]
    by_cases smt : scopeFlags &&& scopeFlagNoSmt ≠ 0
    · rw [if_pos smt, if_pos smt]
      exact noSmt.init (by decide) (topoFname_ne_nil _ _ _) (file 2 (by decide))
    · rw [if_neg smt, if_neg smt]
      exact full.init (by decide) (topoFname_ne_nil _ _ _) (file 1 (by decide))
  rw [connect, loads]
  by_cases other : server.version ≠ clientVersion
  · simp only [if_pos other]
    exact if_pos (fun same => absurd (rcInt_success.1 same) (by decide))
  · simp only [if_neg other]
    exact if_neg (fun failed => failed rfl)

/-- `/tmp/quo-vadisd.5000/hwtopo.7-1.xml` and `-2.xml`, by their bytes. -/
def daemonFile (kind : UInt8) : StdString :=
  [47, 116, 109, 112, 47, 113, 117, 111, 45, 118, 97, 100, 105, 115, 100, 46, 53, 48, 48, 48, 47,
    104, 119, 116, 111, 112, 111, 46, 55, 45, 48 + kind, 46, 120, 109, 108]

theorem daemonFile_one : daemonFile 1 = pathText (topoFname (sessionDir "/tmp".toList 5000) 7 1) := by
  decide

theorem daemonFile_two : daemonFile 2 = pathText (topoFname (sessionDir "/tmp".toList 5000) 7 2) := by
  decide

/-- The machine of `twoCores`, without devices. -/
def twoCoreMachine : Loaded := ⟨.twoCores, {0, 1, 2, 3}, fun _ => reporting []⟩

/-- hwloc, on this machine, and with two files of two bytes. -/
def loadTwoCores (full noSmt : Hwloc) : Option (List UInt8) → Option Loaded
  | none => some twoCoreMachine
  | some [7, 1] => some ⟨full, {0, 1, 2, 3}, fun _ => reporting []⟩
  | some [7, 2] => some ⟨noSmt, {0, 2}, fun _ => reporting []⟩
  | some _ => none

/-- Daemon 7, with the two topologies. -/
def twoCoreServer (full noSmt : Hwloc) : Server where
  version := 0x000100
  full := ⟨full, fun _ => 0, {0, 1, 2, 3}, {0, 1, 2, 3}, daemonFile 1⟩
  noSmt := ⟨noSmt, fun _ => 0, {0, 2}, {0, 2}, daemonFile 2⟩

/-- A client says hello, for a scope without hyper-threads. -/
def oneHello : HelloArgs := ⟨0x000100, helloFlags 1, 100⟩

set_option maxRecDepth 20000 in
/-- The hello is answered with the name of the second file. -/
theorem helloGoesThrough (full noSmt : Hwloc) :
    ∃ net : Net (Fin 1), (Net.initial oneThread).run (twoCoreServer full noSmt) stringLimit64
        [.call 0 (.hello oneHello), .deliver 0 (fun _ => 0) default, .receive 0 (fun _ => 255) default] =
      some (net, [.called 0 (.hello oneHello),
        .returned 0 (.hello oneHello) (.ok (.hello (rcInt .success) (daemonFile 2)))]) := by
  obtain ⟨sent, calls, delivers⟩ : ∃ sent : Net (Fin 1),
      (Net.initial oneThread).step (twoCoreServer full noSmt) stringLimit64 (.call 0 (.hello oneHello)) =
        some (sent, [.called 0 (.hello oneHello)]) ∧
      ∃ answered : Net (Fin 1), sent.step (twoCoreServer full noSmt) stringLimit64
          (.deliver 0 (fun _ => 0) default) = some (answered, []) ∧
        answered.socket 0 = .awaiting (.hello oneHello) ∧ answered.toClient 0 =
          [(Reply.hello (rcInt .success) (daemonFile 2) : Reply Bitmap).message] :=
    ⟨_, rfl, _, rfl, rfl, rfl⟩
  obtain ⟨answered, delivers, waits, reply⟩ := delivers
  have decodes : clientDecode stringLimit64
      ⟨(Reply.hello (rcInt .success) (daemonFile 2) : Reply Bitmap).message, fun _ => 255⟩ default .hello =
      (.ok (.hello (rcInt .success) (daemonFile 2)) : Qv (Reply Bitmap)) := rfl
  obtain ⟨net, receives⟩ : ∃ net : Net (Fin 1),
      answered.step (twoCoreServer full noSmt) stringLimit64 (.receive 0 (fun _ => 255) default) =
        some (net, [.returned 0 (.hello oneHello) (.ok (.hello (rcInt .success) (daemonFile 2)))]) := by
    simp only [Net.step, Net.rpcRep, waits, reply, Request.fid, decodes]
    exact ⟨_, rfl⟩
  refine ⟨net, ?_⟩
  simp only [Net.run, calls, delivers, receives, Option.bind_eq_bind, Option.bind_some]
  rfl

theorem connect_loads_oneClient :
    ∃ (full noSmt : Hwloc) (node : Node) (net : Net (Fin 1)) (hwtopoPath : StdString),
      (Net.initial oneThread).run (twoCoreServer full noSmt) stringLimit64
          [.call 0 (.hello oneHello), .deliver 0 (fun _ => 0) default, .receive 0 (fun _ => 255) default] =
        some (net, [.called 0 (.hello oneHello),
          .returned 0 (.hello oneHello) (.ok (.hello (rcInt .success) hwtopoPath))]) ∧
      connect Hwloc.removeOutside true (loadTwoCores full noSmt) node.fs 1 (rcInt .success) hwtopoPath =
        .ok (rcInt .success, some noSmt) := by
  obtain ⟨full, loaded⟩ : ∃ h, Hwloc.twoCores.topologyLoadFlags Hwloc.removeOutside 1 {0, 1, 2, 3} true
      (fun _ => reporting []) = .ok h := ⟨_, rfl⟩
  obtain ⟨noSmt, loaded'⟩ : ∃ h, Hwloc.twoCores.topologyLoadFlags Hwloc.removeOutside 2 {0, 1, 2, 3} true
      (fun _ => reporting []) = .ok h := ⟨_, rfl⟩
  obtain ⟨node, q, came, there, serving, port⟩ : ∃ (node : Node) (q : Qvid),
      (Node.initial SessionDir.emptyTmp).run "/tmp".toList SessionDir.shortXml
        (SessionDir.oneStart 7 5000) = some node ∧
      node.daemon 7 = some q ∧ q.phase = .serving ∧ q.portno = 5000 := ⟨_, _, rfl, rfl, rfl, rfl⟩
  obtain ⟨net, run⟩ := helloGoesThrough full noSmt
  have full_ : Exported Hwloc.removeOutside true (loadTwoCores full noSmt) 1
      (twoCoreServer full noSmt).full (topoFname (sessionDir "/tmp".toList q.portno) 7 1)
      (SessionDir.shortXml 7 1) :=
    ⟨by rw [port]; exact daemonFile_one, loaded, _, _, rfl, rfl, rfl, rfl, rfl, rfl⟩
  have noSmt_ : Exported Hwloc.removeOutside true (loadTwoCores full noSmt) 2
      (twoCoreServer full noSmt).noSmt (topoFname (sessionDir "/tmp".toList q.portno) 7 2)
      (SessionDir.shortXml 7 2) :=
    ⟨by rw [port]; exact daemonFile_two, loaded', _, _, rfl, rfl, rfl, rfl, rfl, rfl⟩
  obtain ⟨topo, got, connects⟩ := connect_loads Hwloc.removeOutside true (loadTwoCores full noSmt)
    (twoCoreServer full noSmt) stringLimit64 oneThread _ net _ "/tmp".toList SessionDir.shortXml
    SessionDir.emptyTmp (SessionDir.oneStart 7 5000) node SessionDir.oneStart_undisturbed came 7 q
    there serving full_ noSmt_ run 0 0x000100 100 1 (rcInt .success) (daemonFile 2)
    (by simp [oneHello])
  refine ⟨full, noSmt, node, net, _, run, connects.trans ?_⟩
  cases got
  rfl

end Rmi

end QuoVadis.Kernel
