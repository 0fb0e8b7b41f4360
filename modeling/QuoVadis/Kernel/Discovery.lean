/-
# Kernel.Discovery -- how clients and daemons find each other

There is no registry.  A client reads `/proc`, picks the processes whose name is that of
the daemon, and takes the port from the command line of each or, failing that, from its
environment (`discover_impl`).  It does so again and again, with growing pauses, until it
has found what it looks for or its time is up (`qvi_session_discover`).  The daemon takes
its port from the same two places (`qvi_rmi_get_url`), with other functions.

* `portOfPid_daemon_iff`: they agree about a daemon exactly if its command line says one
  thing only, and the port in its environment has no equals sign;
* `sessionDiscover_ok`: a search that is over has seen, at its last attempt, what it
  reports, and the last attempt is neither early nor late;
* `connectUrl_daemon`: so a client that goes on connects to the URL of a daemon, of the
  one it was told of if that is there, and it does go on if there is a daemon.
-/
import QuoVadis.Kernel.PortDiscovery
import QuoVadis.Theory.Backoff

namespace QuoVadis.Kernel.PortDiscovery

open QuoVadis.Theory

set_option autoImplicit false

/-- `QVI_ENV_PORT`. -/
def envPort : Word := "QV_PORT".toList

/-! ## What is read of `/proc` -/

/-- A file in `/proc`. -/
structure ProcEntry where
  name : Word
  isDirectory : Bool
  /-- The first line of `comm`, if there is one. -/
  comm : Option Word

/-- `/proc`; what cannot be read is `none`. -/
structure ProcFs where
  entries : Option (List ProcEntry)
  cmdline : Int → Option (List Char)
  environ : Int → Option (List Char)

/-- `is_numeric`. -/
def isNumeric (str : Word) : Bool :=
  !str.isEmpty && str.all Char.isDigit

/-- A turn of the loop of `qvi_running`. -/
def runningStep (name : Word) (pids : List Int) (entry : ProcEntry) : Qv (List Int) :=
  if entry.isDirectory && isNumeric entry.name && entry.comm = some name then do
    let pid ← qviStoi entry.name
    .ok (pids ++ [pid])
  else .ok pids

/-- `qvi_running`. -/
def qviRunning (name : Word) (proc : ProcFs) : Qv (Rc × List Int) :=
  match proc.entries with
  | none => .ok (.errFileIo, [])
  | some entries => do
      let pids ← entries.foldlM (runningStep name) []
      .ok (.success, pids)

/-- The loop of `qvi_pid_environ`; `entry` is what was read since `start`. -/
def environLoop (entry : Word) : List Char → List Word
  | [] => if entry = [] then [] else [entry]
  | c :: rest => if c = nul then entry :: environLoop [] rest else environLoop (entry ++ [c]) rest

/-- `qvi_pid_environ`, of the content of the file. -/
def qviPidEnviron (content : List Char) : List Word :=
  environLoop [] content

/-- The loop of `get_portno_from_pid_environ`. -/
def scanEnviron : List Word → Qv Int
  | [] => .ok portUnset
  | entry :: rest =>
      if (envPort ++ ['=']).isPrefixOf entry then
        match qviSplitString entry '=' with
        | [_, value] => qviStoi value
        | _ => .error (.thrown .errInternal)
      else scanEnviron rest

/-- `get_portno_from_pid_environ`, of the content of the file if it can be read. -/
def getPortnoFromPidEnviron (environ : Option (List Char)) : Qv Int :=
  match environ with
  | none => .ok portUnset
  | some content => scanEnviron (qviPidEnviron content)

/-- The port of a process, as `discover_impl` determines it. -/
def portOfPid (proc : ProcFs) (pid : Int) : Qv Int := do
  let port ← getPortnoFromPidCmdline (proc.cmdline pid)
  if port = portUnset then getPortnoFromPidEnviron (proc.environ pid) else .ok port

/-- The loop of `discover_impl`. -/
def discoverLoop (proc : ProcFs) (targetPort : Int) : List Int → Qv (Rc × Int)
  | [] => .ok (.errNotFound, targetPort)
  | pid :: rest => do
      let port ← portOfPid proc pid
      if port = portUnset then discoverLoop proc targetPort rest
      else if targetPort = portUnset then .ok (.success, port)
      else if targetPort = port then .ok (.success, targetPort)
      else discoverLoop proc targetPort rest

/-- `discover_impl`: the status, and what it leaves in `target_port`. -/
def discoverImpl (proc : ProcFs) (targetPort : Int) : Qv (Rc × Int) := do
  let (rc, pids) ← qviRunning daemonName proc
  if rc = .success then discoverLoop proc targetPort pids else .ok (rc, targetPort)

/-! ## The search -/

/-- `/proc` after so many milliseconds of waiting. -/
abbrev World := Nat → ProcFs

/-- `jdist`: a number up to the bound. -/
abbrev Jitter := Nat → (bound : Nat) → Fin (bound + 1)

/-- `qvi_session_discover`, which is `discover_with_backoff` for `discover_impl`: the
status, the port, and the milliseconds waited. -/
def sessionDiscover (world : World) (jdist : Jitter) (maxTimeoutInMs : Nat) (portno : Int) :
    Qv ((Rc × Int) × Nat) :=
  Backoff.retry (fun waited => discoverImpl (world waited)) (· = Rc.success) jdist
    (if maxTimeoutInMs < 1 then 1 else maxTimeoutInMs) 1 Nat.one_pos 0 portno

/-- `getenv(QVI_ENV_PORT)`. -/
def getenvPort : List Word → Option Word
  | [] => none
  | entry :: rest =>
      if (envPort ++ ['=']).isPrefixOf entry then some (entry.drop (envPort.length + 1))
      else getenvPort rest

/-- `qvi_port_from_env`. -/
def qviPortFromEnv (environ : List Word) : Qv Int :=
  match getenvPort environ with
  | none => .ok portUnset
  | some ports => qviStoi ports

/-- `qvi_rmi_client::discover`. -/
def discover (environ : List Word) (world : World) (jdist : Jitter) (portno : Int) : Qv (Rc × Int) := do
  let envport ← qviPortFromEnv environ
  if envport ≠ portUnset then
    let ((rc, envport), waited) ← sessionDiscover world jdist 1024 envport
    if rc = .success then .ok (rc, envport)
    else do
      let (found, _) ← sessionDiscover (fun more => world (waited + more)) jdist 1024 portno
      .ok found
  else do
    let (found, _) ← sessionDiscover world jdist 1024 portno
    .ok found

/-- `qvi_rmi_get_url`: the URL, and the port. -/
def qviRmiGetUrl (environ : List Word) (portno : Int) : Qv (Word × Int) := do
  let portno ← (if portno = portUnset then qviPortFromEnv environ else .ok portno : Qv Int)
  if portno = portUnset then .error (.ret .errEnv)
  else .ok ("tcp://127.0.0.1".toList ++ ":".toList ++ (toString portno).toList, portno)

/-- `qvi_task::m_connect_to_server` up to its connection: what it connects to. -/
def connectUrl (environ : List Word) (world : World) (jdist : Jitter) : Qv (Word × Int) := do
  let (rc, portno) ← discover environ world jdist portUnset
  if rc = .success then
    match qviRmiGetUrl environ portno with
    | .ok url => .ok url
    | .error (.ret _) => .error (.ret .resUnavailable)
    | .error fault => .error fault
  else .error (.ret .resUnavailable)

/-! ## A daemon, and what is seen of it -/

/-- A quo-vadisd: how it was started, and in which environment. -/
structure Daemon where
  pid : Int
  line : CommandLine
  environ : List Word
  noNul : ∀ entry ∈ environ, nul ∉ entry

namespace Daemon

/-- `determine_connection_info`, after `parse_args`: the URL it binds, and the port. -/
def url (d : Daemon) : Qv (Word × Int) := do
  let qvd ← parseArgs d.line.argv
  qviRmiGetUrl d.environ qvd.portno

/-- What `/proc/<pid>/environ` holds for an environment. -/
def procEnviron (environ : List Word) : List Char :=
  environ.flatMap fun entry => entry ++ [nul]

/-- `/proc` shows a daemon. -/
structure Shown (proc : ProcFs) (d : Daemon) : Prop where
  cmdline : proc.cmdline d.pid = some (procCmdline d.line.argv)
  environ : proc.environ d.pid = some (procEnviron d.environ)

/-- What a search finds: the first port option, or else the port in the environment. -/
def announced (d : Daemon) : Qv Int :=
  match d.line.firstPort with
  | none => scanEnviron d.environ
  | some first => first.scanned

/-- What a search has to say of a daemon is the port that it listens at: the ports of its
command line do not contradict each other, and a port in its environment, if it counts,
has no equals sign. -/
structure Readable (d : Daemon) : Prop where
  line : d.line.SamePort
  environ : d.line.firstPort = none → ∀ value, getenvPort d.environ = some value → '=' ∉ value

end Daemon

/-! ### The environment -/

theorem environLoop_entry {entry : Word} (noNul : nul ∉ entry) (rest : List Char) :
    ∀ current, environLoop current (entry ++ nul :: rest) = (current ++ entry) :: environLoop [] rest := by
  induction entry with
  | nil => simp [environLoop]
  | cons c entry ih =>
      intro current
      obtain ⟨other, later⟩ := not_or.1 (List.mem_cons.not.1 noNul)
      rw [List.cons_append, environLoop, if_neg (Ne.symm other), ih later, List.append_assoc]
      rfl

/-- The entries come back, the empty ones too. -/
theorem qviPidEnviron_procEnviron {environ : List Word} (noNul : ∀ entry ∈ environ, nul ∉ entry) :
    qviPidEnviron (Daemon.procEnviron environ) = environ := by
  induction environ with
  | nil => rfl
  | cons entry rest ih =>
      rw [Daemon.procEnviron, List.flatMap_cons, List.append_assoc, List.singleton_append, qviPidEnviron,
        environLoop_entry (noNul entry List.mem_cons_self), List.nil_append]
      exact congrArg _ (ih fun e member => noNul e (List.mem_cons_of_mem _ member))

/-- The scan and `getenv` end at the same entry; they differ over its value. -/
theorem scanEnviron_eq (environ : List Word) :
    scanEnviron environ =
      match getenvPort environ with
      | none => .ok portUnset
      | some value => if '=' ∈ value then .error (.thrown .errInternal) else qviStoi value := by
  induction environ with
  | nil => rfl
  | cons entry rest ih =>
      rw [scanEnviron, getenvPort]
      split
      · rename_i starts
        obtain ⟨value, rfl⟩ := List.isPrefixOf_iff_prefix.1 starts
        have free : '=' ∉ envPort := by decide
        have dropped : (envPort ++ ['='] ++ value).drop (envPort.length + 1) = value :=
          List.drop_left' (by simp)
        have parts : qviSplitString (envPort ++ ['='] ++ value) '=' =
            envPort :: qviSplitString value '=' := by
          rw [List.append_assoc]
          exact qviSplitString_key free value
        rw [dropped, parts]
        by_cases more : '=' ∈ value
        · have count : 0 < value.count '=' := List.count_pos_iff.2 more
          have size := qviSplitString_size value '='
          cases split : qviSplitString value '=' with
          | nil => exact absurd split (qviSplitString_ne_nil _ _)
          | cons first others =>
              cases others with
              | nil =>
                  rw [split] at size
                  simp only [List.length_singleton] at size
                  omega
              | cons second others => simp only [more, if_true]
        · simp only [more, if_false]
          rw [qviSplitString, List.splitOn_eq_singleton more]
      · exact ih

/-- The scan agrees with `getenv` if the value has no equals sign. -/
theorem scanEnviron_eq_iff {environ : List Word} {port : Int} (found : qviPortFromEnv environ = .ok port) :
    scanEnviron environ = .ok port ↔ ∀ value, getenvPort environ = some value → '=' ∉ value := by
  rw [scanEnviron_eq]
  rw [qviPortFromEnv] at found
  cases given : getenvPort environ with
  | none =>
      rw [given] at found
      simpa using found
  | some value =>
      rw [given] at found
      by_cases more : '=' ∈ value
      · simp [more]
      · simp [more, found]

/-! ### The command line -/

/-- Every port that quo-vadisd accepts is a valid one. -/
theorem validPortno_of_parseOption {args : List DaemonArg} :
    ∀ {qvd qvd' : Qvid}, (args.map DaemonArg.read).foldlM parseOption qvd = .ok qvd' →
      ∀ value ∈ args.filterMap DaemonArg.value,
        ∃ portno, qviStoi value = .ok portno ∧ validPortno portno = true := by
  induction args with
  | nil => simp
  | cons a rest ih =>
      intro qvd qvd' run value member
      obtain ⟨next, first, later⟩ := bind_ok run
      have here : ∀ given, a.value = some given → a.read = .option .port (some given) := by
        cases a <;> simp [DaemonArg.value, DaemonArg.read]
      cases given : a.value with
      | none =>
          rw [List.filterMap_cons_none given] at member
          exact ih later value member
      | some value' =>
          rw [List.filterMap_cons_some given] at member
          rcases List.mem_cons.1 member with rfl | member
          · rw [here _ given] at first
            obtain ⟨portno, parsed, stored⟩ := bind_ok first
            split at stored
            · rename_i valid
              exact ⟨portno, parsed, valid⟩
            · cases stored
          · exact ih later value member

theorem validPortno_of_parseArgs {c : CommandLine} {qvd : Qvid} (accepted : parseArgs c.argv = .ok qvd) :
    ∀ value ∈ c.ports, ∃ portno, qviStoi value = .ok portno ∧ validPortno portno = true := by
  simp only [parseArgs, getopt_argv] at accepted
  obtain ⟨stored, run, same⟩ := bind_ok accepted
  exact validPortno_of_parseOption run

theorem ne_portUnset_of_validPortno {portno : Int} (valid : validPortno portno = true) :
    portno ≠ portUnset := by
  rintro rfl
  exact absurd valid (by decide)

theorem qviRmiGetUrl_ok {environ : List Word} {portno : Int} {url : Word} {port : Int}
    (run : qviRmiGetUrl environ portno = .ok (url, port)) :
    port ≠ portUnset ∧ (if portno = portUnset then qviPortFromEnv environ = .ok port else portno = port) ∧
      url = "tcp://127.0.0.1".toList ++ ":".toList ++ (toString port).toList := by
  obtain ⟨port', found, run⟩ := bind_ok run
  split at run
  · cases run
  · rename_i isSet
    cases run
    refine ⟨isSet, ?_, rfl⟩
    split at found
    · rename_i unset
      rw [if_pos unset]
      exact found
    · rename_i given
      rw [if_neg given]
      cases found
      rfl

/-- `/proc` tells a search what a daemon was told. -/
theorem portOfPid_shown {proc : ProcFs} {d : Daemon} (shown : d.Shown proc) {qvd : Qvid}
    (accepted : parseArgs d.line.argv = .ok qvd) : portOfPid proc d.pid = d.announced := by
  rw [portOfPid, shown.cmdline, getPortno_argv (parseArgs_ok accepted).1, Daemon.announced]
  cases found : d.line.firstPort with
  | none =>
      change (if portUnset = portUnset then getPortnoFromPidEnviron (proc.environ d.pid) else
        .ok portUnset) = _
      rw [if_pos rfl, shown.environ, getPortnoFromPidEnviron, qviPidEnviron_procEnviron d.noNul]
  | some first =>
      have given : first.value.isSome = true := by
        simpa using List.find?_some (p := fun a : DaemonArg => a.value.isSome) found
      obtain ⟨value, isValue⟩ := Option.isSome_iff_exists.1 given
      have member : value ∈ d.line.ports :=
        List.mem_filterMap.2 ⟨first, List.mem_of_find?_eq_some found, isValue⟩
      obtain ⟨portno, parsed, valid⟩ := validPortno_of_parseArgs accepted value member
      -- a port that was given is set, so the environment is not asked
      have passes : (if portno = portUnset then getPortnoFromPidEnviron (proc.environ d.pid)
          else .ok portno) = .ok portno := if_neg (ne_portUnset_of_validPortno valid)
      cases first with
      | noDaemonize => cases isValue
      | portNext value' =>
          cases isValue
          change (qviStoi value >>= fun port => _) = qviStoi value
          rw [parsed]
          exact passes
      | portEquals value' =>
          cases isValue
          change ((if '=' ∈ value then _ else qviStoi value) >>= fun port => _) =
            if '=' ∈ value then _ else qviStoi value
          split
          · rfl
          · rw [parsed]
            exact passes

/-- A daemon's own port is announced exactly if the daemon is readable. -/
theorem Daemon.announced_iff {d : Daemon} {url : Word} {port : Int} (listens : d.url = .ok (url, port)) :
    d.announced = .ok port ↔ d.Readable := by
  obtain ⟨qvd, accepted, located⟩ := bind_ok listens
  obtain ⟨-, from_, -⟩ := qviRmiGetUrl_ok located
  obtain ⟨-, stored⟩ := parseArgs_ok accepted
  have readable : d.Readable ↔ d.line.SamePort ∧
      (d.line.firstPort = none → ∀ value, getenvPort d.environ = some value → '=' ∉ value) :=
    ⟨fun h => ⟨h.line, h.environ⟩, fun h => ⟨h.1, h.2⟩⟩
  rw [Daemon.announced, readable]
  cases found : d.line.firstPort with
  | none =>
      -- the port comes from the environment
      rw [CommandLine.getLast?_ports.2 found] at stored
      rw [if_pos stored] at from_
      have same : d.line.SamePort := fun first given => by rw [found] at given; cases given
      simp [scanEnviron_eq_iff from_, same]
  | some first =>
      -- the port comes from the command line
      cases last : d.line.ports.getLast? with
      | none => rw [CommandLine.getLast?_ports, found] at last; cases last
      | some lastValue =>
          rw [last] at stored
          obtain ⟨lastPort, parsed, valid⟩ :=
            validPortno_of_parseArgs accepted lastValue (List.mem_of_getLast? last)
          have sameport : lastPort = qvd.portno := Except.ok.inj (parsed.symm.trans stored)
          rw [if_neg (sameport ▸ ne_portUnset_of_validPortno valid)] at from_
          simpa using CommandLine.scanned_first_iff found last (from_ ▸ stored)

/-- **When a search agrees with a daemon** about its port. -/
theorem portOfPid_daemon_iff (proc : ProcFs) (d : Daemon) (shown : d.Shown proc) (url : Word)
    (port : Int) (listens : d.url = .ok (url, port)) :
    portOfPid proc d.pid = .ok port ↔ d.Readable := by
  obtain ⟨qvd, accepted, -⟩ := bind_ok listens
  rw [portOfPid_shown shown accepted]
  exact Daemon.announced_iff listens

/-- `quo-vadisd --no-daemonize`, with its port in the environment. -/
def envDaemon : Daemon where
  pid := 4711
  line := startedWith [.noDaemonize] (by decide)
  environ := ["PATH=/bin".toList, "QV_PORT=55995".toList]
  noNul := by decide

/-- A machine on which it is the only daemon. -/
def envDaemonProc : ProcFs where
  entries := some [⟨"1".toList, true, some "systemd".toList⟩, ⟨"acpi".toList, true, none⟩,
    ⟨"4711".toList, true, some daemonName⟩]
  cmdline := fun pid => if pid = 4711 then some (procCmdline envDaemon.line.argv) else none
  environ := fun pid => if pid = 4711 then some (Daemon.procEnviron envDaemon.environ) else none

theorem envDaemon_shown : envDaemon.Shown envDaemonProc := ⟨rfl, rfl⟩

theorem envDaemon_readable : envDaemon.Readable where
  line := by
    intro first found
    cases found
  environ := by
    intro _ value given
    cases given
    decide

theorem envDaemon_url : envDaemon.url = .ok ("tcp://127.0.0.1:55995".toList, 55995) := by decide

theorem portOfPid_daemon_iff_envDaemon :
    envDaemon.url = .ok ("tcp://127.0.0.1:55995".toList, 55995) ∧
      portOfPid envDaemonProc 4711 = .ok 55995 :=
  ⟨envDaemon_url, (portOfPid_daemon_iff envDaemonProc envDaemon envDaemon_shown _ _ envDaemon_url).2
    envDaemon_readable⟩

/-! ## What a search finds -/

/-- There is a daemon whose port, as it is read of `/proc`, is the given one. -/
def Offers (proc : ProcFs) (port : Int) : Prop :=
  ∃ pids, qviRunning daemonName proc = .ok (.success, pids) ∧ ∃ pid ∈ pids, portOfPid proc pid = .ok port

/-- A port that the caller takes. -/
def Wanted (targetPort port : Int) : Prop :=
  port ≠ portUnset ∧ (targetPort = portUnset ∨ targetPort = port)

section

variable {proc : ProcFs} {targetPort : Int}

theorem discoverLoop_ok {pids : List Int} {rc : Rc} {port : Int}
    (run : discoverLoop proc targetPort pids = .ok (rc, port)) :
    if rc = .success then Wanted targetPort port ∧ ∃ pid ∈ pids, portOfPid proc pid = .ok port
    else port = targetPort ∧
      ∀ pid ∈ pids, ∃ other, portOfPid proc pid = .ok other ∧ ¬ Wanted targetPort other := by
  induction pids with
  | nil =>
      cases run
      simp
  | cons pid rest ih =>
      obtain ⟨found, read, run⟩ := bind_ok run
      -- the first process is passed over, or it is the one
      have passed : ¬ Wanted targetPort found → discoverLoop proc targetPort rest = .ok (rc, port) →
          if rc = .success then Wanted targetPort port ∧ ∃ p ∈ pid :: rest, portOfPid proc p = .ok port
          else port = targetPort ∧ ∀ p ∈ pid :: rest,
            ∃ other, portOfPid proc p = .ok other ∧ ¬ Wanted targetPort other := by
        intro unwanted run
        have later := ih run
        split at later
        · rename_i done
          obtain ⟨wanted, other, member, same⟩ := later
          rw [if_pos done]
          exact ⟨wanted, other, List.mem_cons_of_mem _ member, same⟩
        · rename_i failed
          rw [if_neg failed]
          exact ⟨later.1, List.forall_mem_cons.2 ⟨⟨found, read, unwanted⟩, later.2⟩⟩
      split at run
      · rename_i unset
        exact passed (fun wanted => wanted.1 unset) run
      · rename_i isSet
        split at run
        · rename_i any
          cases run
          exact ⟨⟨isSet, .inl any⟩, pid, List.mem_cons_self, read⟩
        · rename_i asked
          split at run
          · rename_i same
            cases run
            exact ⟨⟨same ▸ isSet, .inr rfl⟩, pid, List.mem_cons_self, same ▸ read⟩
          · rename_i other
            exact passed (fun wanted => wanted.2.elim asked other) run

theorem discoverLoop_total {pids : List Int} (read : ∀ pid ∈ pids, ∃ port, portOfPid proc pid = .ok port) :
    ∃ x, discoverLoop proc targetPort pids = .ok x := by
  induction pids with
  | nil => exact ⟨_, rfl⟩
  | cons pid rest ih =>
      obtain ⟨first, later⟩ := List.forall_mem_cons.1 read
      obtain ⟨port, here⟩ := first
      rw [discoverLoop, here]
      change ∃ x, (if port = portUnset then _ else _) = Except.ok x
      split
      · exact ih later
      · split
        · exact ⟨_, rfl⟩
        · split
          · exact ⟨_, rfl⟩
          · exact ih later

/-- An attempt finds a port that is wanted, if there is one, and else changes nothing. -/
theorem discoverImpl_ok {rc : Rc} {port : Int} (run : discoverImpl proc targetPort = .ok (rc, port)) :
    (rc = .success → Wanted targetPort port ∧ Offers proc port) ∧
      (rc ≠ .success → port = targetPort ∧ ∀ other, Wanted targetPort other → ¬ Offers proc other) := by
  obtain ⟨⟨status, pids⟩, running, run⟩ := bind_ok run
  dsimp only at run
  split at run
  · rename_i readable
    have found := discoverLoop_ok run
    constructor
    · intro done
      rw [if_pos done] at found
      obtain ⟨wanted, pid, member, same⟩ := found
      exact ⟨wanted, pids, readable ▸ running, pid, member, same⟩
    · intro failed
      rw [if_neg failed] at found
      refine ⟨found.1, ?_⟩
      rintro other wanted ⟨pids', running', pid, member, same⟩
      rw [running] at running'
      cases running'
      obtain ⟨port', read, unwanted⟩ := found.2 pid member
      rw [same] at read
      cases read
      exact unwanted wanted
  · rename_i unreadable
    cases run
    constructor
    · exact fun done => absurd done unreadable
    · intro failed
      refine ⟨rfl, ?_⟩
      rintro other wanted ⟨pids', running', -⟩
      rw [running] at running'
      cases running'
      exact absurd rfl unreadable

theorem discoverImpl_total {pids : List Int} (running : qviRunning daemonName proc = .ok (.success, pids))
    (read : ∀ pid ∈ pids, ∃ port, portOfPid proc pid = .ok port) :
    ∃ x, discoverImpl proc targetPort = .ok x := by
  rw [discoverImpl, running]
  exact discoverLoop_total read

end

section

variable {world : World} {jdist : Jitter} {maxTimeoutInMs : Nat} {portno : Int}

/-- What a search asks for does not change before it is over. -/
theorem discoverImpl_keeps : ∀ (t : Nat) (s : Int) (rc : Rc) (s' : Int),
    discoverImpl (world t) s = .ok (rc, s') → decide (rc = .success) = false → s = portno → s' = portno := by
  rintro t s rc s' run failed rfl
  exact ((discoverImpl_ok run).2 (of_decide_eq_false failed)).1

/-- **What a search has seen** when it is over.  The port that it found was there at its
last attempt; if it found none, there was none then, and its time was up. -/
theorem sessionDiscover_ok (world : World) (jdist : Jitter) (maxTimeoutInMs : Nat) (portno : Int)
    (rc : Rc) (port : Int) (waited : Nat)
    (run : sessionDiscover world jdist maxTimeoutInMs portno = .ok ((rc, port), waited)) :
    waited ≤ 3 * (maxTimeoutInMs - 1) ∧
      (rc = .success → Wanted portno port ∧ Offers (world waited) port) ∧
      (rc ≠ .success → maxTimeoutInMs - 1 ≤ waited ∧ port = portno ∧
        ∀ other, Wanted portno other → ¬ Offers (world waited) other) := by
  obtain ⟨s, rfl, made, bound, gaveUp⟩ := Backoff.retry_last (I := fun s => s = portno)
    discoverImpl_keeps run Backoff.waited_start rfl
  obtain ⟨found, missing⟩ := discoverImpl_ok made
  refine ⟨?_, found, fun failed => ⟨?_, missing failed⟩⟩
  · split at bound <;> omega
  · have late := gaveUp (decide_eq_false failed)
    split at late <;> omega

/-- The daemon of `envDaemon` is found at once, whatever the random numbers are. -/
example (jdist : Jitter) :
    sessionDiscover (fun _ => envDaemonProc) jdist 16 portUnset = .ok ((.success, 55995), 0) := by
  have made : discoverImpl envDaemonProc portUnset = .ok (.success, 55995) := by decide
  rw [sessionDiscover, Backoff.retry, made]
  rfl

theorem sessionDiscover_total
    (read : ∀ t, ∃ pids, qviRunning daemonName (world t) = .ok (.success, pids) ∧
      ∀ pid ∈ pids, ∃ port, portOfPid (world t) pid = .ok port) :
    ∃ x, sessionDiscover world jdist maxTimeoutInMs portno = .ok x := by
  refine Backoff.retry_total (I := fun s => s = portno) discoverImpl_keeps ?_ rfl
  intro t s _
  obtain ⟨pids, running, ports⟩ := read t
  exact discoverImpl_total running ports

end

/-! ## A client finds its daemon -/

/-- The URL is made of the port. -/
theorem qviRmiGetUrl_of_ne {environ : List Word} {portno : Int} (isSet : portno ≠ portUnset) :
    qviRmiGetUrl environ portno =
      .ok ("tcp://127.0.0.1".toList ++ ":".toList ++ (toString portno).toList, portno) := by
  rw [qviRmiGetUrl, if_neg isSet]
  exact if_neg isSet

/-- Daemons at one port have one URL. -/
theorem Daemon.url_eq {d : Daemon} {url : Word} {port : Int} (listens : d.url = .ok (url, port)) :
    port ≠ portUnset ∧ url = "tcp://127.0.0.1".toList ++ ":".toList ++ (toString port).toList := by
  obtain ⟨qvd, -, located⟩ := bind_ok listens
  obtain ⟨isSet, -, same⟩ := qviRmiGetUrl_ok located
  exact ⟨isSet, same⟩

/-- `/proc` shows a process that has exited and that nobody has waited for: the entry is
there, but there is nothing in its files. -/
structure Exited (proc : ProcFs) (pid : Int) : Prop where
  cmdline : proc.cmdline pid = none ∨ proc.cmdline pid = some []
  environ : proc.environ pid = none ∨ proc.environ pid = some []

/-- It has no port. -/
theorem Exited.portOfPid {proc : ProcFs} {pid : Int} (exited : Exited proc pid) :
    PortDiscovery.portOfPid proc pid = .ok portUnset := by
  have cmdline : getPortnoFromPidCmdline (proc.cmdline pid) = .ok portUnset := by
    rcases exited.cmdline with unread | empty
    · rw [unread]; rfl
    · rw [empty]; rfl
  have environ : getPortnoFromPidEnviron (proc.environ pid) = .ok portUnset := by
    rcases exited.environ with unread | empty
    · rw [unread]; rfl
    · rw [empty]; rfl
  rw [PortDiscovery.portOfPid, cmdline]
  exact environ

/-- The daemons of a node while a client looks for one.  `/proc` shows them, each has a
URL and can be read, and another process of their name, such as one that has become a
daemon by a fork and has exited, has no port. -/
structure Up (world : World) (daemons : Nat → List Daemon) : Prop where
  running : ∀ t, ∃ pids, qviRunning daemonName (world t) = .ok (.success, pids) ∧
    (∀ d ∈ daemons t, d.pid ∈ pids) ∧
    ∀ pid ∈ pids, (∃ d ∈ daemons t, d.pid = pid) ∨ portOfPid (world t) pid = .ok portUnset
  shown : ∀ t, ∀ d ∈ daemons t, d.Shown (world t)
  listens : ∀ t, ∀ d ∈ daemons t, ∃ url port, d.url = .ok (url, port)
  readable : ∀ t, ∀ d ∈ daemons t, d.Readable

namespace Up

variable {world : World} {daemons : Nat → List Daemon} {jdist : Jitter}

theorem later (up : Up world daemons) (waited : Nat) :
    Up (fun more => world (waited + more)) fun more => daemons (waited + more) where
  running := fun t => up.running (waited + t)
  shown := fun t => up.shown (waited + t)
  listens := fun t => up.listens (waited + t)
  readable := fun t => up.readable (waited + t)

/-- The port that is read of a daemon is that of its URL. -/
theorem announced (up : Up world daemons) {t : Nat} {d : Daemon} (member : d ∈ daemons t) :
    ∃ url port, d.url = .ok (url, port) ∧ portOfPid (world t) d.pid = .ok port := by
  obtain ⟨url, port, listens⟩ := up.listens t d member
  obtain ⟨qvd, accepted, -⟩ := bind_ok listens
  refine ⟨url, port, listens, ?_⟩
  rw [portOfPid_shown (up.shown t d member) accepted]
  exact (Daemon.announced_iff listens).2 (up.readable t d member)

/-- The ports on offer are those of the daemons. -/
theorem offers_iff (up : Up world daemons) {t : Nat} {port : Int} (isSet : port ≠ portUnset) :
    Offers (world t) port ↔ ∃ d ∈ daemons t, ∃ url, d.url = .ok (url, port) := by
  obtain ⟨pids, running, there, only⟩ := up.running t
  constructor
  · rintro ⟨pids', running', pid, member, read⟩
    rw [running] at running'
    cases running'
    rcases only pid member with ⟨d, inDaemons, rfl⟩ | none_
    · obtain ⟨url, port', listens, same⟩ := up.announced inDaemons
      rw [read] at same
      cases same
      exact ⟨d, inDaemons, url, listens⟩
    · rw [read] at none_
      exact absurd (Except.ok.inj none_) isSet
  · rintro ⟨d, member, url, listens⟩
    obtain ⟨url', port', listens', read⟩ := up.announced member
    rw [listens] at listens'
    cases listens'
    exact ⟨pids, running, d.pid, there d member, read⟩

theorem sessionDiscover (up : Up world daemons) (jdist : Jitter) (maxTimeoutInMs : Nat) (portno : Int) :
    ∃ rc port waited,
      PortDiscovery.sessionDiscover world jdist maxTimeoutInMs portno = .ok ((rc, port), waited) := by
  have total : ∃ x, PortDiscovery.sessionDiscover world jdist maxTimeoutInMs portno = .ok x :=
    sessionDiscover_total fun t => by
      obtain ⟨pids, running, -, only⟩ := up.running t
      refine ⟨pids, running, fun pid member => ?_⟩
      rcases only pid member with ⟨d, inDaemons, rfl⟩ | none_
      · obtain ⟨-, port, -, read⟩ := up.announced inDaemons
        exact ⟨port, read⟩
      · exact ⟨portUnset, none_⟩
  obtain ⟨⟨⟨rc, port⟩, waited⟩, run⟩ := total
  exact ⟨rc, port, waited, run⟩

end Up

/-- What `discover` comes to, when nothing that it reads is out of order. -/
structure Discovered (daemons : Nat → List Daemon) (envport : Int) (rc : Rc) (port : Int) : Prop where
  /-- The port is that of a daemon. -/
  sound : rc = .success → ∃ t, ∃ d ∈ daemons t, ∃ url, d.url = .ok (url, port)
  /-- It is found if there is a daemon when the time is up. -/
  complete : (∀ t, 1023 ≤ t → daemons t ≠ []) → rc = .success
  /-- A daemon that was asked for is preferred. -/
  asked : envport ≠ portUnset →
    (∀ t, 1023 ≤ t → ∃ d ∈ daemons t, ∃ url, d.url = .ok (url, envport)) → rc = .success ∧ port = envport

theorem Discovered.isSet {daemons : Nat → List Daemon} {envport port : Int} {rc : Rc}
    (discovered : Discovered daemons envport rc port) (done : rc = .success) : port ≠ portUnset := by
  obtain ⟨-, d, -, url, listens⟩ := discovered.sound done
  exact (Daemon.url_eq listens).1

section

variable {world : World} {daemons : Nat → List Daemon} {jdist : Jitter}

/-- A search for any daemon. -/
theorem sessionDiscover_any (up : Up world daemons) {rc : Rc} {port : Int} {waited : Nat}
    (run : sessionDiscover world jdist 1024 portUnset = .ok ((rc, port), waited)) :
    (rc = .success → ∃ d ∈ daemons waited, ∃ url, d.url = .ok (url, port)) ∧
      ((∀ t, 1023 ≤ t → daemons t ≠ []) → rc = .success) := by
  obtain ⟨-, found, missing⟩ := sessionDiscover_ok _ _ _ _ _ _ _ run
  constructor
  · intro done
    exact (up.offers_iff (found done).1.1).1 (found done).2
  · intro there
    by_contra failed
    obtain ⟨late, -, none_⟩ := missing failed
    obtain ⟨d, member⟩ := List.exists_mem_of_ne_nil _ (there waited (by omega))
    obtain ⟨url, port', listens⟩ := up.listens waited d member
    have isSet : port' ≠ portUnset := (Daemon.url_eq listens).1
    exact none_ port' ⟨isSet, .inl rfl⟩ ((up.offers_iff isSet).2 ⟨d, member, url, listens⟩)

theorem discover_discovered (jdist : Jitter) (up : Up world daemons) {environ : List Word} {envport : Int}
    (env : qviPortFromEnv environ = .ok envport) :
    ∃ rc port, discover environ world jdist portUnset = .ok (rc, port) ∧
      Discovered daemons envport rc port := by
  by_cases isSet : envport ≠ portUnset
  · obtain ⟨rc, port, waited, run⟩ := up.sessionDiscover jdist 1024 envport
    obtain ⟨-, found, missing⟩ := sessionDiscover_ok _ _ _ _ _ _ _ run
    by_cases done : rc = .success
    · obtain ⟨wanted, offers⟩ := found done
      have same : port = envport := (wanted.2.resolve_left isSet).symm
      refine ⟨rc, port, ?_, ?_⟩
      · rw [discover, env]
        change (if envport ≠ portUnset then _ else _) = _
        rw [if_pos isSet, run]
        exact if_pos done
      · exact ⟨fun _ => ⟨waited, (up.offers_iff wanted.1).1 offers⟩, fun _ => done, fun _ _ => ⟨done, same⟩⟩
    · -- the daemon asked for is not there
      obtain ⟨late, -, none_⟩ := missing done
      have later := up.later waited
      obtain ⟨rc', port', waited', run'⟩ := later.sessionDiscover jdist 1024 portUnset
      obtain ⟨sound, complete⟩ := sessionDiscover_any later run'
      refine ⟨rc', port', ?_, ?_, ?_, ?_⟩
      · rw [discover, env]
        change (if envport ≠ portUnset then _ else _) = _
        rw [if_pos isSet, run]
        change (if rc = .success then _ else _) = _
        rw [if_neg done, run']
        rfl
      · intro done'
        exact ⟨waited + waited', sound done'⟩
      · intro there
        exact complete fun t late' => there (waited + t) (by omega)
      · intro _ there
        exact absurd ((up.offers_iff isSet).2 (there waited (by omega))) (none_ envport ⟨isSet, .inr rfl⟩)
  · obtain ⟨rc, port, waited, run⟩ := up.sessionDiscover jdist 1024 portUnset
    obtain ⟨sound, complete⟩ := sessionDiscover_any up run
    refine ⟨rc, port, ?_, fun done => ⟨waited, sound done⟩, complete, fun isSet' => absurd isSet' isSet⟩
    rw [discover, env]
    change (if envport ≠ portUnset then _ else _) = _
    rw [if_neg isSet, run]
    rfl

end

/-- A client connects if it has found a port. -/
theorem connectUrl_eq {world : World} {jdist : Jitter} {environ : List Word} {rc : Rc} {port : Int}
    (run : discover environ world jdist portUnset = .ok (rc, port))
    (isSet : rc = .success → port ≠ portUnset) :
    connectUrl environ world jdist =
      if rc = .success then
        .ok ("tcp://127.0.0.1".toList ++ ":".toList ++ (toString port).toList, port)
      else .error (.ret .resUnavailable) := by
  rw [connectUrl, run]
  change (if rc = .success then _ else _) = _
  split
  · rename_i done
    rw [qviRmiGetUrl_of_ne (isSet done)]
  · rfl

/-- **A client connects to a daemon**, while daemons come and go, at the URL that the
daemon has bound.  It does connect if there is a daemon when its time is up, and to the
one at the port in its environment if that is there. -/
theorem connectUrl_daemon (world : World) (daemons : Nat → List Daemon) (up : Up world daemons)
    (jdist : Jitter) (environ : List Word) (envport : Int)
    (env : qviPortFromEnv environ = .ok envport) :
    (∀ url, connectUrl environ world jdist = .ok url → ∃ t, ∃ d ∈ daemons t, d.url = .ok url) ∧
      ((∀ t, 1023 ≤ t → daemons t ≠ []) → ∃ url, connectUrl environ world jdist = .ok url) ∧
      (envport ≠ portUnset →
        (∀ t, 1023 ≤ t → ∃ d ∈ daemons t, ∃ url, d.url = .ok (url, envport)) →
        ∃ url, connectUrl environ world jdist = .ok (url, envport)) := by
  obtain ⟨rc, port, run, discovered⟩ := discover_discovered jdist up env
  have connects := connectUrl_eq run discovered.isSet
  refine ⟨?_, ?_, ?_⟩
  · intro url connected
    rw [connects] at connected
    split at connected
    · rename_i done
      cases connected
      obtain ⟨t, d, member, url, listens⟩ := discovered.sound done
      refine ⟨t, d, member, ?_⟩
      rw [listens, (Daemon.url_eq listens).2]
    · cases connected
  · intro there
    rw [connects, if_pos (discovered.complete there)]
    exact ⟨_, rfl⟩
  · intro isSet there
    obtain ⟨done, rfl⟩ := discovered.asked isSet there
    rw [connects, if_pos done]
    exact ⟨_, rfl⟩

theorem envDaemon_up : Up (fun _ => envDaemonProc) fun _ => [envDaemon] where
  running := fun _ => ⟨[4711], by decide, by decide, fun pid member =>
    .inl ⟨envDaemon, List.mem_singleton_self _, (List.mem_singleton.1 member).symm⟩⟩
  shown := fun _ d member => List.mem_singleton.1 member ▸ envDaemon_shown
  listens := fun _ d member => List.mem_singleton.1 member ▸ ⟨_, _, envDaemon_url⟩
  readable := fun _ d member => List.mem_singleton.1 member ▸ envDaemon_readable

/-- A client that is told of another port, on the machine of `envDaemon`. -/
theorem connectUrl_daemon_envDaemon :
    ∃ url, connectUrl ["QV_PORT=6000".toList] (fun _ => envDaemonProc) (fun _ _ => 0) = .ok url :=
  (connectUrl_daemon _ _ envDaemon_up (fun _ _ => 0) ["QV_PORT=6000".toList] 6000 (by decide)).2.1
    fun _ _ => List.cons_ne_nil _ _

end QuoVadis.Kernel.PortDiscovery
