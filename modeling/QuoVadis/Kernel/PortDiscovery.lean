/-
# Kernel.PortDiscovery -- one command line, read by the daemon and by its clients

quo-vadisd takes its port from its arguments with `getopt_long_only` (`parse_args`).
A client that looks for a daemon reads the same words from `/proc/<pid>/cmdline` and
scans them for the port option (`get_portno_from_pid_cmdline`).  "This must match the
command line argument structure set by quo-vadisd", says the scan, and for the command
line with which the library itself starts a daemon it does (`qviStartQuoVadisd_found`).

It does not for all that the daemon accepts.  getopt goes on, and the last port wins;
the scan returns at the first one.  getopt ends a name at the first equals sign, so that
the argument may hold more of them; the scan splits at each and gives up unless there
are two parts.

* `parseArgs_ok`: an accepted command line has valid ports only, and the last counts;
* `getPortno_argv`: the scan is decided by the first;
* `getPortno_eq_parseArgs_iff`: so they agree exactly when these two say the same.
-/
import QuoVadis.Kernel.Strings
import QuoVadis.Theory.GetoptLong

namespace QuoVadis.Kernel.PortDiscovery

open QuoVadis.Theory

set_option autoImplicit false

/-- `QVI_DAEMON_NAME`. -/
def daemonName : Word := "quo-vadisd".toList

/-! ## The daemon -/

/-- What quo-vadisd can be told. -/
inductive DaemonOption where
  | help
  | version
  | noDaemonize
  | port

/-- `opts` and `lopts`. -/
def daemonOptions : Options DaemonOption where
  shorts := [('V', .version), ('h', .help)]
  longs :=
    [ { name := "help".toList, requiredArgument := false, val := .help },
      { name := "version".toList, requiredArgument := false, val := .version },
      { name := "no-daemonize".toList, requiredArgument := false, val := .noDaemonize },
      { name := "port".toList, requiredArgument := true, val := .port } ]
  named := by decide
  distinct := by decide

/-- The fields of `qvid` that the arguments set. -/
structure Qvid where
  portno : Int := portUnset
  daemonized : Bool := true
  deriving DecidableEq

/-- `valid_portno`. -/
def validPortno (portno : Int) : Bool :=
  !(portno ≤ 0 || portno > 2 ^ 16 - 1)

/-- The switch over what getopt returned. -/
def parseOption (qvd : Qvid) : Opt DaemonOption → Qv Qvid
  | .option .help _ | .option .version _ => .error (.ret .successShutdown)
  | .option .noDaemonize _ => .ok { qvd with daemonized := false }
  | .option .port (some optarg) => do
      let portno ← qviStoi optarg
      if validPortno portno then .ok { qvd with portno := portno }
      else .error (.ret .errInvldArg)
  -- a null optarg, which getopt never hands over for this option
  | .option .port none => .error .trap
  | .unrecognized => .error (.ret .errInvldArg)

/-- `parse_args`. -/
def parseArgs (argv : List Word) : Qv Qvid := do
  let (read, operands) := getopt daemonOptions argv.tail
  let qvd ← read.foldlM parseOption {}
  if operands = [] then .ok qvd else .error (.ret .errInvldArg)

/-! ## The client -/

/-- The byte that ends an argument. -/
def nul : Char := Char.ofNat 0

/-- What `/proc/<pid>/cmdline` holds for an argument vector. -/
def procCmdline (argv : List Word) : List Char :=
  argv.flatMap fun arg => arg ++ [nul]

/-- A turn of the loop of `qvi_pid_cmdline`. -/
def cmdlineStep (st : List Word × Word) (c : Char) : List Word × Word :=
  let (argv, currentArg) := st
  if c = nul then
    if currentArg = [] then (argv, []) else (argv ++ [currentArg], [])
  else (argv, currentArg ++ [c])

/-- `qvi_pid_cmdline`, of the content of the file. -/
def qviPidCmdline (content : List Char) : List Word :=
  (content.foldl cmdlineStep ([], [])).1

/-- The loop of `get_portno_from_pid_cmdline`. -/
def scanPortno : List Word → Qv Int
  | [] => .ok portUnset
  | arg :: rest =>
      if "--port=".toList.isPrefixOf arg then
        match qviSplitString arg '=' with
        | [_, value] => qviStoi value
        | _ => .error (.thrown .errInternal)
      else if arg = "--port".toList then
        match rest with
        | [] => .ok portUnset
        | value :: _ => qviStoi value
      else scanPortno rest

/-- `get_portno_from_pid_cmdline`, of the content of the file if it can be read. -/
def getPortnoFromPidCmdline (cmdline : Option (List Char)) : Qv Int :=
  match cmdline with
  | none => .ok portUnset
  | some content => scanPortno (qviPidCmdline content)

/-! ## The argument vectors in question -/

/-- An argument of quo-vadisd that lets it start. -/
inductive DaemonArg where
  | noDaemonize
  /-- `--port N`. -/
  | portNext (value : Word)
  /-- `--port=N`. -/
  | portEquals (value : Word)

namespace DaemonArg

def words : DaemonArg → List Word
  | .noDaemonize => ["--no-daemonize".toList]
  | .portNext value => ["--port".toList, value]
  | .portEquals value => ["--port=".toList ++ value]

def value : DaemonArg → Option Word
  | .noDaemonize => none
  | .portNext value | .portEquals value => some value

/-- What getopt makes of it. -/
def read : DaemonArg → Opt DaemonOption
  | .noDaemonize => .option .noDaemonize none
  | .portNext value | .portEquals value => .option .port (some value)

/-- What the scan makes of it. -/
def scanned : DaemonArg → Qv Int
  | .noDaemonize => .ok portUnset
  | .portNext value => qviStoi value
  | .portEquals value => if '=' ∈ value then .error (.thrown .errInternal) else qviStoi value

theorem spells (a : DaemonArg) : Spells daemonOptions a.words a.read := by
  have noDaemonize : (⟨"no-daemonize".toList, false, .noDaemonize⟩ : LongOption DaemonOption) ∈
      daemonOptions.longs := by simp [daemonOptions]
  have port : (⟨"port".toList, true, .port⟩ : LongOption DaemonOption) ∈ daemonOptions.longs := by
    simp [daemonOptions]
  cases a with
  | noDaemonize => exact .flag noDaemonize rfl
  | portNext value => exact .separate value port rfl
  | portEquals value => exact .inline value port rfl

end DaemonArg

/-- How a daemon was started: the name in `argv[0]`, which is no port option, and its
arguments.  A word of an argument vector ends at its first NUL. -/
structure CommandLine where
  name : Word
  args : List DaemonArg
  named : "--port".toList.isPrefixOf name = false
  noNul : ∀ word ∈ name :: args.flatMap DaemonArg.words, nul ∉ word

namespace CommandLine

def argv (c : CommandLine) : List Word :=
  c.name :: c.args.flatMap DaemonArg.words

/-- The values of the port options, in order. -/
def ports (c : CommandLine) : List Word :=
  c.args.filterMap DaemonArg.value

def firstPort (c : CommandLine) : Option DaemonArg :=
  c.args.find? fun a => a.value.isSome

end CommandLine

/-! ## What the daemon accepts -/

theorem getopt_argv (c : CommandLine) :
    getopt daemonOptions c.argv.tail = (c.args.map DaemonArg.read, []) := by
  have spelled : List.Forall₂ (Spells daemonOptions) (c.args.map DaemonArg.words)
      (c.args.map DaemonArg.read) := by
    rw [List.forall₂_map_left_iff, List.forall₂_map_right_iff, List.forall₂_same]
    exact fun a _ => a.spells
  exact getopt_flatten spelled

/-- One argument: a port is a valid number and is stored, nothing else changes it. -/
theorem parseOption_read {qvd qvd' : Qvid} {a : DaemonArg} (run : parseOption qvd a.read = .ok qvd') :
    match a.value with
    | none => qvd'.portno = qvd.portno
    | some value => qviStoi value = .ok qvd'.portno := by
  cases a with
  | noDaemonize =>
      cases run
      rfl
  | portNext value | portEquals value =>
      obtain ⟨portno, parsed, run⟩ := bind_ok run
      split at run
      · cases run
        exact parsed
      · cases run

theorem foldlM_parseOption {args : List DaemonArg} :
    ∀ {qvd qvd' : Qvid}, (args.map DaemonArg.read).foldlM parseOption qvd = .ok qvd' →
      (∀ value ∈ args.filterMap DaemonArg.value, ∃ portno, qviStoi value = .ok portno) ∧
        match (args.filterMap DaemonArg.value).getLast? with
        | none => qvd'.portno = qvd.portno
        | some value => qviStoi value = .ok qvd'.portno := by
  induction args with
  | nil =>
      intro qvd qvd' run
      cases run
      exact ⟨by simp, rfl⟩
  | cons a rest ih =>
      intro qvd qvd' run
      obtain ⟨next, first, later⟩ := bind_ok run
      obtain ⟨valid, last⟩ := ih later
      have stored := parseOption_read first
      cases here : a.value with
      | none =>
          rw [List.filterMap_cons_none here]
          rw [here] at stored
          simp only [stored] at last
          exact ⟨valid, last⟩
      | some value =>
          rw [List.filterMap_cons_some here]
          rw [here] at stored
          refine ⟨List.forall_mem_cons.2 ⟨⟨_, stored⟩, valid⟩, ?_⟩
          rw [List.getLast?_cons]
          cases other : (rest.filterMap DaemonArg.value).getLast? with
          | none =>
              rw [other] at last
              simpa [last] using stored
          | some lastValue =>
              rw [other] at last
              exact last

/-- **An accepted command line**: every port is a number, and the last one is stored. -/
theorem parseArgs_ok {c : CommandLine} {qvd : Qvid} (accepted : parseArgs c.argv = .ok qvd) :
    (∀ value ∈ c.ports, ∃ portno, qviStoi value = .ok portno) ∧
      match c.ports.getLast? with
      | none => qvd.portno = portUnset
      | some value => qviStoi value = .ok qvd.portno := by
  simp only [parseArgs, getopt_argv] at accepted
  obtain ⟨stored, run, same⟩ := bind_ok accepted
  cases same
  exact foldlM_parseOption run

/-! ## What the client finds -/

theorem foldl_cmdlineStep_word {word : Word} (noNul : nul ∉ word) (argv : List Word) :
    ∀ current, word.foldl cmdlineStep (argv, current) = (argv, current ++ word) := by
  induction word with
  | nil => simp
  | cons c rest ih =>
      intro current
      obtain ⟨other, rest_⟩ := not_or.1 (List.mem_cons.not.1 noNul)
      rw [List.foldl_cons, cmdlineStep, if_neg (Ne.symm other), ih rest_, List.append_assoc]
      rfl

/-- The words come back, without those that are empty. -/
theorem qviPidCmdline_procCmdline {argv : List Word} (noNul : ∀ word ∈ argv, nul ∉ word) :
    qviPidCmdline (procCmdline argv) = argv.filter (· ≠ []) := by
  have run : ∀ read, (procCmdline argv).foldl cmdlineStep (read, []) =
      (read ++ argv.filter (· ≠ []), []) := by
    induction argv with
    | nil => simp [procCmdline]
    | cons word rest ih =>
        intro read
        have ends : (word ++ [nul]).foldl cmdlineStep (read, []) =
            (if word = [] then read else read ++ [word], []) := by
          rw [List.foldl_append, foldl_cmdlineStep_word (noNul word List.mem_cons_self),
            List.nil_append, List.foldl_cons, List.foldl_nil, cmdlineStep, if_pos rfl]
          split <;> rfl
        rw [procCmdline, List.flatMap_cons, List.foldl_append, ends]
        rw [show rest.flatMap (fun arg => arg ++ [nul]) = procCmdline rest from rfl,
          ih fun w member => noNul w (List.mem_cons_of_mem _ member)]
        by_cases empty : word = []
        · simp [empty]
        · simp [empty]
  rw [qviPidCmdline, run, List.nil_append]

theorem scanPortno_cons (arg : Word) (rest : List Word) :
    scanPortno (arg :: rest) =
      if "--port=".toList.isPrefixOf arg then
        match qviSplitString arg '=' with
        | [_, value] => qviStoi value
        | _ => .error (.thrown .errInternal)
      else if arg = "--port".toList then
        match rest with
        | [] => .ok portUnset
        | value :: _ => qviStoi value
      else scanPortno rest := by
  cases rest <;> rfl

/-- An option with an equals sign has two parts, or more if its value holds another one. -/
theorem scanPortno_portEquals (value : Word) (rest : List Word) :
    scanPortno (("--port=".toList ++ value) :: rest) = (DaemonArg.portEquals value).scanned := by
  have free : '=' ∉ "--port".toList := by decide
  have parts : qviSplitString ("--port=".toList ++ value) '=' =
      "--port".toList :: qviSplitString value '=' := qviSplitString_key free value
  have starts : "--port=".toList.isPrefixOf ("--port=".toList ++ value) = true :=
    List.isPrefixOf_iff_prefix.2 (List.prefix_append _ _)
  rw [scanPortno_cons, if_pos starts, parts, DaemonArg.scanned]
  by_cases more : '=' ∈ value
  · rw [if_pos more]
    have count : 0 < value.count '=' := List.count_pos_iff.2 more
    have size := qviSplitString_size value '='
    cases split : qviSplitString value '=' with
    | nil => rfl
    | cons first others =>
        cases others with
        | nil =>
            rw [split] at size
            simp only [List.length_singleton] at size
            omega
        | cons second others => rfl
  · rw [if_neg more, qviSplitString, List.splitOn_eq_singleton more]

/-- The first port option decides. -/
theorem scanPortno_words (args : List DaemonArg) :
    scanPortno (args.flatMap DaemonArg.words) =
      match args.find? fun a => a.value.isSome with
      | none => .ok portUnset
      | some first => first.scanned := by
  induction args with
  | nil => rfl
  | cons a rest ih =>
      cases a with
      | noDaemonize =>
          rw [List.flatMap_cons, List.find?_cons_of_neg (by simp [DaemonArg.value]), ← ih]
          rfl
      | portNext value => rfl
      | portEquals value => exact scanPortno_portEquals value _

/-- The name in front is not taken for a port option. -/
theorem CommandLine.scanPortno_name (c : CommandLine) (rest : List Word) :
    scanPortno (c.name :: rest) = scanPortno rest := by
  have noPrefix : ¬ "--port".toList <+: c.name := by
    rw [← List.isPrefixOf_iff_prefix, c.named]
    decide
  have noEquals : ¬ "--port=".toList.isPrefixOf c.name = true := by
    rw [List.isPrefixOf_iff_prefix]
    exact fun starts => noPrefix ((List.prefix_append "--port".toList ['=']).trans starts)
  have other : c.name ≠ "--port".toList := fun same => noPrefix (same ▸ List.prefix_refl _)
  rw [scanPortno_cons, if_neg noEquals, if_neg other]

/-- No word is empty if no value is. -/
theorem DaemonArg.ne_nil_of_mem_words {a : DaemonArg}
    (full : ∀ value, a.value = some value → value ≠ []) {word : Word} (member : word ∈ a.words) :
    word ≠ [] := by
  cases a with
  | noDaemonize =>
      rw [List.mem_singleton.1 member]
      decide
  | portNext value =>
      rcases List.mem_cons.1 member with rfl | member
      · decide
      · rw [List.mem_singleton.1 member]
        exact full value rfl
  | portEquals value =>
      rw [List.mem_singleton.1 member]
      simp

/-- **What discovery finds** for a command line whose ports are numbers. -/
theorem getPortno_argv {c : CommandLine}
    (numbers : ∀ value ∈ c.ports, ∃ portno, qviStoi value = .ok portno) :
    getPortnoFromPidCmdline (some (procCmdline c.argv)) =
      match c.firstPort with
      | none => .ok portUnset
      | some first => first.scanned := by
  have full : ∀ word ∈ c.args.flatMap DaemonArg.words, decide (word ≠ []) = true := by
    intro word member
    obtain ⟨a, inArgs, inWords⟩ := List.mem_flatMap.1 member
    refine decide_eq_true (DaemonArg.ne_nil_of_mem_words ?_ inWords)
    rintro value given rfl
    obtain ⟨portno, parsed⟩ := numbers [] (List.mem_filterMap.2 ⟨a, inArgs, given⟩)
    cases parsed
  rw [getPortnoFromPidCmdline, CommandLine.argv, qviPidCmdline_procCmdline c.noNul,
    CommandLine.firstPort, ← scanPortno_words]
  by_cases empty : c.name = []
  · rw [List.filter_cons_of_neg (by simpa using empty), List.filter_eq_self.2 full]
  · rw [List.filter_cons_of_pos (by simpa using empty), List.filter_eq_self.2 full,
      c.scanPortno_name]

/-- The arguments with which `qvi_start_quo_vadisd` starts a daemon. -/
def startArgv (portno : Int) : List Word :=
  [daemonName, "--port".toList, (toString portno).toList]

/-- A daemon started by the library runs at the given port and is found there. -/
theorem qviStartQuoVadisd_found {portno : Int} (valid : validPortno portno = true) :
    parseArgs (startArgv portno) = .ok { portno := portno } ∧
      getPortnoFromPidCmdline (some (procCmdline (startArgv portno))) = .ok portno := by
  obtain ⟨n, rfl, small⟩ : ∃ n : Nat, portno = n ∧ n < 2 ^ 16 := by
    simp only [validPortno, Bool.not_eq_true', Bool.or_eq_false_iff, decide_eq_false_iff_not] at valid
    exact ⟨portno.toNat, by omega, by omega⟩
  have printed : (toString (n : Int)).toList = Nat.toDigits 10 n := Nat.toList_repr
  have parsed : qviStoi (Nat.toDigits 10 n) = .ok (n : Int) := qviStoi_toDigits (by omega)
  have noNul : nul ∉ Nat.toDigits 10 n := fun member =>
    absurd (Nat.isDigit_of_mem_toDigits (by decide) (by decide) member) (by decide)
  let c : CommandLine :=
    { name := daemonName
      args := [.portNext (Nat.toDigits 10 n)]
      named := by decide
      noNul := by
        intro word member
        have cases_ : word = daemonName ∨ word = "--port".toList ∨ word = Nat.toDigits 10 n := by
          simpa [DaemonArg.words] using member
        rcases cases_ with rfl | rfl | rfl
        · decide
        · decide
        · exact noNul }
  have same : startArgv n = c.argv := by rw [startArgv, printed]; rfl
  have run : parseOption {} (DaemonArg.portNext (Nat.toDigits 10 n)).read = .ok { portno := n } := by
    simp only [DaemonArg.read, parseOption, parsed]
    exact if_pos valid
  rw [same]
  constructor
  · simp only [parseArgs, getopt_argv, c, List.map_cons, List.map_nil, List.foldlM_cons,
      List.foldlM_nil, run]
    rfl
  · refine (getPortno_argv fun value given => ?_).trans parsed
    rw [List.mem_singleton.1 given]
    exact ⟨n, parsed⟩

/-! ## Agreement -/

/-- The first port option and the last give the same number, and the scan can read the
first: written `--port=N`, its value has no equals sign of its own. -/
def CommandLine.SamePort (c : CommandLine) : Prop :=
  ∀ first, c.firstPort = some first →
    (∀ value, first = .portEquals value → '=' ∉ value) ∧
      first.value.map qviStoi = c.ports.getLast?.map qviStoi

theorem CommandLine.getLast?_ports {c : CommandLine} :
    c.ports.getLast? = none ↔ c.firstPort = none := by
  rw [List.getLast?_eq_none_iff, CommandLine.ports, CommandLine.firstPort, List.find?_eq_none,
    List.filterMap_eq_nil_iff]
  simp

/-- The scan reads the last port off the first port option exactly if these two agree. -/
theorem CommandLine.scanned_first_iff {c : CommandLine} {first : DaemonArg}
    (found : c.firstPort = some first) {value : Word} (last : c.ports.getLast? = some value)
    {portno : Int} (parsed : qviStoi value = .ok portno) :
    first.scanned = .ok portno ↔ c.SamePort := by
  have given : first.value.isSome = true := by
    simpa using List.find?_some (p := fun a : DaemonArg => a.value.isSome) found
  simp only [CommandLine.SamePort, found, last, Option.map_some, parsed, Option.some.injEq,
    forall_eq']
  cases first with
  | noDaemonize => cases given
  | portNext value => simp [DaemonArg.scanned, DaemonArg.value]
  | portEquals value =>
      by_cases more : '=' ∈ value
      · simp [DaemonArg.scanned, DaemonArg.value, more]
      · simp [DaemonArg.scanned, DaemonArg.value, more]

/-- **Discovery agrees with the daemon** on a command line that it accepts exactly when
the first port option says what the last one says. -/
theorem getPortno_eq_parseArgs_iff (c : CommandLine) (qvd : Qvid)
    (accepted : parseArgs c.argv = .ok qvd) :
    getPortnoFromPidCmdline (some (procCmdline c.argv)) = .ok qvd.portno ↔ c.SamePort := by
  obtain ⟨numbers, stored⟩ := parseArgs_ok accepted
  rw [getPortno_argv numbers]
  cases found : c.firstPort with
  | none =>
      rw [CommandLine.getLast?_ports.2 found] at stored
      simp only [stored, CommandLine.SamePort, found]
      simp
  | some first =>
      cases last : c.ports.getLast? with
      | none => rw [CommandLine.getLast?_ports, found] at last; cases last
      | some lastValue =>
          rw [last] at stored
          exact CommandLine.scanned_first_iff found last stored

/-- quo-vadisd, started with the given options. -/
def startedWith (args : List DaemonArg)
    (noNul : ∀ word ∈ args.flatMap DaemonArg.words, nul ∉ word) : CommandLine where
  name := daemonName
  args := args
  named := by decide
  noNul := List.forall_mem_cons.2 ⟨by decide, noNul⟩

/-- `--port 5000 --no-daemonize --port=5000`: the same port twice. -/
theorem getPortno_eq_parseArgs_iff_samePortTwice :
    parseArgs (startedWith [.portNext "5000".toList, .noDaemonize, .portEquals "5000".toList]
      (by decide)).argv = .ok { portno := 5000, daemonized := false } ∧
    getPortnoFromPidCmdline (some (procCmdline (startedWith [.portNext "5000".toList, .noDaemonize,
      .portEquals "5000".toList] (by decide)).argv)) = .ok 5000 := by
  have accepted : parseArgs (startedWith [.portNext "5000".toList, .noDaemonize,
      .portEquals "5000".toList] (by decide)).argv = .ok { portno := 5000, daemonized := false } := by
    decide
  refine ⟨accepted, (getPortno_eq_parseArgs_iff _ _ accepted).2 fun first found => ?_⟩
  cases found
  exact ⟨by simp, rfl⟩

/-- `--port 5000 --port 6000`: the daemon runs at 6000, and is looked for at 5000. -/
theorem getPortno_twoPorts_differs :
    let c := startedWith [.portNext "5000".toList, .portNext "6000".toList] (by decide)
    parseArgs c.argv = .ok { portno := 6000 } ∧
      getPortnoFromPidCmdline (some (procCmdline c.argv)) = .ok 5000 := by
  exact ⟨by decide, by decide⟩

end QuoVadis.Kernel.PortDiscovery
