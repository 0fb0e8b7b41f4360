/-
# Kernel.SessionDir -- the files that daemons publish, while daemons come and go

A daemon writes its topologies into files for its clients to load.  The files are in a
session directory that is named after the port; the daemon makes it unless it is there,
and when it ends it removes it with everything below if it made it.  The files are named
after the process, and their owner unlinks them when it is destroyed.  So daemons that
are started for one port share a directory, and one may remove it while another uses it.

* `published`: in every interleaving in which this does not happen, and no file of a dead
  process of the same number is in the way, a daemon that serves has its files in place;
* `tidy`: in every interleaving, also when it does happen, daemons that all end by
  themselves leave the file system as they found it.

A daemon that ends has left its loop, cleans up, gives its port back and unlinks its
files, in this order: `stolenSession` is the run in which the next daemon comes in
between.
-/
import Mathlib.Logic.Function.Basic
import QuoVadis.Kernel.PortDiscovery

namespace QuoVadis.Kernel.SessionDir

open QuoVadis.Theory
open QuoVadis.Kernel.PortDiscovery (daemonName)

set_option autoImplicit false

/-! ## The file system -/

/-- The directories there are, and the files with their content. -/
structure Files where
  dir : Word → Bool
  file : Word → Option (List UInt8)

/-- A path is another one, or is below it. -/
def Under (path p : Word) : Bool := path = p || (path ++ ['/']).isPrefixOf p

theorem under_iff {path p : Word} : Under path p = true ↔ path = p ∨ ∃ rest, path ++ '/' :: rest = p := by
  rw [Under, Bool.or_eq_true, decide_eq_true_iff, List.isPrefixOf_iff_prefix]
  refine or_congr_right (exists_congr fun rest => ?_)
  rw [List.append_assoc, List.singleton_append]

namespace Files

variable (fs : Files)

def mkdir (path : Word) : Files := { fs with dir := Function.update fs.dir path true }

/-- `s_topo_fopen` and `write`: the file is not truncated. -/
def write (path : Word) (content : List UInt8) : Files :=
  { fs with
    file := Function.update fs.file path
      (some (content ++ ((fs.file path).getD []).drop content.length)) }

def unlink (path : Word) : Files := { fs with file := Function.update fs.file path none }

/-- `qvi_rmall`; it may fail on the way, and what it does not come to stays. -/
def rmall (path : Word) (removed : Word → Bool) : Files where
  dir := fun p => fs.dir p && !(Under path p && removed p)
  file := fun p => if Under path p && removed p then none else fs.file p

variable {fs}

theorem write_file_of_ne {path p : Word} {content : List UInt8} (other : p ≠ path) :
    (fs.write path content).file p = fs.file p :=
  Function.update_of_ne other _ _

/-- A file that was not longer is replaced. -/
theorem write_file_self {path : Word} {content : List UInt8}
    (short : ∀ old, fs.file path = some old → old.length ≤ content.length) :
    (fs.write path content).file path = some content := by
  have written : (fs.write path content).file path =
      some (content ++ ((fs.file path).getD []).drop content.length) := Function.update_self _ _ _
  rw [written]
  cases here : fs.file path with
  | none => simp
  | some old => simp [List.drop_eq_nil_of_le (short old here)]

theorem unlink_file_of_ne {path p : Word} (other : p ≠ path) : (fs.unlink path).file p = fs.file p :=
  Function.update_of_ne other _ _

end Files

/-! ## A daemon -/

/-- `qvi_hwloc::topo_types`: `QVI_HWLOC_FLAG_TOPO_FULL` and `QVI_HWLOC_FLAG_TOPO_NO_SMT`. -/
def topoTypes : List Nat := [1, 2]

section Daemons

variable (tmpdir : Word) (xml : Nat → Nat → List UInt8)

/-- `make_session_dir`: the path. -/
def sessionDir (portno : Int) : Word :=
  tmpdir ++ '/' :: (daemonName ++ '.' :: (toString portno).toList)

/-- `topo_fname`. -/
def topoFname (base : Word) (pid flags : Nat) : Word :=
  base ++ '/' :: ("hwtopo.".toList ++ ((toString pid).toList ++ '-' :: ((toString flags).toList ++
    ".xml".toList)))

/-- How far a daemon has come. -/
inductive Phase where
  | starting
  /-- Its session directory was not there. -/
  | making
  | publishing
  | serving
  | left
  | cleaned
  | closed
  deriving DecidableEq

/-- A quo-vadisd, and the topologies whose `m_topo_file` is in place. -/
structure Qvid where
  portno : Int
  createdSessionDir : Bool
  phase : Phase
  topoFiles : List Nat

inductive Action where
  /-- `make_session_dir`, in two steps. -/
  | access
  | mkdir
  /-- A turn of the loop of `qvi_rmi_server::topology_export`. -/
  | publish
  /-- `start_rmi_server`, until it serves. -/
  | listen
  | leave
  | cleanup (removed : Word → Bool)
  /-- `~qvi_rmi_server`: the socket first, and then the topologies. -/
  | close
  | unlink
  /-- A panic, or a signal that is not handled. -/
  | crash

/-- What an action of the daemon with the given process ID makes of the files, of the
ports and of itself; `none` when it is not possible. -/
def Qvid.act (pid : Nat) (fs : Files) (owner : Int → Option Nat) (q : Qvid) :
    Action → Option (Files × (Int → Option Nat) × Option Qvid)
  | .access =>
      if q.phase = .starting then
        if fs.dir (sessionDir tmpdir q.portno) then some (fs, owner, some { q with phase := .publishing })
        else some (fs, owner, some { q with phase := .making })
      else none
  | .mkdir =>
      if q.phase = .making ∧ fs.dir (sessionDir tmpdir q.portno) = false then
        some (fs.mkdir (sessionDir tmpdir q.portno), owner,
          some { q with createdSessionDir := true, phase := .publishing })
      else none
  | .publish =>
      match topoTypes.drop q.topoFiles.length with
      | [] => none
      | flags :: _ =>
          if q.phase = .publishing ∧ fs.dir (sessionDir tmpdir q.portno) = true then
            some (fs.write (topoFname (sessionDir tmpdir q.portno) pid flags) (xml pid flags), owner,
              some { q with topoFiles := q.topoFiles ++ [flags] })
          else none
  | .listen =>
      if q.phase = .publishing ∧ q.topoFiles = topoTypes ∧ owner q.portno = none then
        some (fs, Function.update owner q.portno (some pid), some { q with phase := .serving })
      else none
  | .leave => if q.phase = .serving then some (fs, owner, some { q with phase := .left }) else none
  | .cleanup removed =>
      if q.phase = .left then
        some (if q.createdSessionDir then fs.rmall (sessionDir tmpdir q.portno) removed else fs, owner,
          some { q with phase := .cleaned })
      else none
  | .close =>
      if q.phase = .cleaned then
        some (fs, Function.update owner q.portno none, some { q with phase := .closed })
      else none
  | .unlink =>
      if q.phase = .closed then
        match q.topoFiles with
        | [] => some (fs, owner, none)
        | flags :: rest =>
            some (fs.unlink (topoFname (sessionDir tmpdir q.portno) pid flags), owner,
              some { q with topoFiles := rest })
      else none
  | .crash =>
      some (fs, if owner q.portno = some pid then Function.update owner q.portno none else owner, none)

/-! ## All of them -/

/-- A node: its files, who has which port, and the daemons by process ID. -/
structure Node where
  fs : Files
  owner : Int → Option Nat
  daemon : Nat → Option Qvid

inductive Event where
  | start (pid : Nat) (portno : Int)
  | act (pid : Nat) (action : Action)

def Node.step (node : Node) : Event → Option Node
  | .start pid portno =>
      match node.daemon pid with
      | none => some { node with daemon := Function.update node.daemon pid (some ⟨portno, false, .starting, []⟩) }
      | some _ => none
  | .act pid action =>
      match node.daemon pid with
      | none => none
      | some q =>
          match q.act tmpdir xml pid node.fs node.owner action with
          | none => none
          | some (fs, owner, q') => some ⟨fs, owner, Function.update node.daemon pid q'⟩

def Node.run (node : Node) : List Event → Option Node
  | [] => some node
  | event :: events => do
      let node ← node.step tmpdir xml event
      run node events

/-- A node without daemons. -/
def Node.initial (fs : Files) : Node := ⟨fs, fun _ => none, fun _ => none⟩

/-! ## Names -/

variable {tmpdir xml}

theorem sessionDir_inj {p q : Int} (same : sessionDir tmpdir p = sessionDir tmpdir q) : p = q := by
  rw [sessionDir, sessionDir, List.append_right_inj, List.cons_inj_right, List.append_right_inj,
    List.cons_inj_right] at same
  exact toString_int_inj same

theorem slash_not_mem_toString (i : Int) : '/' ∉ (toString i).toList := by
  intro member
  rcases mem_toString_int member with digit | minus
  · exact absurd digit (by decide)
  · exact absurd minus (by decide)

/-- A path below a session directory is below no other. -/
theorem sessionDir_slash_inj {p q : Int} {rest rest' : Word}
    (same : sessionDir tmpdir p ++ '/' :: rest = sessionDir tmpdir q ++ '/' :: rest') :
    p = q ∧ rest = rest' := by
  rw [sessionDir, sessionDir] at same
  simp only [List.append_assoc, List.cons_append, List.append_cancel_left_eq, List.cons.injEq,
    true_and] at same
  obtain ⟨ports, rests⟩ := append_delimiter_inj (slash_not_mem_toString p) (slash_not_mem_toString q) same
  exact ⟨toString_int_inj ports, rests⟩

/-- The file names are all different. -/
theorem topoFname_inj {p q : Int} {pid pid' flags flags' : Nat}
    (same : topoFname (sessionDir tmpdir p) pid flags = topoFname (sessionDir tmpdir q) pid' flags') :
    p = q ∧ pid = pid' ∧ flags = flags' := by
  obtain ⟨rfl, names⟩ := sessionDir_slash_inj same
  rw [List.append_right_inj] at names
  have free : ∀ n : Nat, '-' ∉ (toString n).toList := by
    intro n member
    rw [toList_toString_nat] at member
    exact absurd (mem_toDigits member) (by decide)
  obtain ⟨pids, rest⟩ := append_delimiter_inj (free pid) (free pid') names
  rw [List.append_left_inj, toList_toString_nat, toList_toString_nat] at rest
  rw [toList_toString_nat, toList_toString_nat] at pids
  exact ⟨rfl, toDigits_inj pids, toDigits_inj rest⟩

/-- A file is below the session directory that it is in, and below no other. -/
theorem under_topoFname {p q : Int} {pid flags : Nat} :
    Under (sessionDir tmpdir q) (topoFname (sessionDir tmpdir p) pid flags) = true ↔ q = p := by
  rw [under_iff]
  constructor
  · rintro (same | ⟨rest, same⟩)
    · -- a directory is not named like a file
      rw [topoFname, sessionDir, sessionDir] at same
      simp only [List.append_assoc, List.cons_append, List.append_cancel_left_eq, List.cons.injEq,
        true_and] at same
      refine absurd ?_ (slash_not_mem_toString q)
      rw [same]
      exact List.mem_append_right _ List.mem_cons_self
    · exact (sessionDir_slash_inj same).1
  · rintro rfl
    exact .inr ⟨_, rfl⟩

theorem under_sessionDir {p q : Int} :
    Under (sessionDir tmpdir q) (sessionDir tmpdir p) = true ↔ q = p := by
  rw [under_iff]
  constructor
  · rintro (same | ⟨rest, same⟩)
    · exact sessionDir_inj same
    · rw [sessionDir, sessionDir] at same
      simp only [List.append_assoc, List.cons_append, List.append_cancel_left_eq, List.cons.injEq,
        true_and] at same
      refine absurd ?_ (slash_not_mem_toString p)
      rw [← same]
      exact List.mem_append_right _ List.mem_cons_self
  · rintro rfl
    exact .inl rfl

/-! ## What one daemon does to the files -/

/-- The actions that are possible, and what comes of them. -/
inductive Acts (tmpdir : Word) (xml : Nat → Nat → List UInt8) (pid : Nat) (fs : Files)
    (owner : Int → Option Nat) (q : Qvid) : Action → Files → (Int → Option Nat) → Option Qvid → Prop
  | found (starting : q.phase = .starting) :
      Acts tmpdir xml pid fs owner q .access fs owner (some { q with phase := .publishing })
  | missed (starting : q.phase = .starting) :
      Acts tmpdir xml pid fs owner q .access fs owner (some { q with phase := .making })
  | mkdir (making : q.phase = .making) :
      Acts tmpdir xml pid fs owner q .mkdir (fs.mkdir (sessionDir tmpdir q.portno)) owner
        (some { q with createdSessionDir := true, phase := .publishing })
  | publish (flags : Nat) (publishing : q.phase = .publishing) :
      Acts tmpdir xml pid fs owner q .publish
        (fs.write (topoFname (sessionDir tmpdir q.portno) pid flags) (xml pid flags)) owner
        (some { q with topoFiles := q.topoFiles ++ [flags] })
  | listen (publishing : q.phase = .publishing) (complete : q.topoFiles = topoTypes)
      (free : owner q.portno = none) :
      Acts tmpdir xml pid fs owner q .listen fs (Function.update owner q.portno (some pid))
        (some { q with phase := .serving })
  | leave (serving : q.phase = .serving) :
      Acts tmpdir xml pid fs owner q .leave fs owner (some { q with phase := .left })
  | cleanup (removed : Word → Bool) (left_ : q.phase = .left) (created : q.createdSessionDir = true) :
      Acts tmpdir xml pid fs owner q (.cleanup removed) (fs.rmall (sessionDir tmpdir q.portno) removed)
        owner (some { q with phase := .cleaned })
  | noCleanup (removed : Word → Bool) (left_ : q.phase = .left) (notCreated : ¬ q.createdSessionDir = true) :
      Acts tmpdir xml pid fs owner q (.cleanup removed) fs owner (some { q with phase := .cleaned })
  | close (cleaned : q.phase = .cleaned) :
      Acts tmpdir xml pid fs owner q .close fs (Function.update owner q.portno none)
        (some { q with phase := .closed })
  | unlink (closed : q.phase = .closed) (flags : Nat) (rest : List Nat)
      (files : q.topoFiles = flags :: rest) :
      Acts tmpdir xml pid fs owner q .unlink
        (fs.unlink (topoFname (sessionDir tmpdir q.portno) pid flags)) owner
        (some { q with topoFiles := rest })
  | gone (closed : q.phase = .closed) (files : q.topoFiles = []) :
      Acts tmpdir xml pid fs owner q .unlink fs owner none
  | crash {owner' : Int → Option Nat} : Acts tmpdir xml pid fs owner q .crash fs owner' none

section Act

variable {pid : Nat} {fs fs' : Files} {owner owner' : Int → Option Nat} {q : Qvid} {q' : Option Qvid}
  {action : Action}

theorem act_acts (run : q.act tmpdir xml pid fs owner action = some (fs', owner', q')) :
    Acts tmpdir xml pid fs owner q action fs' owner' q' := by
  cases action with
  | access =>
      simp only [Qvid.act] at run
      split at run
      · rename_i starting
        split at run
        · cases run
          exact .found starting
        · cases run
          exact .missed starting
      · cases run
  | mkdir =>
      simp only [Qvid.act] at run
      split at run
      · rename_i possible
        cases run
        exact .mkdir possible.1
      · cases run
  | publish =>
      simp only [Qvid.act] at run
      split at run
      · cases run
      · split at run
        · rename_i possible
          cases run
          exact .publish _ possible.1
        · cases run
  | listen =>
      simp only [Qvid.act] at run
      split at run
      · rename_i possible
        cases run
        exact .listen possible.1 possible.2.1 possible.2.2
      · cases run
  | leave =>
      simp only [Qvid.act] at run
      split at run
      · rename_i serving
        cases run
        exact .leave serving
      · cases run
  | cleanup removed =>
      simp only [Qvid.act] at run
      split at run
      · rename_i left_
        cases run
        split
        · rename_i created
          exact .cleanup removed left_ created
        · rename_i notCreated
          exact .noCleanup removed left_ notCreated
      · cases run
  | close =>
      simp only [Qvid.act] at run
      split at run
      · rename_i cleaned
        cases run
        exact .close cleaned
      · cases run
  | unlink =>
      simp only [Qvid.act] at run
      split at run
      · rename_i closed
        split at run
        · rename_i files
          cases run
          exact .gone closed files
        · rename_i flags rest files
          cases run
          exact .unlink closed flags rest files
      · cases run
  | crash =>
      simp only [Qvid.act] at run
      cases run
      exact .crash

/-- The files that an action can change: those of the daemon itself, and those below its
session directory if it made that and cleans up. -/
theorem act_file (acts : Acts tmpdir xml pid fs owner q action fs' owner' q') (path : Word) :
    fs'.file path = fs.file path ∨
      (∃ flags, path = topoFname (sessionDir tmpdir q.portno) pid flags) ∨
      ∃ removed, action = .cleanup removed ∧ q.createdSessionDir = true ∧
        Under (sessionDir tmpdir q.portno) path = true := by
  cases acts with
  | publish flags =>
      by_cases own : path = topoFname (sessionDir tmpdir q.portno) pid flags
      · exact .inr (.inl ⟨flags, own⟩)
      · exact .inl (Files.write_file_of_ne own)
  | unlink _ flags =>
      by_cases own : path = topoFname (sessionDir tmpdir q.portno) pid flags
      · exact .inr (.inl ⟨flags, own⟩)
      · exact .inl (Files.unlink_file_of_ne own)
  | cleanup removed _ created =>
      by_cases below : Under (sessionDir tmpdir q.portno) path = true
      · exact .inr (.inr ⟨removed, rfl, created, below⟩)
      · rw [Bool.not_eq_true] at below
        exact .inl (by simp [Files.rmall, below])
  | found | missed | mkdir | listen | leave | noCleanup | close | gone | crash => exact .inl rfl

/-- What holds of a daemon whose files nobody touches. -/
structure Qvid.InPlace (tmpdir : Word) (xml : Nat → Nat → List UInt8) (fs : Files) (pid : Nat)
    (q : Qvid) : Prop where
  fresh : q.phase = .starting ∨ q.phase = .making → q.topoFiles = []
  complete : q.phase = .serving → q.topoFiles = topoTypes
  content : q.phase = .publishing ∨ q.phase = .serving → ∀ flags ∈ q.topoFiles,
    fs.file (topoFname (sessionDir tmpdir q.portno) pid flags) = some (xml pid flags)

/-- Its own actions keep that, if it does not find a longer file under its name. -/
theorem act_inPlace {next : Qvid} (inPlace : q.InPlace tmpdir xml fs pid)
    (acts : Acts tmpdir xml pid fs owner q action fs' owner' (some next))
    (noStale : action = .publish → ∀ flags old,
      fs.file (topoFname (sessionDir tmpdir q.portno) pid flags) = some old →
        old.length ≤ (xml pid flags).length) :
    next.InPlace tmpdir xml fs' pid := by
  obtain ⟨fresh, complete, content⟩ := inPlace
  cases acts with
  | found starting => exact ⟨by simp, by simp, by simp [fresh (.inl starting)]⟩
  | missed starting => exact ⟨fun _ => fresh (.inl starting), by simp, by simp⟩
  | mkdir making => exact ⟨by simp, by simp, by simp [fresh (.inr making)]⟩
  | publish flags publishing =>
      refine ⟨by simp [publishing], by simp [publishing], fun _ other member => ?_⟩
      by_cases same : other = flags
      · subst same
        exact Files.write_file_self (noStale rfl other)
      · have before : other ∈ q.topoFiles := by simpa [same] using member
        refine (Files.write_file_of_ne ?_).trans (content (.inl publishing) other before)
        exact fun names => same (topoFname_inj names).2.2
  | listen publishing complete_ => exact ⟨by simp, fun _ => complete_, fun _ => content (.inl publishing)⟩
  | unlink closed => exact ⟨by simp [closed], by simp [closed], by simp [closed]⟩
  | leave | cleanup | noCleanup | close => exact ⟨by simp, by simp, by simp⟩

end Act

/-! ## Files stay in place -/

/-- No step takes a file away from a daemon that needs it: no other daemon of the port
cleans up, and a name is not taken by a longer file of an earlier process. -/
def Undisturbed (tmpdir : Word) (xml : Nat → Nat → List UInt8) (node : Node) : Event → Prop
  | .act pid (.cleanup _) => ∀ q, node.daemon pid = some q → q.createdSessionDir = true →
      ∀ other q', other ≠ pid → node.daemon other = some q' → q'.portno = q.portno →
        q'.phase ≠ .publishing ∧ q'.phase ≠ .serving
  | .act pid .publish => ∀ q, node.daemon pid = some q → ∀ flags old,
      node.fs.file (topoFname (sessionDir tmpdir q.portno) pid flags) = some old →
        old.length ≤ (xml pid flags).length
  | _ => True

/-- A run of such steps. -/
def UndisturbedRun (tmpdir : Word) (xml : Nat → Nat → List UInt8) : Node → List Event → Prop
  | _, [] => True
  | node, event :: events => Undisturbed tmpdir xml node event ∧
      ∀ node', node.step tmpdir xml event = some node' → UndisturbedRun tmpdir xml node' events

theorem step_inPlace {node node' : Node} {event : Event}
    (inPlace : ∀ pid q, node.daemon pid = some q → q.InPlace tmpdir xml node.fs pid)
    (undisturbed : Undisturbed tmpdir xml node event)
    (run : node.step tmpdir xml event = some node') :
    ∀ pid q, node'.daemon pid = some q → q.InPlace tmpdir xml node'.fs pid := by
  intro pid' q' there
  cases event with
  | start pid portno =>
      simp only [Node.step] at run
      split at run
      · cases run
        dsimp only at there
        by_cases same : pid' = pid
        · subst same
          rw [Function.update_self] at there
          cases there
          exact ⟨by simp, by simp, by simp⟩
        · rw [Function.update_of_ne same] at there
          exact inPlace pid' q' there
      · cases run
  | act pid action =>
      simp only [Node.step] at run
      split at run
      · cases run
      · rename_i q here
        split at run
        · cases run
        · rename_i fs owner next acted
          cases run
          dsimp only at there
          by_cases same : pid' = pid
          · subst same
            rw [Function.update_self] at there
            subst there
            refine act_inPlace (inPlace pid' q here) (act_acts acted) ?_
            rintro rfl
            exact undisturbed q here
          · rw [Function.update_of_ne same] at there
            obtain ⟨fresh, complete, content⟩ := inPlace pid' q' there
            refine ⟨fresh, complete, fun phase flags member => ?_⟩
            -- the file of another daemon
            rcases act_file (act_acts acted) (topoFname (sessionDir tmpdir q'.portno) pid' flags) with
              kept | ⟨flags', own⟩ | ⟨removed, rfl, created, below⟩
            · exact kept.trans (content phase flags member)
            · exact absurd (topoFname_inj own).2.1 same
            · obtain ⟨noPublish, noServe⟩ := undisturbed q here created pid' q' same there
                (under_topoFname.1 below).symm
              exact absurd phase (not_or.2 ⟨noPublish, noServe⟩)

theorem run_inPlace {events : List Event} :
    ∀ {node node' : Node}, (∀ pid q, node.daemon pid = some q → q.InPlace tmpdir xml node.fs pid) →
      UndisturbedRun tmpdir xml node events → node.run tmpdir xml events = some node' →
      ∀ pid q, node'.daemon pid = some q → q.InPlace tmpdir xml node'.fs pid := by
  induction events with
  | nil =>
      intro node node' inPlace _ run
      cases run
      exact inPlace
  | cons event rest ih =>
      intro node node' inPlace undisturbed run
      obtain ⟨mid, first, later⟩ := Option.bind_eq_some_iff.1 run
      exact ih (step_inPlace inPlace undisturbed.1 first) (undisturbed.2 mid first) later

/-- **A daemon that serves has its files in place**, each with the topology that it is
named after, in every interleaving of daemons that do not disturb each other. -/
theorem published (tmpdir : Word) (xml : Nat → Nat → List UInt8) (fs : Files) (events : List Event)
    (node : Node) (undisturbed : UndisturbedRun tmpdir xml (.initial fs) events)
    (run : (Node.initial fs).run tmpdir xml events = some node) (pid : Nat) (q : Qvid)
    (there : node.daemon pid = some q) (serving : q.phase = .serving) :
    ∀ flags ∈ topoTypes, node.fs.file (topoFname (sessionDir tmpdir q.portno) pid flags) =
      some (xml pid flags) := by
  have inPlace : q.InPlace tmpdir xml node.fs pid :=
    run_inPlace (fun _ _ none_ => by cases none_) undisturbed run pid q there
  intro flags member
  refine inPlace.content (.inr serving) flags ?_
  rw [inPlace.complete serving]
  exact member

/-- A machine with nothing in its temporary directory. -/
def emptyTmp : Files := ⟨fun p => p = "/tmp".toList, fun _ => none⟩

/-- A topology that is two bytes long. -/
def shortXml (pid flags : Nat) : List UInt8 := [UInt8.ofNat pid, UInt8.ofNat flags]

/-- A daemon starts, and serves. -/
def oneStart (pid : Nat) (portno : Int) : List Event :=
  [.start pid portno, .act pid .access, .act pid .mkdir, .act pid .publish, .act pid .publish,
    .act pid .listen]

theorem oneStart_undisturbed :
    UndisturbedRun "/tmp".toList shortXml (.initial emptyTmp) (oneStart 7 5000) := by
  refine ⟨trivial, fun _ run => ?_⟩
  cases run
  refine ⟨trivial, fun _ run => ?_⟩
  cases run
  refine ⟨trivial, fun _ run => ?_⟩
  cases run
  refine ⟨fun _ _ _ _ none_ => (by cases none_), fun _ run => ?_⟩
  cases run
  refine ⟨fun _ here flags old found => ?_, fun _ run => ⟨trivial, fun _ _ => trivial⟩⟩
  cases here
  by_cases first : flags = 1
  · subst first
    cases found
    decide
  · rw [Files.write_file_of_ne fun names => first (topoFname_inj names).2.2] at found
    cases found

theorem published_oneStart :
    ∃ node : Node, (Node.initial emptyTmp).run "/tmp".toList shortXml (oneStart 7 5000) = some node ∧
      ∀ flags ∈ topoTypes, node.fs.file (topoFname "/tmp/quo-vadisd.5000".toList 7 flags) =
        some (shortXml 7 flags) := by
  obtain ⟨node, q, run, there, serving, port⟩ : ∃ (node : Node) (q : Qvid),
      (Node.initial emptyTmp).run "/tmp".toList shortXml (oneStart 7 5000) = some node ∧
        node.daemon 7 = some q ∧ q.phase = .serving ∧ q.portno = 5000 := ⟨_, _, rfl, rfl, rfl, rfl⟩
  have names : sessionDir "/tmp".toList 5000 = "/tmp/quo-vadisd.5000".toList := by decide
  refine ⟨node, run, ?_⟩
  rw [← names, ← port]
  exact published "/tmp".toList shortXml emptyTmp (oneStart 7 5000) node oneStart_undisturbed run 7 q there serving

/-- The first daemon of a port is about to end when the second one starts. -/
def stolenSession : List Event :=
  oneStart 7 5000 ++ [.act 7 .leave, .start 8 5000, .act 8 .access, .act 8 .publish, .act 8 .publish,
    .act 7 (.cleanup fun _ => true), .act 7 .close, .act 8 .listen]

/-- The second daemon serves, and what it tells its clients to load is not there. -/
example :
    ∃ (node : Node) (q : Qvid),
      (Node.initial emptyTmp).run "/tmp".toList shortXml stolenSession = some node ∧
        node.daemon 8 = some q ∧ q.phase = .serving ∧
        node.fs.file (topoFname (sessionDir "/tmp".toList 5000) 8 1) = none :=
  ⟨_, _, rfl, rfl, rfl, by decide⟩

/-! ## Nothing stays behind -/

/-- From the making of its session directory to its removal. -/
def Phase.Holds (phase : Phase) : Prop := phase = .publishing ∨ phase = .serving ∨ phase = .left

/-- A path is that of a file of the daemon. -/
def Owns (tmpdir : Word) (pid : Nat) (q : Option Qvid) (p : Word) : Prop :=
  ∃ here flags, q = some here ∧ flags ∈ here.topoFiles ∧
    p = topoFname (sessionDir tmpdir here.portno) pid flags

/-- A path is the session directory that the daemon has made. -/
def Made (tmpdir : Word) (q : Option Qvid) (p : Word) : Prop :=
  ∃ here, q = some here ∧ here.createdSessionDir = true ∧ here.phase.Holds ∧
    p = sessionDir tmpdir here.portno

/-- What an action does to the files if nothing goes wrong: what there is afterwards is
the daemon's, or it was there and is not. -/
structure Effect (tmpdir : Word) (pid : Nat) (fs fs' : Files) (q : Qvid) (q' : Option Qvid) : Prop where
  outside : ∀ p, Under (sessionDir tmpdir q.portno) p = false →
    fs'.dir p = fs.dir p ∧ fs'.file p = fs.file p
  files : ∀ p, fs'.file p ≠ none → Owns tmpdir pid q' p ∨ fs.file p ≠ none ∧ ¬ Owns tmpdir pid (some q) p
  dirs : ∀ p, fs'.dir p = true → Made tmpdir q' p ∨ fs.dir p = true ∧ ¬ Made tmpdir (some q) p

/-- Daemons end by themselves, and what they remove goes. -/
def Orderly : Event → Prop
  | .act _ .crash => False
  | .act _ (.cleanup removed) => ∀ p, removed p = true
  | _ => True

/-- A step of a daemon on its way. -/
theorem effect_phase {pid : Nat} {fs : Files} {q : Qvid} {phase : Phase}
    (holds : q.phase.Holds → q.createdSessionDir = true → phase.Holds) :
    Effect tmpdir pid fs fs q (some { q with phase := phase }) where
  outside := fun _ _ => ⟨rfl, rfl⟩
  files := by
    intro p there
    by_cases own : Owns tmpdir pid (some q) p
    · obtain ⟨here, flags, same, member, name⟩ := own
      cases same
      exact .inl ⟨_, flags, rfl, member, name⟩
    · exact .inr ⟨there, own⟩
  dirs := by
    intro p there
    by_cases made : Made tmpdir (some q) p
    · obtain ⟨here, same, created, inUse, name⟩ := made
      cases same
      exact .inl ⟨_, rfl, created, holds inUse created, name⟩
    · exact .inr ⟨there, made⟩

theorem not_made {q : Qvid} {p : Word} (notHeld : ¬ q.phase.Holds) : ¬ Made tmpdir (some q) p := by
  rintro ⟨here, same, -, inUse, -⟩
  cases same
  exact notHeld inUse

theorem act_effect {pid : Nat} {fs fs' : Files} {owner owner' : Int → Option Nat} {q : Qvid}
    {q' : Option Qvid} {action : Action} (orderly : Orderly (.act pid action))
    (acts : Acts tmpdir xml pid fs owner q action fs' owner' q') :
    Effect tmpdir pid fs fs' q q' := by
  cases acts with
  | found starting | missed starting => exact effect_phase fun inUse => by simp [starting, Phase.Holds] at inUse
  | listen => exact effect_phase fun _ _ => .inr (.inl rfl)
  | leave => exact effect_phase fun _ _ => .inr (.inr rfl)
  | noCleanup _ _ notCreated => exact effect_phase fun _ created => absurd created notCreated
  | close cleaned => exact effect_phase fun inUse => by simp [cleaned, Phase.Holds] at inUse
  | crash => exact orderly.elim
  | mkdir making =>
      have notHeld : ¬ q.phase.Holds := by simp [making, Phase.Holds]
      refine ⟨fun p outside => ⟨?_, rfl⟩, fun p there => ?_, fun p there => ?_⟩
      · refine Function.update_of_ne ?_ _ _
        rintro rfl
        rw [under_sessionDir.2 rfl] at outside
        cases outside
      · by_cases own : Owns tmpdir pid (some q) p
        · obtain ⟨here, flags, same, member, name⟩ := own
          cases same
          exact .inl ⟨_, flags, rfl, member, name⟩
        · exact .inr ⟨there, own⟩
      · by_cases same : p = sessionDir tmpdir q.portno
        · exact .inl ⟨_, rfl, rfl, .inl rfl, same⟩
        · exact .inr ⟨by simpa [Files.mkdir, same] using there, not_made notHeld⟩
  | publish flags =>
      refine ⟨fun p outside => ⟨rfl, Files.write_file_of_ne ?_⟩, fun p there => ?_, fun p there => ?_⟩
      · rintro rfl
        rw [under_topoFname.2 rfl] at outside
        cases outside
      · by_cases same : p = topoFname (sessionDir tmpdir q.portno) pid flags
        · exact .inl ⟨_, flags, rfl, List.mem_append_right _ (List.mem_singleton_self _), same⟩
        · rw [Files.write_file_of_ne same] at there
          by_cases own : Owns tmpdir pid (some q) p
          · obtain ⟨here, flags', same', member, name⟩ := own
            cases same'
            exact .inl ⟨_, flags', rfl, List.mem_append_left _ member, name⟩
          · exact .inr ⟨there, own⟩
      · by_cases made : Made tmpdir (some q) p
        · obtain ⟨here, same, created, inUse, name⟩ := made
          cases same
          exact .inl ⟨_, rfl, created, inUse, name⟩
        · exact .inr ⟨there, made⟩
  | cleanup removed =>
      refine ⟨fun p outside => ?_, fun p there => ?_, fun p there => ?_⟩
      · simp [Files.rmall, outside]
      · by_cases below : Under (sessionDir tmpdir q.portno) p = true
        · simp [Files.rmall, below, orderly p] at there
        · simp only [Files.rmall, below, Bool.false_and, Bool.false_eq_true, if_false] at there
          refine .inr ⟨there, ?_⟩
          rintro ⟨here, flags, same, -, rfl⟩
          cases same
          exact below (under_topoFname.2 rfl)
      · by_cases below : Under (sessionDir tmpdir q.portno) p = true
        · simp [Files.rmall, below, orderly p] at there
        · refine .inr ⟨by simpa [Files.rmall, below] using there, ?_⟩
          rintro ⟨here, same, -, -, rfl⟩
          cases same
          exact below (under_sessionDir.2 rfl)
  | gone closed files =>
      have notHeld : ¬ q.phase.Holds := by simp [closed, Phase.Holds]
      refine ⟨fun _ _ => ⟨rfl, rfl⟩, fun p there => .inr ⟨there, ?_⟩,
        fun p there => .inr ⟨there, not_made notHeld⟩⟩
      rintro ⟨here, flags, same, member, -⟩
      cases same
      rw [files] at member
      cases member
  | unlink closed flags rest files =>
      have notHeld : ¬ q.phase.Holds := by simp [closed, Phase.Holds]
      refine ⟨fun p outside => ⟨rfl, Files.unlink_file_of_ne ?_⟩, fun p there => ?_,
        fun p there => .inr ⟨there, not_made notHeld⟩⟩
      · rintro rfl
        rw [under_topoFname.2 rfl] at outside
        cases outside
      · by_cases same : p = topoFname (sessionDir tmpdir q.portno) pid flags
        · subst same
          exact absurd (Function.update_self _ _ _) there
        · rw [Files.unlink_file_of_ne same] at there
          by_cases own : Owns tmpdir pid (some q) p
          · obtain ⟨here, flags', same', member, rfl⟩ := own
            cases same'
            rw [files] at member
            rcases List.mem_cons.1 member with rfl | member
            · exact absurd rfl same
            · exact .inl ⟨_, flags', rfl, member, rfl⟩
          · exact .inr ⟨there, own⟩

/-- Below the session directories there is only what a daemon is going to remove. -/
structure Tidy (tmpdir : Word) (fs₀ : Files) (node : Node) : Prop where
  outside : ∀ p, (∀ portno, Under (sessionDir tmpdir portno) p = false) →
    node.fs.dir p = fs₀.dir p ∧ node.fs.file p = fs₀.file p
  files : ∀ p portno, Under (sessionDir tmpdir portno) p = true → node.fs.file p ≠ none →
    ∃ pid, Owns tmpdir pid (node.daemon pid) p
  dirs : ∀ p portno, Under (sessionDir tmpdir portno) p = true → node.fs.dir p = true →
    ∃ pid, Made tmpdir (node.daemon pid) p

theorem step_tidy {fs₀ : Files} {node node' : Node} {event : Event} (tidy : Tidy tmpdir fs₀ node)
    (orderly : Orderly event) (run : node.step tmpdir xml event = some node') :
    Tidy tmpdir fs₀ node' := by
  cases event with
  | start pid portno =>
      simp only [Node.step] at run
      split at run
      · rename_i new
        cases run
        -- no process has this number yet
        refine ⟨tidy.outside, fun p port below there => ?_, fun p port below there => ?_⟩
        · obtain ⟨other, own⟩ := tidy.files p port below there
          have different : other ≠ pid := by
            rintro rfl
            obtain ⟨here, -, same, -⟩ := own
            rw [new] at same
            cases same
          exact ⟨other, by simpa [different] using own⟩
        · obtain ⟨other, made⟩ := tidy.dirs p port below there
          have different : other ≠ pid := by
            rintro rfl
            obtain ⟨here, same, -⟩ := made
            rw [new] at same
            cases same
          exact ⟨other, by simpa [different] using made⟩
      · cases run
  | act pid action =>
      simp only [Node.step] at run
      split at run
      · cases run
      · rename_i q here
        split at run
        · cases run
        · rename_i fs owner next acted
          cases run
          have effect := act_effect orderly (act_acts acted)
          refine ⟨fun p apart => ?_, fun p port below there => ?_, fun p port below there => ?_⟩
          · obtain ⟨dir, file⟩ := effect.outside p (apart q.portno)
            obtain ⟨dir₀, file₀⟩ := tidy.outside p apart
            exact ⟨dir.trans dir₀, file.trans file₀⟩
          · rcases effect.files p there with own | ⟨before, notOwn⟩
            · exact ⟨pid, by simpa using own⟩
            · obtain ⟨other, own⟩ := tidy.files p port below before
              have different : other ≠ pid := by
                rintro rfl
                rw [here] at own
                exact notOwn own
              exact ⟨other, by simpa [different] using own⟩
          · rcases effect.dirs p there with made | ⟨before, notMade⟩
            · exact ⟨pid, by simpa using made⟩
            · obtain ⟨other, made⟩ := tidy.dirs p port below before
              have different : other ≠ pid := by
                rintro rfl
                rw [here] at made
                exact notMade made
              exact ⟨other, by simpa [different] using made⟩

theorem run_tidy {fs₀ : Files} {events : List Event} :
    ∀ {node node' : Node}, Tidy tmpdir fs₀ node → (∀ event ∈ events, Orderly event) →
      node.run tmpdir xml events = some node' → Tidy tmpdir fs₀ node' := by
  induction events with
  | nil =>
      intro node node' tidy _ run
      cases run
      exact tidy
  | cons event rest ih =>
      intro node node' tidy orderly run
      obtain ⟨mid, first, later⟩ := Option.bind_eq_some_iff.1 run
      obtain ⟨now, after⟩ := List.forall_mem_cons.1 orderly
      exact ih (step_tidy tidy now first) after later

/-- **Daemons leave nothing behind.**  In every interleaving of daemons none of which is
killed, when the last one is gone the file system is as it was, if there were no session
directories to begin with. -/
theorem tidy (tmpdir : Word) (xml : Nat → Nat → List UInt8) (fs : Files) (events : List Event)
    (node : Node)
    (clean : ∀ portno p, Under (sessionDir tmpdir portno) p = true → fs.dir p = false ∧ fs.file p = none)
    (orderly : ∀ event ∈ events, Orderly event)
    (run : (Node.initial fs).run tmpdir xml events = some node)
    (gone : ∀ pid, node.daemon pid = none) : node.fs = fs := by
  have initial : Tidy tmpdir fs (Node.initial fs) := by
    refine ⟨fun _ _ => ⟨rfl, rfl⟩, fun p port below there => ?_, fun p port below there => ?_⟩
    · exact absurd (clean port p below).2 there
    · rw [Node.initial, (clean port p below).1] at there
      cases there
  obtain ⟨outside, files, dirs⟩ := run_tidy initial orderly run
  have same : ∀ p, node.fs.dir p = fs.dir p ∧ node.fs.file p = fs.file p := by
    intro p
    by_cases apart : ∀ portno, Under (sessionDir tmpdir portno) p = false
    · exact outside p apart
    · push Not at apart
      obtain ⟨portno, below⟩ := apart
      rw [ne_eq, Bool.not_eq_false] at below
      obtain ⟨noDir, noFile⟩ := clean portno p below
      constructor
      · rw [noDir, ← Bool.not_eq_true]
        intro there
        obtain ⟨pid, here, same, -⟩ := dirs p portno below there
        rw [gone pid] at same
        cases same
      · rw [noFile]
        by_contra there
        obtain ⟨pid, here, -, same, -⟩ := files p portno below there
        rw [gone pid] at same
        cases same
  obtain ⟨dir, file⟩ := fs
  cases node with
  | mk fs' _ _ =>
      obtain ⟨dir', file'⟩ := fs'
      obtain rfl : dir' = dir := funext fun p => (same p).1
      obtain rfl : file' = file := funext fun p => (same p).2
      rfl

/-- The daemon of `oneStart` serves, and ends. -/
def startAndEnd : List Event :=
  oneStart 7 5000 ++ [.act 7 .leave, .act 7 (.cleanup fun _ => true), .act 7 .close, .act 7 .unlink,
    .act 7 .unlink, .act 7 .unlink]

theorem tidy_startAndEnd :
    ∃ node : Node, (Node.initial emptyTmp).run "/tmp".toList shortXml startAndEnd = some node ∧
      node.fs = emptyTmp := by
  obtain ⟨node, run, gone⟩ : ∃ node : Node,
      (Node.initial emptyTmp).run "/tmp".toList shortXml startAndEnd = some node ∧
        ∀ pid, node.daemon pid = none := by
    refine ⟨_, rfl, fun pid => ?_⟩
    by_cases same : pid = 7
    · subst same
      rfl
    · simp only [Function.update_of_ne same]
      rfl
  refine ⟨node, run, tidy "/tmp".toList shortXml emptyTmp startAndEnd node ?_ ?_ run gone⟩
  · intro portno p below
    refine ⟨?_, rfl⟩
    have longer : "/tmp".toList ≠ p := by
      rintro rfl
      rcases under_iff.1 below with same | ⟨rest, same⟩
      · exact absurd (congrArg List.length same) (by simp [sessionDir])
      · exact absurd (congrArg List.length same) (by simp [sessionDir])
    simpa [emptyTmp] using Ne.symm longer
  · simp [startAndEnd, oneStart, Orderly]

end Daemons

end QuoVadis.Kernel.SessionDir
