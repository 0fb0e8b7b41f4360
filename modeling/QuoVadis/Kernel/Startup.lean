/-
# Kernel.Startup -- daemons are there before their clients look for them

The constructor of `qvi_mpi` sees to it that every node has a daemon: one process of the
node looks for one and starts one if it finds none (`m_start_daemons`), while the others
wait in a barrier.  Then every process makes a task, and every task looks for a daemon on
its own, in its own environment (`Kernel.Discovery`).

`startup_connects` puts the two together: after a start that reported success every
client of the node connects to a daemon, and if its environment is that of the process
that did the start and names a port, to the daemon at this port.
-/
import QuoVadis.Kernel.Discovery

namespace QuoVadis.Kernel.PortDiscovery

open QuoVadis.Theory

set_option autoImplicit false

/-- `qvi_start_quo_vadisd`: the status, and the port of the daemon that is started. -/
def qviStartQuoVadisd (fork : Bool) (portno : Int) : Rc × Option Int :=
  if fork then (.success, some portno) else (.errSys, none)

/-- What the representative of a node does in `m_start_daemons`.  It is alone in its
communicator, so `get_portno_from_env` gives it its own port. -/
def startNodeDaemon (environ : List Word) (world : World) (jdist : Jitter) (fork : Bool) :
    Qv (Rc × Option Int) := do
  let portno ← qviPortFromEnv environ
  -- try to use the requested port
  if portno ≠ portUnset then
    let ((rc, portno), _) ← sessionDiscover world jdist 16 portno
    if rc = .success then .ok (rc, none) else .ok (qviStartQuoVadisd fork portno)
  else
    let ((rc, _), _) ← sessionDiscover world jdist 16 portno
    if rc = .success then .ok (rc, none) else .ok (qviStartQuoVadisd fork 57550)

/-- `m_start_daemons`, up to the status of its barrier: the status, and the port of the
daemon that is started. -/
def mStartDaemons (rep : Bool) (environ : List Word) (world : World) (jdist : Jitter) (fork : Bool)
    (barrier : Rc) : Qv (Rc × Option Int) := do
  let (rc, started) ← (if rep then startNodeDaemon environ world jdist fork else .ok (.success, none) :
    Qv (Rc × Option Int))
  .ok (if barrier ≠ .success then barrier else rc, started)

section

variable {world : World} {daemons : Nat → List Daemon} {jdist : Jitter} {environ : List Word}
  {envport : Int} {fork : Bool}

/-- A successful start: there was a daemon, at the port asked for if one was, or one is
started, at this port or else the default port. -/
theorem startNodeDaemon_ok (up : Up world daemons) (env : qviPortFromEnv environ = .ok envport)
    {started : Option Int} (run : startNodeDaemon environ world jdist fork = .ok (.success, started)) :
    (started = none → ∃ t, ∃ d ∈ daemons t, ∃ url port, d.url = .ok (url, port) ∧
        (envport ≠ portUnset → port = envport)) ∧
      ∀ portno, started = some portno → portno = if envport = portUnset then 57550 else envport := by
  rw [startNodeDaemon, env] at run
  change (if envport ≠ portUnset then _ else _) = _ at run
  obtain ⟨rc, port, waited, searched⟩ := up.sessionDiscover jdist 16 envport
  obtain ⟨-, found, missing⟩ := sessionDiscover_ok _ _ _ _ _ _ _ searched
  rw [searched] at run
  by_cases done : rc = .success
  · obtain ⟨wanted, offers⟩ := found done
    obtain ⟨d, member, url, listens⟩ := (up.offers_iff wanted.1).1 offers
    have seen : ∃ t, ∃ d ∈ daemons t, ∃ url port, d.url = .ok (url, port) ∧
        (envport ≠ portUnset → port = envport) :=
      ⟨waited, d, member, url, port, listens, fun isSet => (wanted.2.resolve_left isSet).symm⟩
    split at run
    · change (if rc = .success then _ else _) = _ at run
      rw [if_pos done] at run
      cases run
      exact ⟨fun _ => seen, by simp⟩
    · change (if rc = .success then _ else _) = _ at run
      rw [if_pos done] at run
      cases run
      exact ⟨fun _ => seen, by simp⟩
  · have same := (missing done).2.1
    have starts : ∀ portno, Except.ok (qviStartQuoVadisd fork portno) =
        (.ok (.success, started) : Qv (Rc × Option Int)) → started = some portno := by
      intro portno run
      rw [qviStartQuoVadisd] at run
      split at run
      · cases run
        rfl
      · cases run
    split at run
    · rename_i isSet
      change (if rc = .success then _ else _) = _ at run
      rw [if_neg done] at run
      refine ⟨by simp [starts _ run], fun portno given => ?_⟩
      rw [starts _ run, same] at given
      cases given
      exact (if_neg isSet).symm
    · rename_i unset
      change (if rc = .success then _ else _) = _ at run
      rw [if_neg done] at run
      refine ⟨by simp [starts _ run], fun portno given => ?_⟩
      rw [starts _ run] at given
      cases given
      exact (if_pos (not_not.1 unset)).symm

/-- A start on a node without daemons starts one. -/
theorem startNodeDaemon_forks (up : Up world daemons) (empty : ∀ t, daemons t = [])
    (env : qviPortFromEnv environ = .ok envport) :
    startNodeDaemon environ world jdist true =
      .ok (.success, some (if envport = portUnset then 57550 else envport)) := by
  obtain ⟨rc, port, waited, searched⟩ := up.sessionDiscover jdist 16 envport
  obtain ⟨-, found, missing⟩ := sessionDiscover_ok _ _ _ _ _ _ _ searched
  have failed : rc ≠ .success := by
    intro done
    obtain ⟨wanted, offers⟩ := found done
    obtain ⟨d, member, -⟩ := (up.offers_iff wanted.1).1 offers
    rw [empty] at member
    cases member
  rw [startNodeDaemon, env]
  change (if envport ≠ portUnset then _ else _) = _
  rw [searched]
  by_cases isSet : envport = portUnset
  · rw [if_neg (not_not.2 isSet), if_pos isSet]
    exact if_neg failed
  · rw [if_pos isSet, if_neg isSet, ← (missing failed).2.1]
    exact if_neg failed

/-- A daemon that was started by the library listens where it was told to. -/
theorem url_of_startArgv {d : Daemon} {portno : Int} (valid : validPortno portno = true)
    (line : d.line.argv = startArgv portno) : ∃ url, d.url = .ok (url, portno) := by
  refine ⟨"tcp://127.0.0.1".toList ++ ":".toList ++ (toString portno).toList, ?_⟩
  rw [Daemon.url, line, (qviStartQuoVadisd_found valid).1]
  exact qviRmiGetUrl_of_ne (ne_portUnset_of_validPortno valid)

end

/-- **After a start that succeeded, clients find a daemon.**  The daemon that was found is
still there and the one that was started has come up, both when a client's time is up at
the latest; what else there is comes and goes. -/
theorem startup_connects (world₀ world : World) (daemons₀ daemons : Nat → List Daemon)
    (up₀ : Up world₀ daemons₀) (up : Up world daemons) (jdist₀ jdist : Jitter) (fork : Bool)
    (barrier : Rc) (environ environ' : List Word) (envport envport' : Int) (started : Option Int)
    (env : qviPortFromEnv environ = .ok envport) (env' : qviPortFromEnv environ' = .ok envport')
    (valid : envport = portUnset ∨ validPortno envport = true)
    (run : mStartDaemons true environ world₀ jdist₀ fork barrier = .ok (.success, started))
    (stays : started = none → ∀ t, ∀ d ∈ daemons₀ t, ∀ t', 1023 ≤ t' → d ∈ daemons t')
    (comesUp : ∀ portno, started = some portno → ∀ t', 1023 ≤ t' →
      ∃ d ∈ daemons t', d.line.argv = startArgv portno) :
    ∃ url port, connectUrl environ' world jdist = .ok (url, port) ∧
      (∃ t, ∃ d ∈ daemons t, d.url = .ok (url, port)) ∧
      (envport' = envport → envport ≠ portUnset → port = envport) := by
  obtain ⟨⟨rc, started'⟩, worked, run⟩ := bind_ok run
  simp only [if_true] at worked
  have ends : rc = .success ∧ started' = started := by
    dsimp only at run
    split at run
    · rename_i failed
      cases run
      exact absurd rfl failed
    · cases run
      exact ⟨rfl, rfl⟩
  obtain ⟨rfl, rfl⟩ := ends
  obtain ⟨found, begun⟩ := startNodeDaemon_ok up₀ env worked
  -- from 1023 ms on there is a daemon, and at the port asked for if one was
  have there : ∀ t, 1023 ≤ t → ∃ d ∈ daemons t, ∃ url port, d.url = .ok (url, port) ∧
      (envport ≠ portUnset → port = envport) := by
    intro t' late
    cases started' with
    | none =>
        obtain ⟨t, d, member, url, port, listens, asked⟩ := found rfl
        exact ⟨d, stays rfl t d member t' late, url, port, listens, asked⟩
    | some portno =>
        obtain ⟨d, member, line⟩ := comesUp portno rfl t' late
        have same := begun portno rfl
        have validStart : validPortno portno = true := by
          rw [same]
          split
          · decide
          · rename_i isSet
            exact valid.resolve_left isSet
        obtain ⟨url, listens⟩ := url_of_startArgv validStart line
        refine ⟨d, member, url, portno, listens, fun isSet => ?_⟩
        rw [same, if_neg isSet]
  obtain ⟨rc, port, search, discovered⟩ := discover_discovered jdist up env'
  have done : rc = .success := discovered.complete fun t late => by
    obtain ⟨d, member, -⟩ := there t late
    exact List.ne_nil_of_mem member
  obtain ⟨t, d, member, url, listens⟩ := discovered.sound done
  have connects := connectUrl_eq search discovered.isSet
  rw [if_pos done] at connects
  refine ⟨_, port, connects, ⟨t, d, member, ?_⟩, ?_⟩
  · rw [listens, (Daemon.url_eq listens).2]
  · rintro rfl isSet
    refine (discovered.asked isSet fun t late => ?_).2
    obtain ⟨d, member, url, port, listens, same⟩ := there t late
    exact ⟨d, member, url, same isSet ▸ listens⟩

/-- A machine without daemons. -/
def emptyProc : ProcFs where
  entries := some [⟨"1".toList, true, some "systemd".toList⟩]
  cmdline := fun _ => none
  environ := fun _ => none

theorem emptyProc_up : Up (fun _ => emptyProc) fun _ => [] where
  running := fun _ => ⟨[], by decide, by simp, by simp⟩
  shown := by simp
  listens := by simp
  readable := by simp

/-- What `qvi_start_quo_vadisd` starts for port 6000. -/
def startedDaemon : Daemon where
  pid := 4711
  line := startedWith [.portNext "6000".toList] (by decide)
  environ := []
  noNul := by simp

/-- The machine after the start.  The process that the library has forked, 4710, has forked
the daemon and exited; nobody waits for it. -/
def startedProc : ProcFs where
  entries := some [⟨"1".toList, true, some "systemd".toList⟩, ⟨"4710".toList, true, some daemonName⟩,
    ⟨"4711".toList, true, some daemonName⟩]
  cmdline := fun pid => if pid = 4711 then some (procCmdline startedDaemon.line.argv) else some []
  environ := fun _ => some []

theorem startedProc_up : Up (fun _ => startedProc) fun _ => [startedDaemon] where
  running := by
    refine fun _ => ⟨[4710, 4711], by decide, by decide, fun pid member => ?_⟩
    rcases List.mem_cons.1 member with rfl | member
    · exact .inr (Exited.portOfPid ⟨.inr rfl, .inr rfl⟩)
    · exact .inl ⟨startedDaemon, List.mem_singleton_self _, (List.mem_singleton.1 member).symm⟩
  shown := fun _ d member => List.mem_singleton.1 member ▸ ⟨rfl, rfl⟩
  listens := fun _ d member => List.mem_singleton.1 member ▸
    ⟨"tcp://127.0.0.1:6000".toList, 6000, by decide⟩
  readable := by
    intro _ d member
    rw [List.mem_singleton.1 member]
    refine ⟨fun first found => ?_, fun none_ => by cases none_⟩
    cases found
    exact ⟨by simp, rfl⟩

/-- Two starts: on the machine of `envDaemon`, asked for its port, and on a machine without
daemons, asked for port 6000. -/
theorem startup_connects_foundAndForked :
    (∃ url port, connectUrl ["QV_PORT=55995".toList] (fun _ => envDaemonProc) (fun _ _ => 0) =
      .ok (url, port) ∧ port = 55995) ∧
    ∃ url port, connectUrl ["QV_PORT=6000".toList] (fun _ => startedProc) (fun _ _ => 0) =
      .ok (url, port) ∧ port = 6000 := by
  constructor
  · have made : discoverImpl envDaemonProc 55995 = .ok (.success, 55995) := by decide
    have search : sessionDiscover (fun _ => envDaemonProc) (fun _ _ => 0) 16 55995 =
        .ok ((.success, 55995), 0) := by
      rw [sessionDiscover, Backoff.retry, made]
      rfl
    have env : qviPortFromEnv ["QV_PORT=55995".toList] = .ok 55995 := by decide
    have run : mStartDaemons true ["QV_PORT=55995".toList] (fun _ => envDaemonProc) (fun _ _ => 0)
        true .success = .ok (.success, none) := by
      rw [mStartDaemons, if_pos rfl, startNodeDaemon, env]
      change (sessionDiscover _ _ 16 55995 >>= _) >>= _ = _
      rw [search]
      rfl
    obtain ⟨url, port, connects, -, same⟩ := startup_connects (fun _ => envDaemonProc)
      (fun _ => envDaemonProc) (fun _ => [envDaemon]) (fun _ => [envDaemon]) envDaemon_up envDaemon_up
      (fun _ _ => 0) (fun _ _ => 0) true .success ["QV_PORT=55995".toList] ["QV_PORT=55995".toList]
      55995 55995 none env env (.inr (by decide)) run (fun _ _ _ member _ _ => member)
      (fun _ given => by cases given)
    exact ⟨url, port, connects, same rfl (by decide)⟩
  · have env : qviPortFromEnv ["QV_PORT=6000".toList] = .ok 6000 := by decide
    have run : mStartDaemons true ["QV_PORT=6000".toList] (fun _ => emptyProc) (fun _ _ => 0)
        true .success = .ok (.success, some 6000) := by
      rw [mStartDaemons, if_pos rfl, startNodeDaemon_forks emptyProc_up (fun _ => rfl) env]
      rfl
    obtain ⟨url, port, connects, -, same⟩ := startup_connects (fun _ => emptyProc)
      (fun _ => startedProc) (fun _ => []) (fun _ => [startedDaemon]) emptyProc_up startedProc_up
      (fun _ _ => 0) (fun _ _ => 0) true .success ["QV_PORT=6000".toList] ["QV_PORT=6000".toList]
      6000 6000 (some 6000) env env (.inr (by decide)) run (fun given => by cases given)
      (fun portno given _ _ => ⟨startedDaemon, List.mem_singleton_self _, by cases given; decide⟩)
    exact ⟨url, port, connects, same rfl (by decide)⟩

end QuoVadis.Kernel.PortDiscovery
