/-
# Kernel.Task -- bind stacks

A `qvi_task` keeps a stack of cpusets, seeded with the binding its thread had
when the task was made.  `bind_push` binds and then pushes; `bind_pop` pops and
then binds to what is on top.  The reply of the server to the bind request is an
input of the calls.

Two questions about whole runs.

* One task, any replies: `coherent_iff`.  The stack's top is the thread's binding
  and failed calls leave the stack alone exactly if every pop has a push to match
  and its request succeeds, because a pop has changed the stack before it finds
  out about either.
* One thread, many scopes, all requests succeed: `restores_iff`.  Every scope's
  group has a task of its own, seeded with what the server said of the thread's
  binding, and the thread has one binding.  A push and its pop bring the binding
  back exactly if the scope's own top was the binding when it was pushed.
-/
import QuoVadis.Kernel.Base
import Mathlib.Data.List.Basic

namespace QuoVadis.Kernel

set_option autoImplicit false

/-- `qvi_task`: its bind stack, top first. -/
structure Task where
  stack : List Bitmap
  deriving DecidableEq

/-- What a call leaves: its status, the task, and the binding the server applied. -/
structure BindCall where
  rc : Rc
  task : Task
  applied : Option Bitmap

namespace Task

/-- A task after `connect_to_server`: `m_init_bind_stack` pushed the current binding. -/
def connectToServer (current : Bitmap) : Task := ⟨[current]⟩

/-- `bind_push`, with the reply of `set_cpubind`. -/
def bindPush (t : Task) (cpuset : Bitmap) (reply : Rc) : BindCall :=
  if reply ≠ .success then ⟨reply, t, none⟩ else ⟨reply, ⟨cpuset :: t.stack⟩, some cpuset⟩

/-- `bind_pop`.  The stack is popped before the second check and before the request. -/
def bindPop (t : Task) (reply : Rc) : BindCall :=
  match t.stack with
  | [] => ⟨.err, t, none⟩
  | _ :: stack =>
      match stack with
      | [] => ⟨.err, ⟨[]⟩, none⟩
      | top :: _ => ⟨reply, ⟨stack⟩, if reply = .success then some top else none⟩

/-- `bind_top`. -/
def bindTop (t : Task) : Qv Bitmap :=
  match t.stack with
  | [] => .error (.ret .err)
  | top :: _ => .ok top

theorem bindPush_success (t : Task) (cpuset : Bitmap) :
    t.bindPush cpuset .success = ⟨.success, ⟨cpuset :: t.stack⟩, some cpuset⟩ := by
  simp [bindPush]

theorem bindPush_failure (t : Task) (cpuset : Bitmap) {reply : Rc} (failed : reply ≠ .success) :
    t.bindPush cpuset reply = ⟨reply, t, none⟩ := by
  rw [bindPush, if_pos failed]

end Task

/-! ## What hwloc and the kernel make of a binding -/

/-- The set `hwloc_fix_cpubind` goes on with.  One that covers the topology stands for all
the PUs of the machine, also for those that the topology leaves out. -/
def fixCpubind (topologyCpuset completeCpuset set : Bitmap) : Bitmap :=
  if topologyCpuset ⊆ set then completeCpuset else set

/-- `hwloc_linux_get_tid_cpubind`: the mask of a thread up to the last PU of the topology. -/
def getTidCpubind (completeCpuset mask : Bitmap) : Bitmap :=
  if completeCpuset = ∅ then mask else mask.filter fun pu => ∃ last ∈ completeCpuset, pu ≤ last

/-- A call and the reply its request gets. -/
inductive BindEvent where
  | push (cpuset : Bitmap) (reply : Rc)
  | pop (reply : Rc)

def BindEvent.call (t : Task) : BindEvent → BindCall
  | .push cpuset reply => t.bindPush cpuset reply
  | .pop reply => t.bindPop reply

/-- A task and the binding last applied for it. -/
structure BoundTask where
  task : Task
  bound : Bitmap

namespace BoundTask

/-- After a successful `connect_to_server`. -/
def connected (current : Bitmap) : BoundTask := ⟨.connectToServer current, current⟩

def step (s : BoundTask) (e : BindEvent) : BoundTask :=
  ⟨(e.call s.task).task, (e.call s.task).applied.getD s.bound⟩

/-- The same with the mask of the thread in place of the binding: `applied` is what hwloc
and the kernel make of a request that is granted. -/
def stepWith (applied : Bitmap → Bitmap) (s : BoundTask) (e : BindEvent) : BoundTask :=
  ⟨(e.call s.task).task, ((e.call s.task).applied.map applied).getD s.bound⟩

/-- The stack has a top and it is the binding. -/
def InSync (s : BoundTask) : Prop := s.task.stack.head? = some s.bound

/-- In every state of the run the stack is in sync, and every call that returns an
error leaves the stack as it was. -/
def Coherent : List BindEvent → BoundTask → Prop
  | [], s => s.InSync
  | e :: es, s => s.InSync ∧ ((e.call s.task).rc ≠ .success → (s.step e).task = s.task) ∧
      Coherent es (s.step e)

/-- A pop that has a push to match and whose request succeeds. -/
def Matched (s : BoundTask) : BindEvent → Prop
  | .push _ _ => True
  | .pop reply => 2 ≤ s.task.stack.length ∧ reply = .success

/-- Every pop of the run is matched. -/
def AllMatched : List BindEvent → BoundTask → Prop
  | [], _ => True
  | e :: es, s => s.Matched e ∧ AllMatched es (s.step e)

theorem connected_inSync (current : Bitmap) : (connected current).InSync := rfl

/-- A push keeps the stack in sync, whatever the reply. -/
theorem step_push {s : BoundTask} (sync : s.InSync) (cpuset : Bitmap) (reply : Rc) :
    (s.step (.push cpuset reply)).InSync ∧
      ((BindEvent.push cpuset reply).call s.task).rc = reply ∧
      (reply ≠ .success → (s.step (.push cpuset reply)).task = s.task) := by
  by_cases done : reply = .success
  · subst done
    simp [step, BindEvent.call, Task.bindPush_success, InSync]
  · have call : (BindEvent.push cpuset reply).call s.task = ⟨reply, s.task, none⟩ :=
      Task.bindPush_failure s.task cpuset done
    rw [step, call]
    exact ⟨sync, rfl, fun _ => rfl⟩

/-- A matched pop keeps the stack in sync and succeeds. -/
theorem step_pop_matched {s : BoundTask} (long : 2 ≤ s.task.stack.length) :
    (s.step (.pop .success)).InSync ∧ ((BindEvent.pop .success).call s.task).rc = .success := by
  obtain ⟨⟨stack⟩, bound⟩ := s
  match stack, long with
  | _ :: top :: rest, _ => exact ⟨rfl, rfl⟩

/-- Any other pop fails and has changed the stack. -/
theorem step_pop_unmatched {s : BoundTask} (sync : s.InSync) {reply : Rc}
    (unmatched : ¬ s.Matched (.pop reply)) :
    ((BindEvent.pop reply).call s.task).rc ≠ .success ∧ (s.step (.pop reply)).task ≠ s.task := by
  obtain ⟨⟨stack⟩, bound⟩ := s
  match stack with
  | [] => cases sync
  | [_] =>
      refine ⟨show Rc.err ≠ .success by decide, fun same => ?_⟩
      cases same
  | x :: top :: rest =>
      have failed : reply ≠ .success := fun done => unmatched ⟨by simp, done⟩
      refine ⟨failed, fun same => ?_⟩
      have := congrArg (fun t : Task => t.stack.length) same
      simp [step, BindEvent.call, Task.bindPop] at this

/-- **Coherent runs**, from any state in sync. -/
theorem coherent_iff_allMatched :
    ∀ (events : List BindEvent) {s : BoundTask}, s.InSync → (Coherent events s ↔ AllMatched events s)
  | [], s, sync => ⟨fun _ => True.intro, fun _ => sync⟩
  | .push cpuset reply :: es, s, sync => by
      obtain ⟨sync', status, kept⟩ := step_push sync cpuset reply
      simp only [Coherent, AllMatched, Matched, true_and, status]
      rw [coherent_iff_allMatched es sync']
      exact ⟨fun coherent => coherent.2.2, fun matched => ⟨sync, kept, matched⟩⟩
  | .pop reply :: es, s, sync => by
      by_cases matched : s.Matched (.pop reply)
      · obtain ⟨long, rfl⟩ := id matched
        obtain ⟨sync', status⟩ := step_pop_matched long
        simp only [Coherent, AllMatched]
        rw [coherent_iff_allMatched es sync']
        exact ⟨fun coherent => ⟨matched, coherent.2.2⟩,
          fun all => ⟨sync, fun failed => absurd status failed, all.2⟩⟩
      · obtain ⟨failed, changed⟩ := step_pop_unmatched sync matched
        exact iff_of_false (fun coherent => changed (coherent.2.1 failed)) fun all => matched all.1

/-- **When a run of pushes and pops is coherent.** -/
theorem coherent_iff (current : Bitmap) (events : List BindEvent) :
    Coherent events (connected current) ↔ AllMatched events (connected current) :=
  coherent_iff_allMatched events (connected_inSync current)

/-- A pop without a push returns an error and empties the stack. -/
theorem pop_unmatched_empties :
    ((BindEvent.pop .success).call (connected {0}).task).rc = .err ∧
      ((connected {0}).step (.pop .success)).task.stack = [] ∧
      ¬ Coherent [.pop .success] (connected {0}) := by
  refine ⟨rfl, rfl, fun coherent => ?_⟩
  have kept := coherent.2.1 (by decide)
  cases kept

end BoundTask

/-! ## One thread, many scopes -/

/-- A scope a thread has made: its cpuset, and the task of its group. -/
structure BoundScope where
  cpuset : Bitmap
  task : Task
  deriving DecidableEq

/-- A thread: the binding the OS has for it, and its scopes. -/
structure Thread where
  bound : Bitmap
  scopes : List BoundScope

/-- What the thread does: make a scope, `qv_bind_push` and `qv_bind_pop` one.  `current`
is what the server replies when the task of the scope asks for the thread's binding. -/
inductive ScopeEvent where
  | make (cpuset current : Bitmap)
  | push (i : Nat)
  | pop (i : Nat)

namespace Thread

/-- The effect of a call on a scope's task and on the thread's binding. -/
def withCall (t : Thread) (i : Nat) (call : BoundScope → BindCall) : Thread :=
  match t.scopes[i]? with
  | none => t
  | some scope =>
      { bound := (call scope).applied.getD t.bound
        scopes := t.scopes.set i { scope with task := (call scope).task } }

/-- One event.  All bind requests succeed. -/
def step (t : Thread) : ScopeEvent → Thread
  | .make cpuset current => { t with scopes := t.scopes ++ [⟨cpuset, .connectToServer current⟩] }
  | .push i => t.withCall i fun scope => scope.task.bindPush scope.cpuset .success
  | .pop i => t.withCall i fun scope => scope.task.bindPop .success

def run (t : Thread) (events : List ScopeEvent) : Thread := events.foldl step t

end Thread

/-- A well-nested sequence: every push stands with its pop of the same scope. -/
inductive Nest where
  | done
  | make (cpuset current : Bitmap) (rest : Nest)
  | block (i : Nat) (body rest : Nest)

namespace Nest

/-- The sequence as the thread sees it. -/
def events : Nest → List ScopeEvent
  | .done => []
  | .make cpuset current rest => .make cpuset current :: rest.events
  | .block i body rest => .push i :: (body.events ++ .pop i :: rest.events)

/-- The number of scopes made. -/
def makes : Nest → Nat
  | .done => 0
  | .make _ _ rest => rest.makes + 1
  | .block _ body rest => body.makes + rest.makes

/-- Pushes and pops name scopes that have been made. -/
def Names : Nest → Nat → Prop
  | .done, _ => True
  | .make _ _ rest, n => rest.Names (n + 1)
  | .block i body rest, n => i < n ∧ body.Names n ∧ rest.Names (n + body.makes)

instance decidableNames : (nest : Nest) → (n : Nat) → Decidable (nest.Names n)
  | .done, _ => isTrue True.intro
  | .make _ _ rest, n => decidableNames rest (n + 1)
  | .block i body rest, n =>
      have := decidableNames body n
      have := decidableNames rest (n + body.makes)
      inferInstanceAs (Decidable (i < n ∧ body.Names n ∧ rest.Names (n + body.makes)))

/-- Every pop brings back the binding from before its push. -/
def Restores : Nest → Thread → Prop
  | .done, _ => True
  | .make cpuset current rest, t => Restores rest (t.step (.make cpuset current))
  | .block i body rest, t =>
      let inside := t.step (.push i)
      let after := (inside.run body.events).step (.pop i)
      Restores body inside ∧ after.bound = t.bound ∧ Restores rest after

/-- Every push finds the thread's binding on top of its own scope's stack. -/
def Aligned : Nest → Thread → Prop
  | .done, _ => True
  | .make cpuset current rest, t => Aligned rest (t.step (.make cpuset current))
  | .block i body rest, t =>
      let inside := t.step (.push i)
      let after := (inside.run body.events).step (.pop i)
      (t.scopes[i]?.bind fun scope => scope.task.stack.head?) = some t.bound ∧
        Aligned body inside ∧ Aligned rest after

end Nest

/-- A well-nested sequence that may still be going on: pushes whose pops are yet to come,
and what is complete before, between and after them. -/
inductive Session where
  | closed (nest : Nest)
  | opened (nest : Nest) (i : Nat) (rest : Session)

namespace Session

/-- Pushes and pops name scopes that have been made. -/
def Names : Session → Nat → Prop
  | .closed nest, n => nest.Names n
  | .opened nest i rest, n => nest.Names n ∧ i < n + nest.makes ∧ rest.Names (n + nest.makes)

instance decidableNames : (session : Session) → (n : Nat) → Decidable (session.Names n)
  | .closed nest, n => inferInstanceAs (Decidable (nest.Names n))
  | .opened nest i rest, n =>
      have := decidableNames rest (n + nest.makes)
      inferInstanceAs (Decidable (nest.Names n ∧ i < n + nest.makes ∧ rest.Names (n + nest.makes)))

/-- Every pop so far brought back the binding from before its push. -/
def Restores : Session → Thread → Prop
  | .closed nest, t => nest.Restores t
  | .opened nest i rest, t =>
      nest.Restores t ∧ Restores rest ((t.run nest.events).step (.push i))

/-- Every push that was popped found the thread's binding on top of its own scope's stack. -/
def Aligned : Session → Thread → Prop
  | .closed nest, t => nest.Aligned t
  | .opened nest i rest, t =>
      nest.Aligned t ∧ Aligned rest ((t.run nest.events).step (.push i))

end Session

namespace Thread

/-- No scope has lost its first binding. -/
def Seeded (t : Thread) : Prop := ∀ scope ∈ t.scopes, scope.task.stack ≠ []

theorem run_append (t : Thread) (xs ys : List ScopeEvent) :
    t.run (xs ++ ys) = (t.run xs).run ys :=
  List.foldl_append

theorem step_make (t : Thread) (cpuset current : Bitmap) :
    t.step (.make cpuset current) =
      { t with scopes := t.scopes ++ [⟨cpuset, .connectToServer current⟩] } := rfl

theorem step_push {t : Thread} {i : Nat} {scope : BoundScope} (found : t.scopes[i]? = some scope) :
    t.step (.push i) =
      { bound := scope.cpuset
        scopes := t.scopes.set i { scope with task := ⟨scope.cpuset :: scope.task.stack⟩ } } := by
  simp [step, withCall, found, Task.bindPush_success]

/-- A pop of a scope with two entries goes back to the lower one. -/
theorem step_pop {t : Thread} {i : Nat} {cpuset x top : Bitmap} {rest : List Bitmap}
    (found : t.scopes[i]? = some ⟨cpuset, ⟨x :: top :: rest⟩⟩) :
    t.step (.pop i) =
      { bound := top, scopes := t.scopes.set i ⟨cpuset, ⟨top :: rest⟩⟩ } := by
  simp [step, withCall, found, Task.bindPop]

theorem seeded_make {t : Thread} (seeded : t.Seeded) (cpuset current : Bitmap) :
    (t.step (.make cpuset current)).Seeded := by
  intro scope member
  rw [step_make] at member
  rcases List.mem_append.1 member with old | new
  · exact seeded scope old
  · rw [List.mem_singleton.1 new]
    exact List.cons_ne_nil _ _

theorem seeded_push {t : Thread} (seeded : t.Seeded) {i : Nat} {scope : BoundScope}
    (found : t.scopes[i]? = some scope) : (t.step (.push i)).Seeded := by
  intro scope' member
  rw [step_push found] at member
  rcases List.mem_or_eq_of_mem_set member with old | rfl
  · exact seeded scope' old
  · exact List.cons_ne_nil _ _

/-- A pop after a push of the same scope, with the stacks of the scopes unchanged in
between: the stacks are those from before the push, and the binding is the
scope's own top. -/
theorem step_pop_push {t middle : Thread} {i : Nat} {scope : BoundScope} {top : Bitmap}
    {rest : List Bitmap} {made : List BoundScope} (found : t.scopes[i]? = some scope)
    (stack : scope.task.stack = top :: rest)
    (kept : middle.scopes = (t.step (.push i)).scopes ++ made) :
    middle.step (.pop i) = ⟨top, t.scopes ++ made⟩ := by
  have inList : i < t.scopes.length := (List.getElem?_eq_some_iff.1 found).1
  rw [step_push found] at kept
  have here : middle.scopes[i]? = some ⟨scope.cpuset, ⟨scope.cpuset :: top :: rest⟩⟩ := by
    rw [kept, List.getElem?_append_left (by simpa using inList)]
    simp [inList, stack]
  rw [step_pop here, kept]
  congr 1
  rw [List.set_append_left _ _ (by simpa using inList), List.set_set]
  congr 1
  apply List.ext_getElem?
  intro j
  rw [List.getElem?_set]
  split
  · rename_i same
    subst same
    rw [found, ← stack]
  · rfl

end Thread

namespace Nest

/-- What a well-nested sequence leaves of the scopes: the old ones as they were, and
those it made. -/
def Keeps (nest : Nest) (t : Thread) : Prop :=
  ∃ made, (t.run nest.events).scopes = t.scopes ++ made ∧ made.length = nest.makes ∧
    (t.run nest.events).Seeded

/-- A block whose body keeps the stacks ends with the scope's own top as the binding
and keeps the stacks too. -/
theorem after_block {t : Thread} {i : Nat} {body : Nest} {scope : BoundScope} {top : Bitmap}
    {lower : List Bitmap} (seeded : t.Seeded) (found : t.scopes[i]? = some scope)
    (stack : scope.task.stack = top :: lower) (keeps : body.Keeps (t.step (.push i))) :
    ∃ made, ((t.step (.push i)).run body.events).step (.pop i) = ⟨top, t.scopes ++ made⟩ ∧
      made.length = body.makes ∧ (Thread.mk top (t.scopes ++ made)).Seeded := by
  obtain ⟨made, kept, count, seededBody⟩ := keeps
  refine ⟨made, Thread.step_pop_push found stack kept, count, ?_⟩
  intro scope member
  rcases List.mem_append.1 member with old | new
  · exact seeded scope old
  · exact seededBody scope (by rw [kept]; exact List.mem_append.2 (Or.inr new))

/-- What a block's parts name, once the scope is pushed and once the body is over. -/
theorem names_push {t : Thread} {i : Nat} {body : Nest} {scope : BoundScope}
    (found : t.scopes[i]? = some scope) (names : body.Names t.scopes.length) :
    body.Names (t.step (.push i)).scopes.length := by
  rw [Thread.step_push found, List.length_set]
  exact names

theorem names_rest {t : Thread} {body rest : Nest} {top : Bitmap} {made : List BoundScope}
    (count : made.length = body.makes) (names : rest.Names (t.scopes.length + body.makes)) :
    rest.Names (Thread.mk top (t.scopes ++ made)).scopes.length := by
  rw [List.length_append, count]
  exact names

theorem names_make {t : Thread} {cpuset current : Bitmap} {rest : Nest}
    (names : (make cpuset current rest).Names t.scopes.length) :
    rest.Names (t.step (.make cpuset current)).scopes.length := by
  rw [Thread.step_make, List.length_append]
  exact names

/-- The scope of a block and the top of its stack. -/
theorem exists_top {t : Thread} (seeded : t.Seeded) {i : Nat} (inList : i < t.scopes.length) :
    ∃ scope top lower, t.scopes[i]? = some scope ∧ scope.task.stack = top :: lower := by
  obtain ⟨top, lower, stack⟩ := List.exists_cons_of_ne_nil
    (seeded t.scopes[i] (List.getElem_mem inList))
  exact ⟨t.scopes[i], top, lower, List.getElem?_eq_getElem inList, stack⟩

theorem run_block (t : Thread) (i : Nat) (body rest : Nest) :
    t.run (block i body rest).events =
      (((t.step (.push i)).run body.events).step (.pop i)).run rest.events := by
  show (t.step (.push i)).run (body.events ++ .pop i :: rest.events) = _
  rw [Thread.run_append]
  rfl

/-- **A well-nested sequence leaves the stacks of the old scopes as they were.** -/
theorem keeps :
    ∀ (nest : Nest) {t : Thread}, nest.Names t.scopes.length → t.Seeded → nest.Keeps t
  | .done, t, _, seeded => ⟨[], by simp [events, Thread.run], rfl, seeded⟩
  | .make cpuset current rest, t, names, seeded => by
      obtain ⟨made, kept, count, seeded'⟩ :=
        keeps rest (names_make names) (Thread.seeded_make seeded cpuset current)
      refine ⟨⟨cpuset, .connectToServer current⟩ :: made, ?_, by simp [makes, count], seeded'⟩
      show ((t.step (.make cpuset current)).run rest.events).scopes = _
      rw [kept, Thread.step_make]
      simp
  | .block i body rest, t, names, seeded => by
      obtain ⟨inList, namesBody, namesRest⟩ := names
      obtain ⟨scope, top, lower, found, stack⟩ := exists_top seeded inList
      obtain ⟨made, after, count, seededAfter⟩ := after_block seeded found stack
        (keeps body (names_push found namesBody) (Thread.seeded_push seeded found))
      obtain ⟨made', kept', count', seeded'⟩ := keeps rest (names_rest count namesRest) seededAfter
      rw [Keeps, run_block, after]
      exact ⟨made ++ made', by rw [kept', List.append_assoc], by simp [makes, count, count'], seeded'⟩

theorem restores_iff_aligned :
    ∀ (nest : Nest) (t : Thread), nest.Names t.scopes.length → t.Seeded →
      (nest.Restores t ↔ nest.Aligned t)
  | .done, t, _, _ => Iff.rfl
  | .make cpuset current rest, t, names, seeded =>
      restores_iff_aligned rest (t.step (.make cpuset current)) (names_make names)
        (Thread.seeded_make seeded cpuset current)
  | .block i body rest, t, names, seeded => by
      obtain ⟨inList, namesBody, namesRest⟩ := names
      obtain ⟨scope, top, lower, found, stack⟩ := exists_top seeded inList
      have namesPush := names_push found namesBody
      have seededPush := Thread.seeded_push seeded found
      obtain ⟨made, after, count, seededAfter⟩ := after_block seeded found stack
        (keeps body namesPush seededPush)
      have own : (t.scopes[i]?.bind fun scope => scope.task.stack.head?) = some top := by
        rw [found, Option.bind_some, stack]
        rfl
      simp only [Restores, Aligned]
      rw [restores_iff_aligned body _ namesPush seededPush, own, after,
        restores_iff_aligned rest _ (names_rest count namesRest) seededAfter, Option.some.injEq]
      exact and_left_comm

end Nest

namespace Session

theorem restores_iff_aligned :
    ∀ (session : Session) (t : Thread), session.Names t.scopes.length → t.Seeded →
      (session.Restores t ↔ session.Aligned t)
  | .closed nest, t, names, seeded => nest.restores_iff_aligned t names seeded
  | .opened nest i rest, t, names, seeded => by
      obtain ⟨namesNest, inList, namesRest⟩ := names
      obtain ⟨made, kept, count, seeded'⟩ := nest.keeps namesNest seeded
      have length : (t.run nest.events).scopes.length = t.scopes.length + nest.makes := by
        rw [kept, List.length_append, count]
      rw [← length] at inList namesRest
      have found := List.getElem?_eq_getElem inList
      have namesPush : rest.Names ((t.run nest.events).step (.push i)).scopes.length := by
        rw [Thread.step_push found, List.length_set]
        exact namesRest
      show _ ∧ _ ↔ _ ∧ _
      rw [nest.restores_iff_aligned t namesNest seeded,
        restores_iff_aligned rest _ namesPush (Thread.seeded_push seeded' found)]

end Session

end QuoVadis.Kernel
