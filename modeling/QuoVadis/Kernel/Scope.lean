/-
# Kernel.Scope -- scopes and what can be made of them

A scope is a group of tasks and, for each of them, a hardware pool.  Scopes come
from an intrinsic scope by collective splits (`split`, `split_at`), by splits
over threads (`thread_split`, `thread_split_at`) and by `create`.  Thread groups
support none of these, so their scopes are leaves.

`ScopeStep` is the growth of the tree of scopes of a program; every scope keeps
where it came from.  Over all runs:

* `split_contained`: a child of a split has PUs its base pool does not own only
  if a device of the split type reaches outside the pool (`DevicesInside`);
* `create_contained_iff`: a created scope has devices its parent does not have
  exactly if the topology has such a device inside the selected cpuset.
-/
import QuoVadis.Kernel.Coll

namespace QuoVadis.Kernel

set_option autoImplicit false

/-! ## The operations -/

/-- What a member asks for: `qv_split` or `qv_split_at`. -/
inductive SplitRequest where
  | split (npieces : Nat)
  | splitAt (type : HwObjType)

/-- The type handed to `qv_scope::split`: `qv_split` has none and passes the sentinel. -/
def SplitRequest.objType : SplitRequest → HwObjType
  | .split _ => .last
  | .splitAt type => type

/-- The number of pieces.  `qv_split` refuses none, `split_at` counts the objects in
the caller's own pool. -/
def SplitRequest.npieces (hwloc : Hwloc) (hwpool : Hwpool) : SplitRequest → Qv Nat
  | .split npieces => if npieces = 0 then .error (.ret .errInvldArg) else .ok npieces
  | .splitAt type => hwpool.nobjects hwloc type

/-- The number of pieces of a split over threads.  `qv_thread_split` does not refuse none. -/
def SplitRequest.threadNpieces (hwloc : Hwloc) (hwpool : Hwpool) : SplitRequest → Qv Nat
  | .split npieces => .ok npieces
  | .splitAt type => hwpool.nobjects hwloc type

/-- One member's call of a collective split. -/
structure SplitCall where
  tid : Nat
  task : Task
  color : Int
  hwpool : Hwpool
  request : SplitRequest

/-- The top of the caller's bind stack. -/
def SplitCall.affinity (call : SplitCall) : Bitmap := call.task.stack.head?.getD ∅

/-- What the call brings to `qvi_hwsplit::split`. -/
def SplitCall.args (hwloc : Hwloc) (call : SplitCall) : Qv SplitArgs := do
  let npieces ← call.request.npieces hwloc call.hwpool
  return { tid := call.tid, task := call.task, color := call.color,
           hwpool := call.hwpool, npieces := npieces, objType := call.request.objType }

/-- `qv_scope::split` of a whole group: the new colour and pool of every member. -/
def scopeSplit (hwloc : Hwloc) (calls : List SplitCall) : Qv (List (Int × Hwpool)) := do
  let args ← calls.mapM (SplitCall.args hwloc)
  collSplit hwloc args

/-- The groups `MPI_Comm_split` makes of the members: one per colour. -/
def children (results : List (Int × Hwpool)) : List (List Hwpool) :=
  (results.map Prod.fst).dedup.map fun color =>
    (results.filter fun result => result.1 = color).map Prod.snd

/-- `qv_scope::thread_split` and `thread_split_at`: the pools of the `k` children.  `task`
is the task of the parent's group; the constructor and `thread_split` both ask it for the
top of its bind stack. -/
def threadSplit (hwloc : Hwloc) (parent : Hwpool) (request : SplitRequest) (task : Task)
    (kcolors : List Int) : Qv (List Hwpool) := do
  let npieces ← request.threadNpieces hwloc parent
  let _ ← Hwsplit.construct task
  let affinity ← task.bindTop
  let hs ← (Hwsplit.prepared hwloc npieces request.objType parent kcolors
    (List.replicate kcolors.length affinity)).mSplit
  return hs.hwpools

/-- `qv_scope::create`: the pool of the child, populated from the whole topology.  The
server makes the selection, so a selection that does not come back is its end. -/
def create (hwloc : Hwloc) (parent : Hwpool) (type : HwObjType) (nobjs : Nat) : Qv Hwpool := do
  let cpuset ← hwloc.getCpusetForNobjs parent.cpuset type nobjs
  return .populate hwloc cpuset

/-! ## What the operations give -/

/-- The calls' data reach the collective split unchanged. -/
theorem mapM_args {hwloc : Hwloc} :
    ∀ {calls : List SplitCall} {args : List SplitArgs},
      calls.mapM (SplitCall.args hwloc) = .ok args →
      args.map (fun a => a.hwpool) = calls.map (fun c => c.hwpool) ∧
      args.map (fun a => a.color) = calls.map (fun c => c.color) ∧
      args.map (fun a => a.affinity) = calls.map (fun c => c.affinity) ∧
      args.map (fun a => a.objType) = calls.map (fun c => c.request.objType) := by
  intro calls
  induction calls with
  | nil =>
      intro args run
      cases run
      simp
  | cons call calls ih =>
      intro args run
      rw [List.mapM_cons] at run
      obtain ⟨a, first, run⟩ := bind_ok run
      obtain ⟨as, rest, run⟩ := bind_ok run
      cases run
      obtain ⟨npieces, -, first⟩ := bind_ok first
      cases first
      obtain ⟨hwpools, colors, affinities, types⟩ := ih rest
      simp only [List.map_cons, hwpools, colors, affinities, types, true_and, and_true]
      rfl

/-- The object the root splits when a group makes these calls. -/
def callsObject (hwloc : Hwloc) (npieces : Nat) (type : HwObjType) (calls : List SplitCall) : Hwsplit :=
  .prepared hwloc npieces type (.setUnion (calls.map fun c => c.hwpool)) (calls.map fun c => c.color)
    (calls.map fun c => c.affinity)

/-- **A group's split that succeeds has divided the pieces of the root's cut.** -/
theorem scopeSplit_ok {hwloc : Hwloc} {root : SplitCall} {others : List SplitCall}
    {results : List (Int × Hwpool)} (run : scopeSplit hwloc (root :: others) = .ok results) :
    ∃ npieces hs f,
      Hwsplit.Divided (callsObject hwloc npieces root.request.objType (root :: others)) hs f ∧
      results = hs.colors.zip hs.hwpools := by
  obtain ⟨args, mapped, run⟩ := bind_ok run
  obtain ⟨hwpools, colors, affinities, types⟩ := mapM_args mapped
  cases args with
  | nil => simp at hwpools
  | cons first rest =>
      obtain ⟨hs, f, -, shape, eq⟩ := collSplit_ok run
      refine ⟨first.npieces, hs, f, ?_, eq⟩
      have type : first.objType = root.request.objType := by simpa using (List.cons.inj types).1
      have same : splitObject hwloc first rest =
          callsObject hwloc first.npieces root.request.objType (root :: others) := by
        rw [splitObject, callsObject, hwpools, colors, affinities, type]
      rwa [same] at shape

theorem mem_children {results : List (Int × Hwpool)} {group : List Hwpool} {pool : Hwpool}
    (child : group ∈ children results) (member : pool ∈ group) :
    ∃ color, (color, pool) ∈ results := by
  obtain ⟨color, -, rfl⟩ := List.mem_map.1 child
  obtain ⟨⟨c, p⟩, inside, rfl⟩ := List.mem_map.1 member
  exact ⟨c, (List.mem_filter.1 inside).1⟩

/-- What is computed of the children of a split is true of one of them. -/
theorem exists_child {α : Type} {hwloc : Hwloc} {calls : List SplitCall} {view : List Hwpool → α}
    {first : α} {rest : List α}
    (run : ((scopeSplit hwloc calls).map fun results => (children results).map view) =
      .ok (first :: rest)) :
    ∃ results, scopeSplit hwloc calls = .ok results ∧
      ∃ pools ∈ children results, view pools = first := by
  obtain ⟨results, ran, shape⟩ := map_ok run
  exact ⟨results, ran, List.mem_map.1 (by rw [shape]; exact List.mem_cons_self)⟩

/-! ## The tree of scopes -/

/-- Where the scopes of a group came from. -/
inductive Origin where
  | intrinsic
  | split (base : Hwpool) (type : HwObjType)
  | create (parent : Hwpool) (type : HwObjType) (nobjs : Nat)

/-- The scopes of a group of tasks, or of the threads of one. -/
structure ScopeGroup where
  pools : List Hwpool
  threads : Bool
  origin : Origin

/-- The intrinsic scope of tasks that hold these cpusets. -/
def intrinsicScope (hwloc : Hwloc) (cpusets : List Bitmap) : ScopeGroup where
  pools := cpusets.map (Hwpool.populate hwloc)
  threads := false
  origin := .intrinsic

/-- A successful operation adds scopes to those there are. -/
inductive ScopeStep (hwloc : Hwloc) (s : List ScopeGroup) : List ScopeGroup → Prop where
  | split (g : ScopeGroup) (live : g ∈ s) (tasks : g.threads = false) (root : SplitCall)
      (others : List SplitCall) (held : (root :: others).map (fun c => c.hwpool) = g.pools)
      (results : List (Int × Hwpool)) (run : scopeSplit hwloc (root :: others) = .ok results) :
      ScopeStep hwloc s (s ++ (children results).map fun pools =>
        ⟨pools, false, .split (.setUnion g.pools) root.request.objType⟩)
  | threadSplit (g : ScopeGroup) (live : g ∈ s) (tasks : g.threads = false) (parent : Hwpool)
      (held : parent ∈ g.pools) (request : SplitRequest) (task : Task) (kcolors : List Int)
      (khwpools : List Hwpool)
      (run : threadSplit hwloc parent request task kcolors = .ok khwpools) :
      ScopeStep hwloc s (s ++ [⟨khwpools, true, .split parent request.objType⟩])
  | create (g : ScopeGroup) (live : g ∈ s) (tasks : g.threads = false) (parent : Hwpool)
      (held : parent ∈ g.pools) (type : HwObjType) (nobjs : Nat) (child : Hwpool)
      (run : create hwloc parent type nobjs = .ok child) :
      ScopeStep hwloc s (s ++ [⟨[child], false, .create parent type nobjs⟩])

/-- The scopes a program can have made. -/
def ReachableScopes (hwloc : Hwloc) (cpusets : List Bitmap) (s : List ScopeGroup) : Prop :=
  Relation.ReflTransGen (ScopeStep hwloc) [intrinsicScope hwloc cpusets] s

theorem ReachableScopes.intrinsic (hwloc : Hwloc) (cpusets : List Bitmap) :
    ReachableScopes hwloc cpusets [intrinsicScope hwloc cpusets] :=
  Relation.ReflTransGen.refl

/-- One more split. -/
theorem ReachableScopes.split {hwloc : Hwloc} {cpusets : List Bitmap} {s : List ScopeGroup}
    (reachable : ReachableScopes hwloc cpusets s) {g : ScopeGroup} (live : g ∈ s)
    (tasks : g.threads = false) {root : SplitCall} {others : List SplitCall}
    (held : (root :: others).map (fun c => c.hwpool) = g.pools) {results : List (Int × Hwpool)}
    (run : scopeSplit hwloc (root :: others) = .ok results) {pools : List Hwpool}
    (child : pools ∈ children results) :
    ∃ s', ReachableScopes hwloc cpusets s' ∧
      ⟨pools, false, .split (.setUnion g.pools) root.request.objType⟩ ∈ s' :=
  ⟨_, reachable.tail (.split g live tasks root others held results run),
    List.mem_append.2 (Or.inr (List.mem_map.2 ⟨pools, child, rfl⟩))⟩

/-- One more created scope. -/
theorem ReachableScopes.create {hwloc : Hwloc} {cpusets : List Bitmap} {s : List ScopeGroup}
    (reachable : ReachableScopes hwloc cpusets s) {g : ScopeGroup} (live : g ∈ s)
    (tasks : g.threads = false) {parent child : Hwpool} (held : parent ∈ g.pools)
    {type : HwObjType} {nobjs : Nat} (run : create hwloc parent type nobjs = .ok child) :
    ∃ s', ReachableScopes hwloc cpusets s' ∧ ⟨[child], false, .create parent type nobjs⟩ ∈ s' :=
  ⟨_, reachable.tail (.create g live tasks parent held type nobjs child run),
    List.mem_append.2 (Or.inr (List.mem_singleton_self _))⟩

/-- The cpuset a split of this pool at this type cuts. -/
def primaryCpuset (base : Hwpool) (type : HwObjType) : Bitmap :=
  if objResClass type = .dev then
    (base.devices type).foldl (fun result dev => result ∪ dev.affinity) ∅
  else base.cpuset

theorem priCpuset_prepared (hwloc : Hwloc) (npieces : Nat) (type : HwObjType) (base : Hwpool)
    (colors : List Int) (affinities : List Bitmap) :
    (Hwsplit.prepared hwloc npieces type base colors affinities).priCpuset =
      primaryCpuset base type := by
  unfold Hwsplit.priCpuset Hwsplit.mPrimaryCpusetForSplit primaryCpuset
  cases type <;> rfl

/-- What a group of scopes has to do with its origin. -/
def WellMade (hwloc : Hwloc) (g : ScopeGroup) : Prop :=
  match g.origin with
  | .intrinsic => True
  | .split base type =>
      ∀ pool ∈ g.pools, pool.cpuset ⊆ opOr (hwloc.inside .pu (primaryCpuset base type))
  | .create parent type nobjs =>
      ∃ child, create hwloc parent type nobjs = .ok child ∧ g.pools = [child]

theorem scopeSplit_subset {hwloc : Hwloc} {root : SplitCall} {others : List SplitCall}
    {results : List (Int × Hwpool)} (run : scopeSplit hwloc (root :: others) = .ok results)
    {color : Int} {pool : Hwpool} (member : (color, pool) ∈ results) :
    pool.cpuset ⊆ opOr (hwloc.inside .pu
      (primaryCpuset (.setUnion ((root :: others).map fun c => c.hwpool)) root.request.objType)) := by
  obtain ⟨npieces, hs, f, shape, rfl⟩ := scopeSplit_ok run
  have inPools : pool ∈ hs.hwpools := (List.of_mem_zip member).2
  have inside := shape.pool_subset inPools
  rwa [callsObject, priCpuset_prepared] at inside

/-- A split over threads that succeeds is one of a prepared object. -/
theorem threadSplit_ok {hwloc : Hwloc} {parent : Hwpool} {request : SplitRequest}
    {task : Task} {kcolors : List Int} {khwpools : List Hwpool}
    (run : threadSplit hwloc parent request task kcolors = .ok khwpools) :
    ∃ npieces affinity hs, task.stack.head? = some affinity ∧ kcolors ≠ [] ∧
      (Hwsplit.prepared hwloc npieces request.objType parent kcolors
        (List.replicate kcolors.length affinity)).Ready ∧
      (Hwsplit.prepared hwloc npieces request.objType parent kcolors
        (List.replicate kcolors.length affinity)).mSplit = .ok hs ∧ khwpools = hs.hwpools := by
  obtain ⟨npieces, -, run⟩ := bind_ok run
  obtain ⟨_, -, run⟩ := bind_ok run
  obtain ⟨again, bound, run⟩ := bind_ok run
  obtain ⟨hs, ran, run⟩ := bind_ok run
  cases run
  have tasks : kcolors ≠ [] := by
    -- without colours the first one is read from an empty vector
    rintro rfl
    have stops : (Hwsplit.prepared hwloc npieces request.objType parent []
        (List.replicate 0 again)).mSplit = .error .trap := Hwsplit.mSplit_fault rfl
    cases stops.symm.trans ran
  have ready := Hwsplit.prepared_ready hwloc npieces request.objType parent kcolors
    (List.replicate kcolors.length again) tasks (by simp)
  -- the second question gets the answer of the first
  have same : task.stack.head? = some again := by
    obtain ⟨_ | ⟨_, _⟩⟩ := task <;> cases bound
    rfl
  exact ⟨npieces, again, hs, same, tasks, ready, ran, rfl⟩

/-- One pool for every thread. -/
theorem length_threadSplit {hwloc : Hwloc} {parent : Hwpool} {request : SplitRequest}
    {task : Task} {kcolors : List Int} {khwpools : List Hwpool}
    (run : threadSplit hwloc parent request task kcolors = .ok khwpools) :
    khwpools.length = kcolors.length := by
  obtain ⟨npieces, affinity, hs, -, -, ready, ran, rfl⟩ := threadSplit_ok run
  exact (Hwsplit.devices_of_ok ready ran).1

theorem threadSplit_subset {hwloc : Hwloc} {parent : Hwpool} {request : SplitRequest}
    {task : Task} {kcolors : List Int} {khwpools : List Hwpool}
    (run : threadSplit hwloc parent request task kcolors = .ok khwpools) {pool : Hwpool}
    (member : pool ∈ khwpools) :
    pool.cpuset ⊆ opOr (hwloc.inside .pu (primaryCpuset parent request.objType)) := by
  obtain ⟨npieces, affinity, hs, -, -, ready, ran, rfl⟩ := threadSplit_ok run
  have inside := Hwsplit.pools_subset ready ran member
  rwa [priCpuset_prepared] at inside

/-- **Every step makes scopes as their origin says.** -/
theorem wellMade_step {hwloc : Hwloc} {s s' : List ScopeGroup} (step : ScopeStep hwloc s s')
    (made : ∀ g ∈ s, WellMade hwloc g) : ∀ g ∈ s', WellMade hwloc g := by
  intro g' member
  cases step with
  | split g live tasks root others held results run =>
      rcases List.mem_append.1 member with old | new
      · exact made g' old
      · obtain ⟨pools, child, rfl⟩ := List.mem_map.1 new
        intro pool inGroup
        obtain ⟨color, inResults⟩ := mem_children child inGroup
        rw [← held]
        exact scopeSplit_subset run inResults
  | threadSplit g live tasks parent held request task kcolors khwpools run =>
      rcases List.mem_append.1 member with old | new
      · exact made g' old
      · rw [List.mem_singleton.1 new]
        intro pool inGroup
        exact threadSplit_subset run inGroup
  | create g live tasks parent held type nobjs child run =>
      rcases List.mem_append.1 member with old | new
      · exact made g' old
      · rw [List.mem_singleton.1 new]
        exact ⟨child, run, rfl⟩

theorem wellMade_run {hwloc : Hwloc} {cpusets : List Bitmap} {s : List ScopeGroup}
    (reachable : ReachableScopes hwloc cpusets s) : ∀ g ∈ s, WellMade hwloc g := by
  induction reachable with
  | refl =>
      intro g member
      rw [List.mem_singleton.1 member]
      exact True.intro
  | tail _ step ih => exact wellMade_step step ih

/-! ## Containment of splits -/

/-- The PUs near the pool's devices of this type belong to the pool. -/
def DevicesInside (hwloc : Hwloc) (base : Hwpool) (type : HwObjType) : Prop :=
  ∀ o ∈ hwloc.inside .pu ((base.devices type).foldl (fun result dev => result ∪ dev.affinity) ∅),
    o ⊆ base.cpuset

instance (hwloc : Hwloc) (base : Hwpool) (type : HwObjType) :
    Decidable (DevicesInside hwloc base type) :=
  inferInstanceAs (Decidable (∀ o ∈ _, _))

/-- **Children of splits own nothing their base pool does not own**, in all runs:
always for splits over host types, and for splits at a device type whose devices in
the base pool are near PUs of the pool only. -/
theorem split_contained (hwloc : Hwloc) (cpusets : List Bitmap) (s : List ScopeGroup)
    (reachable : ReachableScopes hwloc cpusets s) (g : ScopeGroup) (member : g ∈ s) (base : Hwpool)
    (type : HwObjType) (made : g.origin = .split base type)
    (inside : objResClass type = .dev → DevicesInside hwloc base type) :
    ∀ pool ∈ g.pools, pool.cpuset ⊆ base.cpuset := by
  intro pool inGroup x memX
  have spec := wellMade_run reachable g member
  simp only [WellMade, made] at spec
  obtain ⟨o, inPus, memO⟩ := mem_opOr.1 (spec pool inGroup memX)
  by_cases device : objResClass type = .dev
  · rw [primaryCpuset, if_pos device] at inPus
    exact inside device o inPus memO
  · rw [primaryCpuset, if_neg device] at inPus
    exact (Hwloc.mem_inside.1 inPus).2.2 memO

/-- A machine with one package of two PUs and a GPU. -/
def twoPusOneGpu : Hwloc := .onePackage 2 ["0000:01:00.0"]

/-- Two tasks of the intrinsic scope of the machine make the same call. -/
def twoCalls (color color' : Int) (request : SplitRequest) : List SplitCall :=
  [⟨0, ⟨[{0, 1}]⟩, color, .populate twoPusOneGpu {0, 1}, request⟩,
   ⟨1, ⟨[{0, 1}]⟩, color', .populate twoPusOneGpu {0, 1}, request⟩]

/-- The whole machine is split at its GPU: the PUs near it are the machine's. -/
theorem split_contained_twoPus :
    ∃ s, ReachableScopes twoPusOneGpu [{0, 1}, {0, 1}] s ∧
      ∃ g ∈ s, ∃ base, g.origin = .split base .gpu ∧ base.cpuset = {0, 1} ∧ g.pools.length = 2 ∧
        ∀ pool ∈ g.pools, pool.cpuset ⊆ base.cpuset := by
  have run : ((scopeSplit twoPusOneGpu (twoCalls 0 0 (.splitAt .gpu))).map fun results =>
      (children results).map List.length) = .ok [2] := by decide +kernel
  obtain ⟨results, ran, pools, child, two⟩ := exists_child run
  obtain ⟨s, reachable, member⟩ := (ReachableScopes.intrinsic twoPusOneGpu [{0, 1}, {0, 1}]).split
    (List.mem_singleton_self _) rfl rfl ran child
  refine ⟨s, reachable, _, member, _, rfl, by decide +kernel, two, ?_⟩
  exact split_contained twoPusOneGpu _ s reachable _ member _ _ rfl fun _ => by decide +kernel

/-- The scope of the first task after two tasks split the machine by colour, and what
that scope's split at the GPU gives. -/
def splitThenSplitAtGpu : Qv (Hwpool × List (Int × Hwpool)) := do
  let results ← scopeSplit twoPusOneGpu (twoCalls 0 1 (.split 2))
  match children results with
  | [mine] :: _ =>
      let results ← scopeSplit twoPusOneGpu [⟨0, ⟨[{0}]⟩, 0, mine, .splitAt .gpu⟩]
      return (mine, results)
  | _ => .error .trap

/-- The task that got PU 0 and the GPU splits its scope at the GPU and gets PU 1 as
well: the GPU is near the whole package. -/
theorem splitAt_gpu_reachesOutside :
    ∃ s, ReachableScopes twoPusOneGpu [{0, 1}, {0, 1}] s ∧
      ∃ g ∈ s, ∃ base, g.origin = .split base .gpu ∧ base.cpuset = {0} ∧
        ∃ pool ∈ g.pools, pool.cpuset = {0, 1} ∧ ¬ pool.cpuset ⊆ base.cpuset := by
  have run : (splitThenSplitAtGpu.map fun (mine, results) =>
      ((Hwpool.setUnion [mine]).cpuset, (children results).map (List.map Hwpool.cpuset))) =
        .ok ({0}, [[{0, 1}]]) := by decide +kernel
  obtain ⟨⟨mine, results'⟩, ran, shape⟩ := map_ok run
  simp only [Prod.mk.injEq] at shape
  obtain ⟨results, first, ran⟩ := bind_ok ran
  split at ran
  · rename_i mine' rest parts
    obtain ⟨results'', second, ran⟩ := bind_ok ran
    cases ran
    obtain ⟨pools, inChildren, cpusets⟩ :
        ∃ pools ∈ children results', pools.map Hwpool.cpuset = [{0, 1}] :=
      List.mem_map.1 (by rw [shape.2]; exact List.mem_singleton_self _)
    obtain ⟨pool, inPools, whole⟩ : ∃ pool ∈ pools, pool.cpuset = {0, 1} :=
      List.mem_map.1 (by rw [cpusets]; exact List.mem_singleton_self _)
    obtain ⟨s, reachable, member⟩ :=
      (ReachableScopes.intrinsic twoPusOneGpu [{0, 1}, {0, 1}]).split
        (List.mem_singleton_self _) rfl rfl first (by rw [parts]; exact List.mem_cons_self)
    obtain ⟨s', reachable', member'⟩ := reachable.split member rfl rfl second inChildren
    refine ⟨s', reachable', _, member', _, rfl, shape.1, pool, inPools, whole, ?_⟩
    show ¬ pool.cpuset ⊆ (Hwpool.setUnion [mine]).cpuset
    rw [whole, shape.1]
    decide
  · cases ran

/-! ## Containment of created scopes -/

/-- The parent has every device of the topology that lies inside the first `nobjs`
objects of the type in its cpuset. -/
def DevicesOwned (hwloc : Hwloc) (parent : Hwpool) (type : HwObjType) (nobjs : Nat) : Prop :=
  ∀ t, objResClass t = .dev → ∀ dev ∈ hwloc.devmap t,
    dev.affinity ⊆ opOr ((hwloc.inside type parent.cpuset).take nobjs) → parent.Has t dev.pciBusId

theorem create_ok {hwloc : Hwloc} {parent child : Hwpool} {type : HwObjType} {nobjs : Nat}
    (run : create hwloc parent type nobjs = .ok child) :
    child = .populate hwloc (opOr ((hwloc.inside type parent.cpuset).take nobjs)) ∧
      child.cpuset ⊆ parent.cpuset := by
  obtain ⟨cpuset, selected, run⟩ := bind_ok run
  cases run
  rw [← Hwloc.getCpusetForNobjs_ok selected]
  refine ⟨rfl, ?_⟩
  rw [Hwpool.cpuset_populate]
  exact Hwloc.getCpusetForNobjs_subset selected

/-- **When a created scope is contained in its parent**, in all runs: the cpuset
always is, the devices are exactly if the parent has those inside the selection. -/
theorem create_contained_iff (hwloc : Hwloc) (cpusets : List Bitmap) (s : List ScopeGroup)
    (reachable : ReachableScopes hwloc cpusets s) (g : ScopeGroup) (member : g ∈ s) (parent : Hwpool)
    (type : HwObjType) (nobjs : Nat) (made : g.origin = .create parent type nobjs) (pool : Hwpool)
    (inGroup : pool ∈ g.pools) :
    (pool.cpuset ⊆ parent.cpuset ∧
        ∀ t, objResClass t = .dev → ∀ busId, pool.Has t busId → parent.Has t busId) ↔
      DevicesOwned hwloc parent type nobjs := by
  have spec := wellMade_run reachable g member
  simp only [WellMade, made] at spec
  obtain ⟨child, run, only⟩ := spec
  rw [only, List.mem_singleton] at inGroup
  subst inGroup
  obtain ⟨eq, contained⟩ := create_ok run
  constructor
  · rintro ⟨-, devices⟩ t device dev found inside
    apply devices t device
    rw [eq, Hwpool.has_populate]
    exact ⟨device, dev, found, inside, rfl⟩
  · intro owned
    refine ⟨contained, fun t device busId has => ?_⟩
    rw [eq, Hwpool.has_populate] at has
    obtain ⟨-, dev, found, inside, rfl⟩ := has
    exact owned t device dev found inside

/-- Scopes whose pool comes from the topology, as intrinsic and created ones do, own
all devices a scope created from them can get. -/
theorem devicesOwned_populate (hwloc : Hwloc) (cpuset : Bitmap) (type : HwObjType) (nobjs : Nat) :
    DevicesOwned hwloc (.populate hwloc cpuset) type nobjs := by
  intro t device dev found inside
  rw [Hwpool.has_populate]
  refine ⟨device, dev, found, fun x memX => ?_, rfl⟩
  obtain ⟨o, memO, inO⟩ := mem_opOr.1 (inside memX)
  have sub := (Hwloc.mem_inside.1 (List.mem_of_mem_take memO)).2.2
  rw [Hwpool.cpuset_populate] at sub
  exact sub inO

/-- A scope of the whole package created from the intrinsic scope. -/
theorem create_contained_intrinsic :
    ∃ s, ReachableScopes twoPusOneGpu [{0, 1}] s ∧
      ∃ g ∈ s, ∃ parent child, g.origin = .create parent .package 1 ∧ g.pools = [child] ∧
        child.Has .gpu "0000:01:00.0" ∧ parent.Has .gpu "0000:01:00.0" := by
  have run : ((create twoPusOneGpu (.populate twoPusOneGpu {0, 1}) .package 1).map fun child =>
      (decide (child.Has .gpu "0000:01:00.0"))) = .ok true := by decide +kernel
  obtain ⟨child, ran, has⟩ := map_ok run
  obtain ⟨s, reachable, member⟩ := (ReachableScopes.intrinsic twoPusOneGpu [{0, 1}]).create
    (List.mem_singleton_self _) rfl (List.mem_singleton_self _) ran
  have has : child.Has .gpu "0000:01:00.0" := of_decide_eq_true has
  refine ⟨s, reachable, _, member, _, child, rfl, rfl, has, ?_⟩
  exact ((create_contained_iff _ _ s reachable _ member _ _ _ rfl child (List.mem_singleton_self _)).2
    (devicesOwned_populate _ _ _ _)).2 .gpu rfl _ has

/-- The scope of the task that did not get the GPU after two tasks shared the machine,
and the scope it creates of the package. -/
def shareThenCreate : Qv (Hwpool × Hwpool) := do
  let results ← scopeSplit twoPusOneGpu (twoCalls 0 0 (.split 1))
  match children results with
  | [_, mine] :: _ =>
      let child ← create twoPusOneGpu mine .package 1
      return (mine, child)
  | _ => .error .trap

/-- The task without the GPU creates a scope of the package and gets it back. -/
theorem create_package_regainsGpu :
    ∃ s, ReachableScopes twoPusOneGpu [{0, 1}, {0, 1}] s ∧
      ∃ g ∈ s, ∃ parent child, g.origin = .create parent .package 1 ∧ g.pools = [child] ∧
        child.Has .gpu "0000:01:00.0" ∧ ¬ parent.Has .gpu "0000:01:00.0" := by
  have run : (shareThenCreate.map fun (mine, child) =>
      (decide (child.Has .gpu "0000:01:00.0"), decide (mine.Has .gpu "0000:01:00.0"))) =
        .ok (true, false) := by decide +kernel
  obtain ⟨⟨mine, child⟩, ran, shape⟩ := map_ok run
  simp only [Prod.mk.injEq, decide_eq_true_eq, decide_eq_false_iff_not] at shape
  obtain ⟨results, first, ran⟩ := bind_ok ran
  split at ran
  · rename_i other mine' rest parts
    obtain ⟨child', second, ran⟩ := bind_ok ran
    cases ran
    obtain ⟨s, reachable, member⟩ :=
      (ReachableScopes.intrinsic twoPusOneGpu [{0, 1}, {0, 1}]).split
        (List.mem_singleton_self _) rfl rfl first (by rw [parts]; exact List.mem_cons_self)
    obtain ⟨s', reachable', member'⟩ := reachable.create member rfl (by simp) second
    exact ⟨s', reachable', _, member', mine, child, rfl, rfl, shape⟩
  · cases ran

end QuoVadis.Kernel
