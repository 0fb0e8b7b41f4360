/-
# Kernel.IntrinsicScopes -- the members of an intrinsic scope hold the same pool

Splits start from an intrinsic scope, in which all tasks are supposed to hold the same
resources (`World.Intrinsic`).  Nobody hands them out together: `make_intrinsic` gathers the
process IDs of the group, and then every member asks the server for itself, whenever it gets
to it.  The answer for a job is the union of what the members are bound to at that moment,
each mask as far as the topology goes that the flags select.

* `intrinsicScope_agrees`: as long as nobody binds a member meanwhile, all members get the
  pool that the server would have made before the first of them asked;
* a member that binds itself before the last one has asked gets the others a pool that is
  not its own (the example at the end).
-/
import QuoVadis.Kernel.RmiClients

namespace QuoVadis.Kernel.Rmi

open QuoVadis.Theory

set_option autoImplicit false

/-! ## What a member asks for -/

/-- `QV_SCOPE_FLAG_NO_SMT`. -/
def scopeFlagNoSmt : Int64 := 1

/-- The flags of the client's topology after `connect`, which it sends along: of the two
kinds of topology one, and `QVI_HWLOC_FLAG_TOPO_XML`. -/
def connectFlags (scopeFlags : Int64) : Int64 :=
  let hwlocFlags : Int64 := if scopeFlags &&& scopeFlagNoSmt ≠ 0 then 2 else 1
  hwlocFlags ||| 4

/-- The request of `make_intrinsic`.  `pids` is the same list in the same order for all
members of the group. -/
def makeIntrinsic (pids : List Int32) (iscope : UInt32) (scopeFlags : Int64) :
    GetIntrinsicHwpoolArgs :=
  ⟨connectFlags scopeFlags, pids, iscope, scopeFlags⟩

/-- **The server uses the kind of topology the client has.** -/
theorem get_connectFlags (server : Server) (scopeFlags : Int64) :
    server.get (connectFlags scopeFlags) =
      .ok (if scopeFlags &&& scopeFlagNoSmt ≠ 0 then server.noSmt else server.full) := by
  rw [Server.get, connectFlags]
  by_cases noSmt : scopeFlags &&& scopeFlagNoSmt ≠ 0
  · rw [if_pos noSmt, if_neg (by decide), if_pos (by decide), if_pos noSmt]
  · rw [if_neg noSmt, if_pos (by decide), if_neg noSmt]

/-! ## What it gets -/

section

variable {server : Server} {b b' : Bindings} {a : GetIntrinsicHwpoolArgs}

theorem taskGetCpubind_congr {pid : Int32} (same : b.bound pid = b'.bound pid) (topo : Topology) :
    b.os.taskGetCpubind topo pid = b'.os.taskGetCpubind topo pid := by
  simp only [Os.taskGetCpubind, Bindings.os, same]

theorem mGetIscopeBitmapJob_congr {flags : Int64} {who : List Int32}
    (same : ∀ pid ∈ who, b.bound pid = b'.bound pid) :
    server.mGetIscopeBitmapJob b.os flags who = server.mGetIscopeBitmapJob b'.os flags who := by
  unfold Server.mGetIscopeBitmapJob
  congr 1
  induction who with
  | nil => rfl
  | cons pid rest ih =>
      simp only [List.mapM_cons, taskGetCpubind_congr (same pid List.mem_cons_self),
        ih fun pid member => same pid (List.mem_cons_of_mem _ member)]

/-- The answer depends on the bindings of the members only. -/
theorem serve_intrinsic_congr (a : GetIntrinsicHwpoolArgs) (same : ∀ pid ∈ a.who, b.bound pid = b'.bound pid) :
    (server.object.serve b (.getIntrinsicHwpool a)).2 =
      (server.object.serve b' (.getIntrinsicHwpool a)).2 := by
  have pool : server.getIntrinsicHwpool b.os a = server.getIntrinsicHwpool b'.os a := by
    unfold Server.getIntrinsicHwpool
    split
    · rfl
    · rfl
    · simp only [mGetIscopeBitmapJob_congr same]
    · obtain ⟨flags, who, iscope, scopeFlags⟩ := a
      match who with
      | [] => rfl
      | [pid] =>
          simp only [Server.mGetIscopeBitmapProc, taskGetCpubind_congr (same pid (by simp))]
      | _ :: _ :: _ => rfl
    · rfl
  simp only [Server.object, Server.answer, Server.serve, pool]

theorem mGetIscopeBitmapJob_bound {flags : Int64} {topo : Topology} {who : List Int32}
    {current : Int32 → Bitmap} (got : server.get flags = .ok topo)
    (bound : ∀ pid ∈ who, b.bound pid = some (current pid)) :
    server.mGetIscopeBitmapJob b.os flags who =
      .ok (opOr (who.map fun pid => getTidCpubind topo.completeCpuset (current pid))) := by
  have bitmaps : (who.mapM fun pid => do
      let topo ← server.get flags
      b.os.taskGetCpubind topo pid) =
        .ok (who.map fun pid => getTidCpubind topo.completeCpuset (current pid)) := by
    induction who with
    | nil => rfl
    | cons pid rest ih =>
        have first : b.os.taskGetCpubind topo pid =
            .ok (getTidCpubind topo.completeCpuset (current pid)) := by
          simp only [Os.taskGetCpubind, Bindings.os, bound pid List.mem_cons_self, Option.map_some]
        rw [List.mapM_cons, ih fun pid member => bound pid (List.mem_cons_of_mem _ member), got]
        simp only [bind, Except.bind, first, pure, Except.pure, List.map_cons]
  rw [Server.mGetIscopeBitmapJob, bitmaps]
  rfl

/-- The pool of a job. -/
theorem getIntrinsicHwpool_job (a : GetIntrinsicHwpoolArgs) {topo : Topology}
    {current : Int32 → Bitmap}
    (job : a.iscope.toNat = 2) (got : server.get a.hwlocFlags = .ok topo)
    (bound : ∀ pid ∈ a.who, b.bound pid = some (current pid)) :
    server.getIntrinsicHwpool b.os a =
      .ok (Kernel.Hwpool.populate topo.hwloc
        (opOr (a.who.map fun pid => getTidCpubind topo.completeCpuset (current pid)))) := by
  simp only [Server.getIntrinsicHwpool, job, mGetIscopeBitmapJob_bound got bound, got, bind,
    Except.bind, pure, Except.pure]

end

/-! ## All members -/

section Members

variable {ι : Type} [DecidableEq ι]

/-- **The members of an intrinsic scope agree.**  The members of a group ask for an
intrinsic scope, each at its time, among whatever else happens.  If no request to bind one
of them is in flight as they start and none is made until they are done, each of them that
gets a reply gets the one the server would have given at the start; in particular, all get
the same.  For a job it is the pool around all that the members are bound to, up to the last
PU of the topology that the scope flags select. -/
theorem intrinsicScope_agrees (server : Server) (limit : StringLimit) (bindings : Bindings)
    (before events : List (NetEvent ι)) (net₀ net : Net ι) (seen₀ seen_ : List (Seen ι))
    (pids : List Int32) (iscope : UInt32) (scopeFlags : Int64)
    (reached : (Net.initial bindings).run server limit before = some (net₀, seen₀))
    (settled : ∀ pid ∈ pids, ∀ k request, Binds pid request → request.message ∉ net₀.toServer k)
    (run : net₀.run server limit events = some (net, seen_))
    (quiet : ∀ pid ∈ pids, Unbinding pid seen_) (i : ι) (reply : Reply Bitmap)
    (idle : net₀.socket i = .ready)
    (returned : .returned i (.getIntrinsicHwpool (makeIntrinsic pids iscope scopeFlags)) (.ok reply) ∈
      seen_) :
    server.answer net₀.bindings.os (.getIntrinsicHwpool (makeIntrinsic pids iscope scopeFlags)) =
        .ok (.replied reply) ∧
      ∀ current : Int32 → Bitmap, iscope.toNat = 2 →
        (∀ pid ∈ pids, net₀.bindings.bound pid = some (current pid)) →
        let topo := if scopeFlags &&& scopeFlagNoSmt ≠ 0 then server.noSmt else server.full
        reply = .getIntrinsicHwpool (rcInt .success) (.ofPool (Kernel.Hwpool.populate topo.hwloc
          (opOr (pids.map fun pid => getTidCpubind topo.completeCpuset (current pid))))) := by
  obtain ⟨-, atomic₀, -, -, refines₀⟩ := Net.refines reached
  obtain ⟨acts, atomic, ran, rfl, -⟩ := run_simulates refines₀ run
  have sends := fun i request => run_sent i request run
  -- a write is a request to bind a member
  let writes : Request Bitmap → Prop := fun request => ∃ pid ∈ pids, Binds pid request
  have frame : ∀ b request, ¬ writes request →
      pids.map (server.object.serve b request).1.bound = pids.map b.bound := fun b request other =>
    List.map_congr_left fun pid member =>
      bound_frame pid b request fun binds => other ⟨pid, member, binds⟩
  have settled' : ∀ k, ¬ AtomicCalls.PendingWrite writes atomic₀ k := by
    rintro k ⟨request, pending, pid, member, binds⟩
    exact settled pid member k request binds ((refines₀.client k).in_flight pending)
  have quiet' : AtomicCalls.NoWrites writes acts := by
    rintro k request ⟨pid, member, binds⟩
    exact noWrites_of_unbinding rfl (quiet pid member) sends k request binds
  have ended : (i, .ret (.getIntrinsicHwpool (makeIntrinsic pids iscope scopeFlags)) reply) ∈ acts := by
    obtain ⟨act, member, saw⟩ := List.mem_filterMap.1 returned
    rwa [← seen_returned saw]
  obtain ⟨b, same, served⟩ := ran.reads_settled (fun b => pids.map b.bound) frame
    (refines₀.ready idle) settled' quiet' ended
  rw [refines₀.object] at same
  have unmoved : ∀ pid ∈ pids, b.bound pid = net₀.bindings.bound pid := List.map_inj_left.1 same
  rw [serve_intrinsic_congr (makeIntrinsic pids iscope scopeFlags) unmoved] at served
  have answered : server.answer net₀.bindings.os
      (.getIntrinsicHwpool (makeIntrinsic pids iscope scopeFlags)) = .ok (.replied reply) := by
    simp only [Server.object] at served
    split at served
    · rename_i answered
      cases served
      exact answered
    · cases served
  refine ⟨answered, fun current job bound => ?_⟩
  have pool := getIntrinsicHwpool_job (makeIntrinsic pids iscope scopeFlags) job
    (get_connectFlags server scopeFlags) bound
  simp only [Server.answer, Server.serve, pool] at answered
  cases answered
  rfl

/-- Threads 7 and 8 of a machine, each on a PU of its own. -/
def onePuEach : Bindings :=
  ⟨fun who => if who = 7 then some {0} else if who = 8 then some {1} else none, fun _ => {0, 1}⟩

/-- A job of the two. -/
def jobScope : GetIntrinsicHwpoolArgs := makeIntrinsic [7, 8] 2 0

/-- Both tasks ask, and the server answers the second one before the first has read. -/
def jobCalls : List (NetEvent Nat) :=
  [.call 0 (.getIntrinsicHwpool jobScope), .deliver 0 (fun _ => 0) default,
    .call 1 (.getIntrinsicHwpool jobScope), .deliver 1 (fun _ => 0) default,
    .receive 0 (fun _ => 255) default, .receive 1 (fun _ => 255) default]

set_option maxRecDepth 20000 in
theorem intrinsicScope_agrees_jobCalls :
    ∃ (net : Net Nat) (reply : Reply Bitmap),
      (Net.initial onePuEach).run twoPuServer stringLimit64 jobCalls =
        some (net, [.called 0 (.getIntrinsicHwpool jobScope), .called 1 (.getIntrinsicHwpool jobScope),
          .returned 0 (.getIntrinsicHwpool jobScope) (.ok reply),
          .returned 1 (.getIntrinsicHwpool jobScope) (.ok reply)]) ∧
      reply = .getIntrinsicHwpool (rcInt .success)
        (.ofPool (Kernel.Hwpool.populate twoPuServer.full.hwloc {0, 1})) := by
  obtain ⟨net, reply, run⟩ : ∃ (net : Net Nat) (reply : Reply Bitmap),
      (Net.initial onePuEach).run twoPuServer stringLimit64 jobCalls =
        some (net, [.called 0 (.getIntrinsicHwpool jobScope), .called 1 (.getIntrinsicHwpool jobScope),
          .returned 0 (.getIntrinsicHwpool jobScope) (.ok reply),
          .returned 1 (.getIntrinsicHwpool jobScope) (.ok reply)]) := ⟨_, _, rfl⟩
  have quiet : ∀ pid ∈ ([7, 8] : List Int32), Unbinding pid
      [.called (0 : Nat) (.getIntrinsicHwpool jobScope), .called 1 (.getIntrinsicHwpool jobScope),
        .returned 0 (.getIntrinsicHwpool jobScope) (.ok reply),
        .returned 1 (.getIntrinsicHwpool jobScope) (.ok reply)] := by
    rintro pid - k request ⟨a, rfl, -⟩ member
    simp at member
  have agrees := intrinsicScope_agrees twoPuServer stringLimit64 onePuEach [] jobCalls _ net [] _
    [7, 8] 2 0 rfl (fun _ _ _ _ _ => List.not_mem_nil) run quiet 1 reply rfl (by simp [jobScope])
  have bound : ∀ pid ∈ ([7, 8] : List Int32),
      onePuEach.bound pid = some (if pid = 7 then {0} else {1}) :=
    List.forall_mem_cons.2 ⟨rfl, List.forall_mem_singleton.2 rfl⟩
  exact ⟨net, reply, run, agrees.2 _ rfl bound⟩

set_option maxRecDepth 20000 in
/-- The first task has its scope and binds itself to the other PU before the second asks. -/
example : ((Net.initial onePuEach).run twoPuServer stringLimit64
    [.call (0 : Nat) (.getIntrinsicHwpool jobScope), .deliver 0 (fun _ => 0) default,
      .receive 0 (fun _ => 255) default, .call 0 (.setCpubind ⟨5, 7, {1}⟩),
      .deliver 0 (fun _ => 0) default, .receive 0 (fun _ => 255) default,
      .call 1 (.getIntrinsicHwpool jobScope), .deliver 1 (fun _ => 0) default,
      .receive 1 (fun _ => 255) default]).map Prod.snd =
    some [.called 0 (.getIntrinsicHwpool jobScope),
      .returned 0 (.getIntrinsicHwpool jobScope) (.ok (.getIntrinsicHwpool (rcInt .success)
        (.ofPool (Kernel.Hwpool.populate twoPuServer.full.hwloc {0, 1})))),
      .called 0 (.setCpubind ⟨5, 7, {1}⟩),
      .returned 0 (.setCpubind ⟨5, 7, {1}⟩) (.ok (.setCpubind (rcInt .success))),
      .called 1 (.getIntrinsicHwpool jobScope),
      .returned 1 (.getIntrinsicHwpool jobScope) (.ok (.getIntrinsicHwpool (rcInt .success)
        (.ofPool (Kernel.Hwpool.populate twoPuServer.full.hwloc {1}))))] := rfl

end Members

end QuoVadis.Kernel.Rmi
