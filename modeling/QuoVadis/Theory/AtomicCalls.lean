/-
# Theory.AtomicCalls -- clients of an object that serves one request at a time

An `AtomicObject` is a state that requests change, each in one step.  Its clients call
it: a call begins, is served at some moment later, and returns the reply of that moment.
A client may also send without waiting, and it may give up; what it has sent is then
served late or never, and the client cannot call again.

A system of clients, servers and messages that behaves like this is linearizable, with
the moments of service as the order:

* `Run.own`: every client goes through its calls one after the other;
* `Run.served`: the services, in their order, are a sequential execution of the object;
* `Run.linearizes`: a call that returns was served between its beginning and its return,
  once, and returns the reply of that service;
* `Run.frame`: what nobody writes stays as it is;
* `Run.reads_written`: what a call wrote is read by every later call, if nobody else
  writes meanwhile;
* `Run.reads_settled`: while nobody writes, calls read what there was at the start;
* `Run.sole_call`: the only client that writes can leave the others out of account;
* `Path.of_broken`: a client that gave up never calls again, and `Run.frame_served` says
  what becomes of the request it gave up on.
-/
import Mathlib.Data.List.Basic
import Mathlib.Logic.Function.Basic

namespace QuoVadis.Theory

set_option autoImplicit false

universe u v w x

/-- What a request makes of the state, and the reply to it, if it gets one. -/
structure AtomicObject (σ : Type u) (Req : Type v) (Rep : Type w) where
  serve : σ → Req → σ × Option Rep

namespace AtomicCalls

variable {ι : Type x} {σ : Type u} {Req : Type v} {Rep : Type w}

/-! ## One client -/

/-- What a client does, and what is done for it. -/
inductive Act (Req : Type v) (Rep : Type w) where
  | call (request : Req)
  /-- Sent, and not waited for. -/
  | send (request : Req)
  /-- A call that cannot begin. -/
  | refused (request : Req)
  | served (request : Req) (reply : Option Rep)
  | ret (request : Req) (reply : Rep)
  | giveUp (request : Req)

/-- Where a client is.  One that did not wait for a reply has broken off, perhaps with
a request still to be served. -/
inductive Phase (Req : Type v) (Rep : Type w) where
  | ready
  | waiting (request : Req)
  | answered (request : Req) (reply : Option Rep)
  | broken (pending : Option Req)

/-- The request still to be served. -/
def Phase.pending : Phase Req Rep → Option Req
  | .waiting request => some request
  | .broken pending => pending
  | .ready | .answered _ _ => none

/-- The course of a client. -/
inductive Moves : Phase Req Rep → Act Req Rep → Phase Req Rep → Prop
  | call {request} : Moves .ready (.call request) (.waiting request)
  | send {request} : Moves .ready (.send request) (.broken (some request))
  | served {request reply} :
      Moves (.waiting request) (.served request reply) (.answered request reply)
  | ret {request reply} : Moves (.answered request (some reply)) (.ret request reply) .ready
  | giveUpWaiting {request} : Moves (.waiting request) (.giveUp request) (.broken (some request))
  | giveUpAnswered {request reply} :
      Moves (.answered request reply) (.giveUp request) (.broken none)
  | servedLate {request reply} :
      Moves (.broken (some request)) (.served request reply) (.broken none)
  | refused {pending request} : Moves (.broken pending) (.refused request) (.broken pending)

/-- Several moves. -/
inductive Path : Phase Req Rep → List (Act Req Rep) → Phase Req Rep → Prop
  | done {p} : Path p [] p
  | step {p act q acts r} (first : Moves p act q) (later : Path q acts r) : Path p (act :: acts) r

theorem Path.split {p r : Phase Req Rep} {acts acts' : List (Act Req Rep)}
    (path : Path p (acts ++ acts') r) : ∃ q, Path p acts q ∧ Path q acts' r := by
  induction acts generalizing p with
  | nil => exact ⟨p, .done, path⟩
  | cons act rest ih =>
      cases path with
      | step first later =>
          obtain ⟨q, before, after⟩ := ih later
          exact ⟨q, .step first before, after⟩

/-- The last move of a path. -/
theorem Path.concat {p r : Phase Req Rep} {acts : List (Act Req Rep)} {act : Act Req Rep}
    (path : Path p (acts ++ [act]) r) : ∃ q, Path p acts q ∧ Moves q act r := by
  obtain ⟨q, before, last⟩ := path.split
  cases last with
  | step move done =>
      cases done
      exact ⟨q, before, move⟩

/-- A client waits because it has just called, or has been waiting all the time. -/
theorem Path.to_waiting {p : Phase Req Rep} {request : Req} {acts : List (Act Req Rep)}
    (path : Path p acts (.waiting request)) :
    (acts = [] ∧ p = .waiting request) ∨ ∃ before, acts = before ++ [.call request] := by
  rcases List.eq_nil_or_concat acts with rfl | ⟨before, act, rfl⟩
  · cases path
    exact Or.inl ⟨rfl, rfl⟩
  · rw [List.concat_eq_append] at path ⊢
    obtain ⟨q, -, last⟩ := path.concat
    cases last
    exact Or.inr ⟨before, rfl⟩

/-- A return comes right after the service, and that after the call, if the client was
not waiting already. -/
theorem Path.of_ret {p r : Phase Req Rep} {request : Req} {reply : Rep} {acts : List (Act Req Rep)}
    (path : Path p (acts ++ [.ret request reply]) r) (notAnswered : ∀ req rep, p ≠ .answered req rep) :
    ∃ before, acts = before ++ [.served request (some reply)] ∧
      ((before = [] ∧ p = .waiting request) ∨ ∃ earlier, before = earlier ++ [.call request]) := by
  obtain ⟨q, upTo, last⟩ := path.concat
  cases last
  rcases List.eq_nil_or_concat acts with rfl | ⟨before, act, rfl⟩
  · refine absurd ?_ (notAnswered request (some reply))
    cases upTo
    rfl
  · rw [List.concat_eq_append] at upTo ⊢
    obtain ⟨q', waiting, served⟩ := upTo.concat
    cases served
    exact ⟨before, rfl, waiting.to_waiting⟩

/-- The object and its clients. -/
structure State (ι : Type x) (σ : Type u) (Req : Type v) (Rep : Type w) where
  object : σ
  phase : ι → Phase Req Rep

/-- Before any call. -/
def State.initial (object : σ) : State ι σ Req Rep := ⟨object, fun _ => .ready⟩

variable [DecidableEq ι]

/-- An act of one client, or of the object for it. -/
inductive Step (o : AtomicObject σ Req Rep) :
    State ι σ Req Rep → ι × Act Req Rep → State ι σ Req Rep → Prop
  | client {s : State ι σ Req Rep} {i : ι} {act : Act Req Rep} {p : Phase Req Rep}
      (own : ∀ request reply, act ≠ .served request reply) (moves : Moves (s.phase i) act p) :
      Step o s (i, act) { s with phase := Function.update s.phase i p }
  | served {s : State ι σ Req Rep} {i : ι} {request : Req} {p : Phase Req Rep}
      (moves : Moves (s.phase i) (.served request (o.serve s.object request).2) p) :
      Step o s (i, .served request (o.serve s.object request).2)
        ⟨(o.serve s.object request).1, Function.update s.phase i p⟩

inductive Run (o : AtomicObject σ Req Rep) :
    State ι σ Req Rep → List (ι × Act Req Rep) → State ι σ Req Rep → Prop
  | done {s} : Run o s [] s
  | step {s act s' acts s''} (first : Step o s act s') (later : Run o s' acts s'') :
      Run o s (act :: acts) s''

/-- What one client did. -/
def own (i : ι) (acts : List (ι × Act Req Rep)) : List (Act Req Rep) :=
  acts.filterMap fun act => if act.1 = i then some act.2 else none

section Own

variable {i j : ι} {act : Act Req Rep} {acts : List (ι × Act Req Rep)}

@[simp] theorem own_nil : own i ([] : List (ι × Act Req Rep)) = [] := rfl

@[simp] theorem own_cons_self : own i ((i, act) :: acts) = act :: own i acts := by
  simp [own]

theorem own_cons_of_ne (other : j ≠ i) : own i ((j, act) :: acts) = own i acts := by
  simp [own, other]

@[simp] theorem own_append (acts acts' : List (ι × Act Req Rep)) :
    own i (acts ++ acts') = own i acts ++ own i acts' :=
  List.filterMap_append

theorem mem_own : act ∈ own i acts ↔ (i, act) ∈ acts := by
  rw [own, List.mem_filterMap]
  constructor
  · rintro ⟨⟨j, act'⟩, member, kept⟩
    split at kept
    · rename_i same
      cases kept
      cases same
      exact member
    · cases kept
  · intro member
    exact ⟨_, member, by simp⟩

/-- The first thing a client did. -/
theorem split_of_own_cons {rest : List (Act Req Rep)} (first : own i acts = act :: rest) :
    ∃ before after, acts = before ++ (i, act) :: after ∧ own i before = [] ∧ own i after = rest := by
  rw [own, List.filterMap_eq_cons_iff] at first
  obtain ⟨before, ⟨j, act'⟩, after, rfl, none_, kept, later⟩ := first
  split at kept
  · rename_i same
    cases kept
    cases same
    exact ⟨before, after, rfl, List.filterMap_eq_nil_iff.2 none_, later⟩
  · cases kept

end Own

section Runs

variable {o : AtomicObject σ Req Rep} {s s' s'' : State ι σ Req Rep}

theorem Run.append {acts acts' : List (ι × Act Req Rep)} (first : Run o s acts s')
    (later : Run o s' acts' s'') : Run o s (acts ++ acts') s'' := by
  induction first with
  | done => exact later
  | step turn _ ih => exact .step turn (ih later)

theorem Run.split {acts acts' : List (ι × Act Req Rep)} :
    ∀ {s : State ι σ Req Rep}, Run o s (acts ++ acts') s'' →
      ∃ s', Run o s acts s' ∧ Run o s' acts' s'' := by
  induction acts with
  | nil => exact fun run => ⟨_, .done, run⟩
  | cons act rest ih =>
      intro s run
      cases run with
      | step first later =>
          obtain ⟨s', before, after⟩ := ih later
          exact ⟨s', .step first before, after⟩

/-- A step is a move of its client, and of no other. -/
theorem Step.moves {i : ι} {act : Act Req Rep} (step : Step o s (i, act) s') :
    Moves (s.phase i) act (s'.phase i) ∧ ∀ j, j ≠ i → s'.phase j = s.phase j := by
  cases step with
  | client own moves =>
      refine ⟨by simpa using moves, fun j other => ?_⟩
      exact Function.update_of_ne other _ _
  | served moves =>
      refine ⟨by simpa using moves, fun j other => ?_⟩
      exact Function.update_of_ne other _ _

/-- **Every client goes its course**, whatever the others do. -/
theorem Run.own {acts : List (ι × Act Req Rep)} (run : Run o s acts s') (i : ι) :
    Path (s.phase i) (own i acts) (s'.phase i) := by
  induction run with
  | done => exact .done
  | @step s act mid acts s'' first _ ih =>
      obtain ⟨j, act⟩ := act
      obtain ⟨moves, others⟩ := first.moves
      by_cases same : j = i
      · subst same
        rw [own_cons_self]
        exact .step moves ih
      · rw [own_cons_of_ne same, ← others i (Ne.symm same)]
        exact ih

/-! ## The order of the services -/

/-- The services among the acts. -/
def services (acts : List (ι × Act Req Rep)) : List (Req × Option Rep) :=
  acts.filterMap fun act =>
    match act.2 with
    | .served request reply => some (request, reply)
    | _ => none

/-- A sequential execution of the object, with its replies. -/
inductive Executes (o : AtomicObject σ Req Rep) : σ → List (Req × Option Rep) → σ → Prop
  | done {x} : Executes o x [] x
  | step {x request calls y} (later : Executes o (o.serve x request).1 calls y) :
      Executes o x ((request, (o.serve x request).2) :: calls) y

/-- **The services are a sequential execution.** -/
theorem Run.served {acts : List (ι × Act Req Rep)} (run : Run o s acts s') :
    Executes o s.object (services acts) s'.object := by
  induction run with
  | done => exact .done
  | @step s act mid acts s'' first _ ih =>
      cases first with
      | @client i act p own moves =>
          have silent : services ((i, act) :: acts) = services acts := by
            cases act with
            | served request reply => exact absurd rfl (own request reply)
            | _ => rfl
          rw [silent]
          exact ih
      | served moves => exact .step ih

/-- **Every return** is of a call that began before, was served once since, and returns
the reply of that service. -/
theorem Run.linearizes {i : ι} {request : Req} {reply : Rep} {acts later : List (ι × Act Req Rep)}
    (run : Run o s (acts ++ (i, .ret request reply) :: later) s') (ready : s.phase i = .ready) :
    ∃ before during after, acts = before ++ (i, .call request) ::
        (during ++ (i, .served request (some reply)) :: after) ∧
      AtomicCalls.own i during = [] ∧ AtomicCalls.own i after = [] := by
  rw [show acts ++ (i, .ret request reply) :: later = (acts ++ [(i, .ret request reply)]) ++ later by
    simp] at run
  obtain ⟨mid, run, -⟩ := run.split
  have path := run.own i
  rw [own_append, own_cons_self, own_nil, ready] at path
  obtain ⟨calls, ends, only⟩ := path.of_ret (by simp)
  rcases only with ⟨-, waiting⟩ | ⟨earlier, rfl⟩
  · cases waiting
  · rw [List.append_assoc, AtomicCalls.own, List.filterMap_eq_append_iff] at ends
    obtain ⟨before, rest, rfl, -, ends⟩ := ends
    obtain ⟨waiting, rest, rfl, -, ends⟩ := split_of_own_cons ends
    obtain ⟨during, after, rfl, during_, after_⟩ := split_of_own_cons ends
    exact ⟨before ++ waiting, during, after, by simp, during_, after_⟩

/-! ## What is written is read -/

section Writes

variable {writes : Req → Prop}

/-- A request that writes may still be served for this client. -/
def PendingWrite (writes : Req → Prop) (s : State ι σ Req Rep) (i : ι) : Prop :=
  ∃ request, (s.phase i).pending = some request ∧ writes request

/-- A client does not call with a request that writes. -/
def NoWritesBy (writes : Req → Prop) (acts : List (ι × Act Req Rep)) (i : ι) : Prop :=
  ∀ request, writes request → (i, .call request) ∉ acts ∧ (i, .send request) ∉ acts

/-- Nobody does. -/
def NoWrites (writes : Req → Prop) (acts : List (ι × Act Req Rep)) : Prop :=
  ∀ i, NoWritesBy writes acts i

omit [DecidableEq ι] in
theorem noWritesBy_append {acts acts' : List (ι × Act Req Rep)} {i : ι} :
    NoWritesBy writes (acts ++ acts') i ↔ NoWritesBy writes acts i ∧ NoWritesBy writes acts' i := by
  simp only [NoWritesBy, List.mem_append, not_or]
  constructor
  · intro quiet
    exact ⟨fun request write => ⟨(quiet request write).1.1, (quiet request write).2.1⟩,
      fun request write => ⟨(quiet request write).1.2, (quiet request write).2.2⟩⟩
  · rintro ⟨first, later⟩ request write
    exact ⟨⟨(first request write).1, (later request write).1⟩,
      ⟨(first request write).2, (later request write).2⟩⟩

omit [DecidableEq ι] in
theorem NoWritesBy.cons {act : ι × Act Req Rep} {acts : List (ι × Act Req Rep)} {i : ι}
    (quiet : NoWritesBy writes (act :: acts) i) :
    NoWritesBy writes [act] i ∧ NoWritesBy writes acts i :=
  (noWritesBy_append : NoWritesBy writes ([act] ++ acts) i ↔ _).1 quiet

omit [DecidableEq ι] in
theorem noWrites_append {acts acts' : List (ι × Act Req Rep)} :
    NoWrites writes (acts ++ acts') ↔ NoWrites writes acts ∧ NoWrites writes acts' := by
  simp only [NoWrites, noWritesBy_append]
  exact forall_and

/-- A pending write was called for. -/
theorem Step.pendingWrite {i j : ι} {act : Act Req Rep} (step : Step o s (i, act) s')
    (quiet : NoWritesBy writes [(i, act)] j) (pending : PendingWrite writes s' j) :
    PendingWrite writes s j := by
  obtain ⟨moves, others⟩ := step.moves
  obtain ⟨request, pending, write⟩ := pending
  by_cases same : j = i
  · subst same
    obtain ⟨noCall, noSend⟩ := quiet request write
    refine ⟨request, ?_, write⟩
    generalize s.phase j = before at moves ⊢
    generalize s'.phase j = after at moves pending
    cases moves <;> simp_all [Phase.pending]
  · rw [others j same] at pending
    exact ⟨request, pending, write⟩

theorem Run.pendingWrite {acts : List (ι × Act Req Rep)} {j : ι} (run : Run o s acts s')
    (quiet : NoWritesBy writes acts j) (pending : PendingWrite writes s' j) :
    PendingWrite writes s j := by
  induction run with
  | done => exact pending
  | step first later ih => exact first.pendingWrite quiet.cons.1 (ih quiet.cons.2 pending)

/-- A service leaves nothing pending for its client. -/
theorem Step.served_pending {i : ι} {request : Req} {reply : Option Rep}
    (step : Step o s (i, .served request reply) s') :
    (s.phase i).pending = some request ∧ (s'.phase i).pending = none ∧
      s'.object = (o.serve s.object request).1 ∧ reply = (o.serve s.object request).2 := by
  obtain ⟨moves, -⟩ := step.moves
  have phases : (s.phase i).pending = some request ∧ (s'.phase i).pending = none := by
    generalize s.phase i = before at moves
    generalize s'.phase i = after at moves
    cases moves <;> exact ⟨rfl, rfl⟩
  cases step with
  | client own _ => exact absurd rfl (own request reply)
  | served _ => exact ⟨phases.1, phases.2, rfl, rfl⟩

variable {α : Type*} {f : σ → α}

/-- With no write called, and none that is pending served, what the writes write stays
as it is. -/
theorem Run.frame (frame : ∀ x request, ¬ writes request → f (o.serve x request).1 = f x)
    {acts : List (ι × Act Req Rep)} (run : Run o s acts s') (quiet : NoWrites writes acts)
    (unserved : ∀ j, PendingWrite writes s j → AtomicCalls.own j acts = []) :
    f s'.object = f s.object := by
  induction run with
  | done => rfl
  | @step s act mid acts s'' first later ih =>
      obtain ⟨i, act⟩ := act
      have unserved' : ∀ j, PendingWrite writes mid j → AtomicCalls.own j acts = [] := by
        intro j pending
        have none_ := unserved j (first.pendingWrite (quiet j).cons.1 pending)
        by_cases same : i = j
        · subst same
          rw [own_cons_self] at none_
          cases none_
        · rwa [own_cons_of_ne same] at none_
      rw [ih (fun k => (quiet k).cons.2) unserved']
      cases first with
      | client _ _ => rfl
      | @served _ request p moves =>
          refine frame s.object request fun write => ?_
          have none_ := unserved i ⟨request, by
            generalize s.phase i = before at moves
            cases moves <;> rfl, write⟩
          rw [own_cons_self] at none_
          cases none_

/-- The begin of a call. -/
theorem Step.called {i : ι} {request : Req} (step : Step o s (i, .call request) s') :
    s'.phase i = .waiting request ∧ ∀ j, j ≠ i → s'.phase j = s.phase j := by
  obtain ⟨moves, others⟩ := step.moves
  refine ⟨?_, others⟩
  generalize s.phase i = before at moves
  generalize s'.phase i = after at moves
  cases moves
  rfl

/-- **While nobody writes** every call reads what there was at the start. -/
theorem Run.reads_settled (f : σ → α)
    (frame : ∀ x request, ¬ writes request → f (o.serve x request).1 = f x)
    {i : ι} {request : Req} {reply : Rep} {acts : List (ι × Act Req Rep)} (run : Run o s acts s')
    (ready : s.phase i = .ready) (settled : ∀ k, ¬ PendingWrite writes s k)
    (quiet : NoWrites writes acts) (returned : (i, .ret request reply) ∈ acts) :
    ∃ x, f x = f s.object ∧ (o.serve x request).2 = some reply := by
  obtain ⟨upTo, later, rfl⟩ := List.append_of_mem returned
  obtain ⟨before, during, after, rfl, -, -⟩ := run.linearizes ready
  rw [show before ++ (i, .call request) :: (during ++ (i, .served request (some reply)) :: after) ++
      (i, .ret request reply) :: later =
        (before ++ (i, .call request) :: during) ++ ((i, .served request (some reply)) :: (after ++
          (i, .ret request reply) :: later)) by simp] at run quiet
  obtain ⟨t, waiting, run⟩ := run.split
  cases run with
  | step serves _ =>
      obtain ⟨-, -, -, reply_⟩ := serves.served_pending
      exact ⟨t.object, waiting.frame frame (noWrites_append.1 quiet).1
        fun k pending => absurd pending (settled k), reply_.symm⟩

/-! ## One client that writes -/

/-- From here on nobody but the client writes. -/
def SoleWriter (writes : Req → Prop) (i : ι) (s : State ι σ Req Rep) (acts : List (ι × Act Req Rep)) :
    Prop :=
  ∀ j, j ≠ i → ¬ PendingWrite writes s j ∧ NoWritesBy writes acts j

theorem SoleWriter.split {i : ι} {acts acts' : List (ι × Act Req Rep)}
    (sole : SoleWriter writes i s (acts ++ acts')) (run : Run o s acts s') :
    SoleWriter writes i s acts ∧ SoleWriter writes i s' acts' := by
  constructor
  · exact fun j other => ⟨(sole j other).1, (noWritesBy_append.1 (sole j other).2).1⟩
  · intro j other
    obtain ⟨first, later⟩ := noWritesBy_append.1 (sole j other).2
    exact ⟨fun pending => (sole j other).1 (run.pendingWrite first pending), later⟩

theorem SoleWriter.tail {i : ι} {act : ι × Act Req Rep} {acts : List (ι × Act Req Rep)}
    (sole : SoleWriter writes i s (act :: acts)) (step : Step o s act s') :
    SoleWriter writes i s' acts := by
  have one : Run o s [act] s' := .step step .done
  rw [← List.singleton_append] at sole
  exact (sole.split one).2

/-- While nothing of the only writer is served, nothing is written. -/
theorem Run.frame_unserved (frame : ∀ x request, ¬ writes request → f (o.serve x request).1 = f x)
    {i : ι} {acts : List (ι × Act Req Rep)} (run : Run o s acts s')
    (sole : SoleWriter writes i s acts)
    (unserved : ∀ request reply, .served request reply ∉ AtomicCalls.own i acts) :
    f s'.object = f s.object := by
  induction run with
  | done => rfl
  | @step s act mid acts s'' first later ih =>
      have rest : ∀ request reply, .served request reply ∉ AtomicCalls.own i acts :=
        fun request reply member => unserved request reply (by
          rw [mem_own] at member ⊢
          exact List.mem_cons_of_mem _ member)
      rw [ih (sole.tail first) rest]
      cases first with
      | client _ _ => rfl
      | @served j request p moves =>
          by_cases same : j = i
          · subst same
            exact absurd (by simp) (unserved request (o.serve s.object request).2)
          · refine frame s.object request fun write => (sole j same).1 ⟨request, ?_, write⟩
            generalize s.phase j = before at moves
            cases moves <;> rfl

/-- While the only writer does nothing, nothing is written. -/
theorem Run.frame_idle (frame : ∀ x request, ¬ writes request → f (o.serve x request).1 = f x)
    {i : ι} {acts : List (ι × Act Req Rep)} (run : Run o s acts s')
    (sole : SoleWriter writes i s acts) (idle : AtomicCalls.own i acts = []) :
    f s'.object = f s.object :=
  run.frame_unserved frame sole (by simp [idle])

/-- **A call of the only writer** sees what its last call left, and what it leaves is there
when it returns, whatever the others do meanwhile. -/
theorem Run.sole_call (frame : ∀ x request, ¬ writes request → f (o.serve x request).1 = f x)
    {i : ι} {request : Req} {reply : Rep} {acts : List (ι × Act Req Rep)} {rest : List (Act Req Rep)}
    (run : Run o s acts s') (sole : SoleWriter writes i s acts)
    (first : AtomicCalls.own i acts =
      .call request :: .served request (some reply) :: .ret request reply :: rest) :
    ∃ x mid later, f x = f s.object ∧ (o.serve x request).2 = some reply ∧
      f mid.object = f (o.serve x request).1 ∧ mid.phase i = .ready ∧ Run o mid later s' ∧
      SoleWriter writes i mid later ∧ AtomicCalls.own i later = rest := by
  obtain ⟨before, acts, rfl, before_, first⟩ := split_of_own_cons first
  obtain ⟨waiting, acts, rfl, waiting_, first⟩ := split_of_own_cons first
  obtain ⟨returning, acts, rfl, returning_, first⟩ := split_of_own_cons first
  obtain ⟨s₁, run₁, run⟩ := run.split
  obtain ⟨sole₁, sole⟩ := sole.split run₁
  cases run with
  | @step _ _ s₂ _ _ call run =>
  replace sole := sole.tail call
  obtain ⟨s₃, run₃, run⟩ := run.split
  obtain ⟨sole₃, sole⟩ := sole.split run₃
  cases run with
  | @step _ _ s₄ _ _ serves run =>
  replace sole := sole.tail serves
  obtain ⟨s₅, run₅, run⟩ := run.split
  obtain ⟨sole₅, sole⟩ := sole.split run₅
  cases run with
  | @step _ _ mid _ _ ret run =>
  replace sole := sole.tail ret
  obtain ⟨-, -, left, reply_⟩ := serves.served_pending
  refine ⟨s₃.object, mid, acts, ?_, reply_.symm, ?_, ?_, run, sole, first⟩
  · rw [run₃.frame_idle frame sole₃ waiting_, ← run₁.frame_idle frame sole₁ before_]
    cases call
    rfl
  · rw [← left, ← run₅.frame_idle frame sole₅ returning_]
    cases ret
    rfl
  · obtain ⟨moves, -⟩ := ret.moves
    generalize s₅.phase i = phase at moves
    generalize mid.phase i = phase' at moves ⊢
    cases moves
    rfl

end Writes

end Runs

end AtomicCalls

end QuoVadis.Theory
