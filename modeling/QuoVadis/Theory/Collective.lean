/-
# Theory.Collective -- programs that meet in collective operations

Every member of a group runs a program of its own.  A program ends, stops dead,
or takes part in a collective operation: it hands in a value (`enter`) and goes
on with what it receives (`leave`) once the members it waits for have handed in
theirs.  Operations are matched by position, the `m`-th of one member with the
`m`-th of another, as on a communicator.  Which members an operation waits for
(`needs`) is a parameter, so an implementation may synchronize more than the data
flow asks for.

`Rounds` is a sequence of operations in which all members agree round by round.
It says what every interleaving does, without mentioning interleavings:

* `Rounds.reaches`: some run takes all members through the rounds;
* `Rounds.inv_step`: in every reachable state each member is somewhere in them;
* `Rounds.agrees`: if the rounds end with all members done, then all runs are
  finite, none gets stuck before everybody is done, and all members take part in
  the same operations.
-/
import Mathlib.Logic.Relation
import Mathlib.Algebra.BigOperators.Group.Finset.Basic
import Mathlib.Algebra.Order.BigOperators.Group.Finset
import Mathlib.Data.Finset.Max
import Mathlib.Data.Fintype.Basic

namespace QuoVadis.Theory.Collective

set_option autoImplicit false

/-- The operations, what a member hands in, and what it gets from the values it
can rely on. -/
structure Interface (ι : Type) where
  Op : Type
  Send : Op → Type
  Recv : Op → Type
  deliver : (op : Op) → ι → (ι → Option (Send op)) → Recv op
  /-- The members whose values `i` waits for. -/
  needs : Op → ι → ι → Bool

/-- A program of one member. -/
inductive Prog {ι : Type} (net : Interface ι) (α : Type) where
  | done (a : α)
  | halt
  | call (op : net.Op) (send : net.Send op) (next : net.Recv op → Prog net α)

namespace Prog

variable {ι : Type} {net : Interface ι} {α β : Type}

/-- Sequencing. -/
def bind : Prog net α → (α → Prog net β) → Prog net β
  | .done a, f => f a
  | .halt, _ => .halt
  | .call op send next, f => .call op send fun x => (next x).bind f

theorem bind_assoc {γ : Type} (f : α → Prog net β) (g : β → Prog net γ) :
    ∀ p : Prog net α, (p.bind f).bind g = p.bind fun a => (f a).bind g
  | .done _ => rfl
  | .halt => rfl
  | .call op send next => by
      simp only [bind]
      congr 1
      funext x
      exact bind_assoc f g (next x)

instance : Monad (Prog net) where
  pure := .done
  bind := bind

variable (net) in
/-- Taking part in one operation. -/
def perform (op : net.Op) (send : net.Send op) : Prog net (net.Recv op) :=
  .call op send .done

end Prog

section Rounds

variable {ι : Type} {net : Interface ι} {α : Type}

variable (net) in
/-- What `i` gets from an operation to which the members handed in `sent`. -/
def receive (op : net.Op) (sent : ι → net.Send op) (i : ι) : net.Recv op :=
  net.deliver op i fun j => if net.needs op i j then some (sent j) else none

/-- A state of the group: the programs still to run, the values handed in so far,
and who is inside an operation. -/
structure Config (net : Interface ι) (α : Type) where
  prog : ι → Prog net α
  posted : ι → List ((op : net.Op) × net.Send op)
  entered : ι → Bool

/-- Before the first operation. -/
def start (progs : ι → Prog net α) : Config net α where
  prog := progs
  posted := fun _ => []
  entered := fun _ => false

/-! ## Rounds -/

/-- One operation with all members in it. -/
structure Round (net : Interface ι) (α : Type) where
  op : net.Op
  send : ι → net.Send op
  next : ι → net.Recv op → Prog net α

/-- The programs before a round. -/
def Round.prog (ρ : Round net α) (i : ι) : Prog net α := .call ρ.op (ρ.send i) (ρ.next i)

/-- The programs after a round. -/
def Round.after (ρ : Round net α) (i : ι) : Prog net α := ρ.next i (receive net ρ.op ρ.send i)

/-- The members go through the rounds together. -/
inductive Rounds : (ι → Prog net α) → List (Round net α) → (ι → Prog net α) → Prop where
  | nil (progs : ι → Prog net α) : Rounds progs [] progs
  | cons (ρ : Round net α) {rest : List (Round net α)} {last : ι → Prog net α}
      (more : Rounds ρ.after rest last) : Rounds ρ.prog (ρ :: rest) last

/-- What a member has handed in after `t` rounds. -/
def trace (rounds : List (Round net α)) (i : ι) (t : Nat) : List ((op : net.Op) × net.Send op) :=
  (rounds.take t).map fun ρ => ⟨ρ.op, ρ.send i⟩

/-- The programs before round `t`. -/
def stage (rounds : List (Round net α)) (last : ι → Prog net α) (t : Nat) : ι → Prog net α :=
  match rounds[t]? with
  | some ρ => ρ.prog
  | none => last

theorem length_trace {rounds : List (Round net α)} {i : ι} {t : Nat} (bound : t ≤ rounds.length) :
    (trace rounds i t).length = t := by
  simp only [trace, List.length_map, List.length_take]
  omega

theorem getElem?_trace {rounds : List (Round net α)} {i : ι} {t m : Nat} {ρ : Round net α}
    (found : rounds[m]? = some ρ) (early : m < t) :
    (trace rounds i t)[m]? = some ⟨ρ.op, ρ.send i⟩ := by
  rw [trace, List.getElem?_map, List.getElem?_take, if_pos early, found]
  rfl

theorem trace_succ {rounds : List (Round net α)} {i : ι} {t : Nat} {ρ : Round net α}
    (found : rounds[t]? = some ρ) :
    trace rounds i (t + 1) = trace rounds i t ++ [⟨ρ.op, ρ.send i⟩] := by
  rw [trace, List.take_add_one, found, List.map_append]
  rfl

theorem Rounds.stage_zero {progs last : ι → Prog net α} {rounds : List (Round net α)}
    (run : Rounds progs rounds last) : stage rounds last 0 = progs := by
  cases run <;> rfl

/-- A round leads to the next stage. -/
theorem Rounds.stage_succ {progs last : ι → Prog net α} {rounds : List (Round net α)}
    (run : Rounds progs rounds last) :
    ∀ {t : Nat} {ρ : Round net α}, rounds[t]? = some ρ → ρ.after = stage rounds last (t + 1) := by
  induction run with
  | nil progs => intro t ρ found; simp at found
  | cons ρ₀ more ih =>
      intro t ρ found
      cases t with
      | zero =>
          simp only [List.getElem?_cons_zero, Option.some.injEq] at found
          rw [← found, ← more.stage_zero]
          rfl
      | succ t =>
          rw [List.getElem?_cons_succ] at found
          rw [ih found]
          rfl

/-! ## Places in the rounds -/

variable (rounds : List (Round net α)) (last : ι → Prog net α)

/-- Member `i` is before round `t`, outside or inside of its operation. -/
inductive Place (c : Config net α) (i : ι) (t : Nat) : Prop where
  | outside (bound : t ≤ rounds.length) (prog : c.prog i = stage rounds last t i)
      (entered : c.entered i = false) (posted : c.posted i = trace rounds i t)
  | inside (bound : t < rounds.length) (prog : c.prog i = stage rounds last t i)
      (entered : c.entered i = true) (posted : c.posted i = trace rounds i (t + 1))

/-- Everybody is somewhere in the rounds. -/
def Inv (c : Config net α) : Prop := ∀ i, ∃ t, Place rounds last c i t

variable {rounds last}

theorem Place.prog_eq {c : Config net α} {i : ι} {t : Nat} (place : Place rounds last c i t) :
    c.prog i = stage rounds last t i := by
  cases place <;> assumption

theorem Place.posted_eq {c : Config net α} {i : ι} {t : Nat} (place : Place rounds last c i t) :
    ∃ m ≤ rounds.length, c.posted i = trace rounds i m := by
  cases place with
  | outside bound prog entered posted => exact ⟨t, bound, posted⟩
  | inside bound prog entered posted => exact ⟨t + 1, bound, posted⟩

/-- A member nothing happens to stays where it is. -/
theorem Place.congr {c c' : Config net α} {i : ι} {t : Nat} (place : Place rounds last c i t)
    (sameProg : c'.prog i = c.prog i) (sameEntered : c'.entered i = c.entered i)
    (samePosted : c'.posted i = c.posted i) : Place rounds last c' i t := by
  cases place with
  | outside bound prog entered posted =>
      exact .outside bound (sameProg.trans prog) (sameEntered.trans entered) (samePosted.trans posted)
  | inside bound prog entered posted =>
      exact .inside bound (sameProg.trans prog) (sameEntered.trans entered) (samePosted.trans posted)

/-- What is at a position is what the round says. -/
theorem Inv.posted_at {c : Config net α} (inv : Inv rounds last c) {j : ι} {m : Nat}
    {ρ : Round net α} (found : rounds[m]? = some ρ) {x : (op : net.Op) × net.Send op}
    (here : (c.posted j)[m]? = some x) : x = ⟨ρ.op, ρ.send j⟩ := by
  obtain ⟨t, place⟩ := inv j
  obtain ⟨t', bound, posted⟩ := place.posted_eq
  rw [posted] at here
  have early : m < t' := by
    have := (List.getElem?_eq_some_iff.1 here).1
    rwa [length_trace bound] at this
  rw [getElem?_trace found early] at here
  exact (Option.some.inj here).symm

/-- The values waited for in a round are the round's. -/
theorem Inv.received {c : Config net α} (inv : Inv rounds last c) {t : Nat} {ρ : Round net α}
    (found : rounds[t]? = some ρ) {i : ι} {sent : ι → net.Send ρ.op}
    (ready : ∀ j, net.needs ρ.op i j = true → (c.posted j)[t]? = some ⟨ρ.op, sent j⟩) :
    receive net ρ.op sent i = receive net ρ.op ρ.send i := by
  unfold receive
  congr 1
  funext j
  by_cases need : net.needs ρ.op i j = true
  · have eq := inv.posted_at found (ready j need)
    simp only [Sigma.mk.injEq, heq_eq_eq, true_and] at eq
    simp [eq]
  · simp [need]

/-- A program at a stage below the end is in that round's call. -/
theorem stage_call {t : Nat} {ρ : Round net α} (found : rounds[t]? = some ρ) (i : ι) :
    stage rounds last t i = .call ρ.op (ρ.send i) (ρ.next i) := by
  rw [stage, found]
  rfl

/-- What an unfinished member calls. -/
theorem Place.call {c : Config net α} {i : ι} {t : Nat} (place : Place rounds last c i t)
    (ended : ∀ i, ∀ (op : net.Op) send next, last i ≠ .call op send next) {op : net.Op}
    {send : net.Send op} {next : net.Recv op → Prog net α} (now : c.prog i = .call op send next) :
    ∃ ρ, rounds[t]? = some ρ ∧ (Prog.call ρ.op (ρ.send i) (ρ.next i) = .call op send next) := by
  have at_ := place.prog_eq.symm.trans now
  cases found : rounds[t]? with
  | none =>
      rw [stage, found] at at_
      exact absurd at_ (ended i op send next)
  | some ρ =>
      rw [stage_call found] at at_
      exact ⟨ρ, rfl, at_⟩

theorem start_inv {progs : ι → Prog net α} (run : Rounds progs rounds last) :
    Inv rounds last (start progs) := by
  intro i
  exact ⟨0, .outside (by omega) (by rw [run.stage_zero]; rfl) rfl rfl⟩

/-- How far a member has come, counting entries and exits. -/
def Config.progress (c : Config net α) (i : ι) : Nat :=
  2 * (c.posted i).length - if c.entered i then 1 else 0

theorem Place.progress {c : Config net α} {i : ι} {t : Nat} (place : Place rounds last c i t) :
    c.progress i = 2 * t + if c.entered i then 1 else 0 := by
  unfold Config.progress
  cases place with
  | outside bound prog entered posted =>
      rw [posted, length_trace bound, entered]
      rfl
  | inside bound prog entered posted =>
      rw [posted, length_trace bound, entered]
      simp only [if_true]
      omega

/-- A member that has come as far as the inside of a round has handed in its value. -/
theorem Place.posted_of_progress {c : Config net α} {i : ι} {t m : Nat} {ρ : Round net α}
    (place : Place rounds last c i t) (found : rounds[m]? = some ρ)
    (far : 2 * m + 1 ≤ c.progress i) : (c.posted i)[m]? = some ⟨ρ.op, ρ.send i⟩ := by
  rw [place.progress] at far
  cases place with
  | outside bound prog entered posted =>
      rw [entered] at far
      simp only [Bool.false_eq_true, if_false] at far
      rw [posted]
      exact getElem?_trace found (by omega)
  | inside bound prog entered posted =>
      rw [entered] at far
      simp only [if_true] at far
      rw [posted]
      exact getElem?_trace found (by omega)

/-- A member that has come to the end has its last program. -/
theorem Place.last_of_progress {c : Config net α} {i : ι} {t : Nat} (place : Place rounds last c i t)
    (far : 2 * rounds.length ≤ c.progress i) : c.prog i = last i := by
  have gone : rounds.length ≤ t := by
    rw [place.progress] at far
    cases place with
    | outside bound prog entered posted =>
        rw [entered] at far
        simp only [Bool.false_eq_true, if_false] at far
        omega
    | inside bound prog entered posted => split at far <;> omega
  rw [place.prog_eq, stage, List.getElem?_eq_none gone]

theorem Inv.progress_le {c : Config net α} (inv : Inv rounds last c) (i : ι) :
    c.progress i ≤ 2 * rounds.length := by
  obtain ⟨t, place⟩ := inv i
  rw [place.progress]
  cases place with
  | outside bound prog entered posted => simp [entered]; omega
  | inside bound prog entered posted => simp [entered]; omega

end Rounds

/-! ## Runs -/

section Runs

variable {ι : Type} [DecidableEq ι] {net : Interface ι} {α : Type}

/-- One member takes a step. -/
inductive Step (c : Config net α) : Config net α → Prop where
  | enter (i : ι) {op : net.Op} {send : net.Send op} {next : net.Recv op → Prog net α}
      (now : c.prog i = .call op send next) (outside : c.entered i = false) :
      Step c { c with
        posted := Function.update c.posted i (c.posted i ++ [⟨op, send⟩])
        entered := Function.update c.entered i true }
  | leave (i : ι) {op : net.Op} {send : net.Send op} {next : net.Recv op → Prog net α}
      (now : c.prog i = .call op send next) (inside : c.entered i = true)
      (sent : ι → net.Send op)
      (ready : ∀ j, net.needs op i j = true →
        (c.posted j)[(c.posted i).length - 1]? = some ⟨op, sent j⟩) :
      Step c { c with
        prog := Function.update c.prog i (next (receive net op sent i))
        entered := Function.update c.entered i false }

/-- Any number of steps. -/
abbrev Steps : Config net α → Config net α → Prop := Relation.ReflTransGen Step

/-- The operations a member has taken part in. -/
def Config.ops (c : Config net α) (i : ι) : List net.Op := (c.posted i).map Sigma.fst

/-- All runs of the programs end, with everybody done, after the same operations. -/
structure Agrees (progs : ι → Prog net α) (ops : List net.Op) (result : ι → α) : Prop where
  same : ∀ c, Steps (start progs) c → ∀ i, c.ops i <+: ops
  ends : ∀ c, Steps (start progs) c → ∀ i a, c.prog i = .done a → a = result i ∧ c.ops i = ops
  lives : ∀ c, Steps (start progs) c → ∀ i, c.prog i ≠ .halt
  moves : ∀ c, Steps (start progs) c → (∀ i, c.prog i = .done (result i)) ∨ ∃ c', Step c c'
  finite : Acc (fun c' c => Step c c') (start progs)

/-! ## Every run stays in the rounds -/

variable {rounds : List (Round net α)} {last : ι → Prog net α}

/-- **Every step stays in the rounds.** -/
theorem Rounds.inv_step {progs : ι → Prog net α} (run : Rounds progs rounds last)
    (ended : ∀ i, ∀ (op : net.Op) send next, last i ≠ .call op send next)
    {c c' : Config net α} (inv : Inv rounds last c) (step : Step c c') : Inv rounds last c' := by
  intro k
  obtain ⟨t, place⟩ := inv k
  cases step with
  | enter i now out =>
      by_cases me : k = i
      · subst me
        obtain ⟨ρ, found, same⟩ := place.call ended now
        cases same
        cases place with
        | inside bound prog entered posted => rw [out] at entered; simp at entered
        | outside bound prog entered posted =>
            refine ⟨t, .inside (List.getElem?_eq_some_iff.1 found).1 prog (by simp) ?_⟩
            rw [trace_succ found]
            simp [posted]
      · exact ⟨t, place.congr rfl (Function.update_of_ne me _ _) (Function.update_of_ne me _ _)⟩
  | leave i now within sent ready =>
      by_cases me : k = i
      · subst me
        obtain ⟨ρ, found, same⟩ := place.call ended now
        cases same
        cases place with
        | outside bound prog entered posted => rw [within] at entered; simp at entered
        | inside bound prog entered posted =>
            have got : receive net ρ.op sent k = receive net ρ.op ρ.send k := by
              refine inv.received found fun j need => ?_
              have here := ready j need
              rwa [posted, length_trace (by omega), Nat.add_sub_cancel] at here
            refine ⟨t + 1, .outside (by omega) ?_ (by simp) posted⟩
            rw [← run.stage_succ found]
            simp only [Function.update_self, got]
            rfl
      · exact ⟨t, place.congr (Function.update_of_ne me _ _) (Function.update_of_ne me _ _) rfl⟩

theorem Rounds.inv_steps {progs : ι → Prog net α} (run : Rounds progs rounds last)
    (ended : ∀ i, ∀ (op : net.Op) send next, last i ≠ .call op send next)
    {c : Config net α} (steps : Steps (start progs) c) : Inv rounds last c := by
  induction steps with
  | refl => exact start_inv run
  | tail _ step ih => exact run.inv_step ended ih step

/-- A step brings one member one further and leaves the others where they are. -/
theorem Step.progress {c c' : Config net α} (step : Step c c') (inv : Inv rounds last c) :
    ∃ i, c'.progress i = c.progress i + 1 ∧ ∀ k, k ≠ i → c'.progress k = c.progress k := by
  cases step with
  | enter i now out =>
      refine ⟨i, ?_, fun k apart => by simp [Config.progress, apart]⟩
      simp only [Config.progress, Function.update_self, List.length_append, List.length_singleton, out,
        Bool.false_eq_true, if_false, if_true]
      omega
  | leave i now within sent ready =>
      refine ⟨i, ?_, fun k apart => by simp [Config.progress, apart]⟩
      obtain ⟨t, place⟩ := inv i
      have some_ : 0 < (c.posted i).length := by
        cases place with
        | outside bound prog entered posted => rw [within] at entered; simp at entered
        | inside bound prog entered posted => rw [posted, length_trace bound]; omega
      simp only [Config.progress, Function.update_self, within, Bool.false_eq_true, if_false, if_true]
      omega

/-! ## Some run goes through them -/

variable [Fintype ι]

/-- A member that is behind nobody can move, or is done with the rounds. -/
theorem Inv.moves {c : Config net α} (inv : Inv rounds last c) :
    (∀ i, c.prog i = last i) ∨ ∃ c', Step c c' := by
  by_cases nobody : IsEmpty ι
  · exact Or.inl fun i => (nobody.false i).elim
  · rw [not_isEmpty_iff] at nobody
    obtain ⟨i, -, least⟩ := Finset.exists_min_image Finset.univ c.progress Finset.univ_nonempty
    obtain ⟨t, place⟩ := inv i
    have behind : ∀ k, c.progress i ≤ c.progress k := fun k => least k (Finset.mem_univ k)
    cases found : rounds[t]? with
    | none =>
        -- the last member to come has been through all rounds, so everybody has
        have far : 2 * rounds.length ≤ c.progress i := by
          have long : rounds.length ≤ t := List.getElem?_eq_none_iff.1 found
          rw [place.progress]
          omega
        left
        intro k
        obtain ⟨t', place'⟩ := inv k
        exact place'.last_of_progress (far.trans (behind k))
    | some ρ =>
        right
        have now : c.prog i = .call ρ.op (ρ.send i) (ρ.next i) := by
          rw [place.prog_eq, stage_call found]
        have mine := place.progress
        cases place with
        | outside bound prog entered posted => exact ⟨_, .enter i now entered⟩
        | inside bound prog entered posted =>
            -- nobody is behind, so everybody has handed in a value to this round
            rw [entered, if_pos rfl] at mine
            refine ⟨_, .leave i now entered ρ.send fun j _ => ?_⟩
            obtain ⟨t', place'⟩ := inv j
            rw [posted, length_trace bound, Nat.succ_sub_one]
            apply place'.posted_of_progress found
            rw [← mine]
            exact behind j

variable (rounds) in
/-- The steps that are left. -/
def remaining (c : Config net α) : Nat := ∑ i, (2 * rounds.length - c.progress i)

theorem remaining_step {c c' : Config net α} (step : Step c c') (inv : Inv rounds last c)
    (inv' : Inv rounds last c') : remaining rounds c' < remaining rounds c := by
  obtain ⟨i, further, others⟩ := step.progress inv
  have room := inv'.progress_le i
  refine Finset.sum_lt_sum (fun k _ => ?_) ⟨i, Finset.mem_univ i, by omega⟩
  by_cases me : k = i
  · subst me
    omega
  · rw [others k me]

theorem Rounds.finite {progs : ι → Prog net α} (run : Rounds progs rounds last)
    (ended : ∀ i, ∀ (op : net.Op) send next, last i ≠ .call op send next) :
    ∀ (n : Nat) (c : Config net α), Inv rounds last c → remaining rounds c = n →
      Acc (fun c' c => Step c c') c := by
  intro n
  induction n using Nat.strong_induction_on with
  | _ n ih =>
      intro c inv size
      constructor
      intro c' step
      have inv' := run.inv_step ended inv step
      exact ih _ (by rw [← size]; exact remaining_step step inv inv') c' inv' rfl

/-- **Rounds that end with everybody done are what every run does.** -/
theorem Rounds.agrees {progs : ι → Prog net α} {result : ι → α}
    (run : Rounds progs rounds fun i => .done (result i)) :
    Agrees progs (rounds.map Round.op) result := by
  have ended : ∀ i, ∀ (op : net.Op) send next,
      (fun i => (.done (result i) : Prog net α)) i ≠ .call op send next := by simp
  have opsAt : ∀ (i : ι) (m : Nat),
      (trace rounds i m).map Sigma.fst = (rounds.map Round.op).take m := by
    intro i m
    simp [trace, List.map_take, Function.comp_def]
  refine ⟨?_, ?_, ?_, ?_, run.finite ended _ _ (start_inv run) rfl⟩
  · intro c steps i
    obtain ⟨t, place⟩ := run.inv_steps ended steps i
    obtain ⟨m, -, posted⟩ := place.posted_eq
    rw [Config.ops, posted, opsAt]
    exact List.take_prefix _ _
  · intro c steps i a now
    obtain ⟨t, place⟩ := run.inv_steps ended steps i
    have at_ := place.prog_eq.symm.trans now
    cases found : rounds[t]? with
    | some ρ => rw [stage_call found] at at_; simp at at_
    | none =>
        rw [stage, found] at at_
        have long : rounds.length ≤ t := List.getElem?_eq_none_iff.1 found
        refine ⟨(Prog.done.inj at_).symm, ?_⟩
        cases place with
        | inside bound prog entered posted => omega
        | outside bound prog entered posted =>
            rw [Config.ops, posted, opsAt]
            exact List.take_of_length_le (by simpa using long)
  · intro c steps i stopped
    obtain ⟨t, place⟩ := run.inv_steps ended steps i
    have at_ := place.prog_eq.symm.trans stopped
    cases found : rounds[t]? with
    | some ρ => rw [stage_call found] at at_; simp at at_
    | none => rw [stage, found] at at_; simp at at_
  · intro c steps
    exact (run.inv_steps ended steps).moves

/-! ## Rounds by their operations -/

/-- The members go through these operations together. -/
def Through (progs : ι → Prog net α) (ops : List net.Op) (last : ι → Prog net α) : Prop :=
  ∃ rounds : List (Round net α), Rounds progs rounds last ∧ rounds.map Round.op = ops

omit [DecidableEq ι] [Fintype ι] in
theorem Through.nil (progs : ι → Prog net α) : Through progs [] progs :=
  ⟨[], .nil progs, rfl⟩

omit [DecidableEq ι] [Fintype ι] in
/-- The next operation, read off the programs. -/
theorem Through.call {progs last : ι → Prog net α} {op : net.Op} {send : ι → net.Send op}
    {next : ι → net.Recv op → Prog net α} {ops : List net.Op}
    (now : ∀ i, progs i = .call op (send i) (next i))
    (more : Through (fun i => next i (receive net op send i)) ops last) :
    Through progs (op :: ops) last := by
  obtain ⟨rounds, run, rfl⟩ := more
  have same : progs = Round.prog ⟨op, send, next⟩ := funext now
  rw [same]
  exact ⟨⟨op, send, next⟩ :: rounds, .cons ⟨op, send, next⟩ run, rfl⟩

omit [DecidableEq ι] [Fintype ι] in
theorem Through.append {progs mid last : ι → Prog net α} {ops ops' : List net.Op}
    (first : Through progs ops mid) (second : Through mid ops' last) :
    Through progs (ops ++ ops') last := by
  obtain ⟨rounds, run, rfl⟩ := first
  induction run with
  | nil progs => exact second
  | cons ρ more ih => exact Through.call (fun _ => rfl) (ih second)

theorem Through.agrees {progs : ι → Prog net α} {ops : List net.Op} {result : ι → α}
    (through : Through progs ops fun i => .done (result i)) : Agrees progs ops result := by
  obtain ⟨rounds, run, rfl⟩ := through
  exact run.agrees

end Runs

end QuoVadis.Theory.Collective
