/-
# Theory.Lowering -- collective operations made of other collective operations

A library gives its operations to programs and carries them out with the operations of
another library: a gather of values is a gather of sizes and a gather of bytes.  A
`Lowering` says which operations each one becomes and what a member runs for it; it is
correct on the values that fit, so a program may be given values for which it is not.

A program is lowered (`Lowers`) when every operation in it is replaced by what is run for
it.  If everything the members hand in fits (`Fitting`), lowered members go through the
lowered operations together, to where the members would have come (`Lowering.through`).
-/
import QuoVadis.Theory.Collective

namespace QuoVadis.Theory.Collective

set_option autoImplicit false

variable {ι : Type} {net wire : Interface ι} {α β γ δ ε : Type}

/-! ## Sequencing -/

theorem Prog.bind_done : ∀ p : Prog net α, p.bind .done = p
  | .done _ => rfl
  | .halt => rfl
  | .call op send next => by
      simp only [Prog.bind]
      congr 1
      funext recv
      exact Prog.bind_done (next recv)

/-- What comes after a program comes after its rounds. -/
theorem Through.bind {progs last : ι → Prog net α} {ops : List net.Op} (f : ι → α → Prog net β)
    (through : Through progs ops last) :
    Through (fun i => (progs i).bind (f i)) ops fun i => (last i).bind (f i) := by
  obtain ⟨rounds, run, rfl⟩ := through
  induction run with
  | nil progs => exact .nil _
  | cons ρ more ih => exact .call (fun _ => rfl) ih

/-! ## Operations made of operations -/

/-- Operations of `net`, carried out over `wire`. -/
structure Lowering (net wire : Interface ι) (ε : Type) where
  ops : net.Op → List wire.Op
  /-- What a member runs for an operation; it may fail. -/
  run : (i : ι) → (op : net.Op) → net.Send op → Prog wire (Except ε (net.Recv op))
  Fits : (op : net.Op) → (ι → net.Send op) → Prop
  correct : ∀ (op : net.Op) (send : ι → net.Send op), Fits op send →
    Through (fun i => run i op (send i)) (ops op) fun i => .done (.ok (receive net op send i))

namespace Lowering

variable (low : Lowering net wire ε)

/-- A program of member `i`, and the same with its operations carried out over `wire`. -/
inductive Lowers (R : α → β → Prop) (i : ι) : Prog net α → Prog wire β → Prop where
  | done {a : α} {b : β} (related : R a b) : Lowers R i (.done a) (.done b)
  | halt : Lowers R i .halt .halt
  | call {op : net.Op} {send : net.Send op} {next : net.Recv op → Prog net α}
      {cont : Except ε (net.Recv op) → Prog wire β}
      (more : ∀ recv, Lowers R i (next recv) (cont (.ok recv))) :
      Lowers R i (.call op send next) ((low.run i op send).bind cont)

variable {low} {R : α → β → Prop} {S : γ → δ → Prop}

/-- Lowered programs are put one behind the other. -/
theorem Lowers.bind {i : ι} {p : Prog net α} {q : Prog wire β} {f : α → Prog net γ}
    {g : β → Prog wire δ} (first : low.Lowers R i p q)
    (second : ∀ a b, R a b → low.Lowers S i (f a) (g b)) :
    low.Lowers S i (p.bind f) (q.bind g) := by
  induction first with
  | done related => exact second _ _ related
  | halt => exact .halt
  | call more ih =>
      rw [Prog.bind_assoc]
      exact .call ih

/-- One operation. -/
theorem Lowers.perform {i : ι} {op : net.Op} {send : net.Send op} :
    low.Lowers (fun a b => b = .ok a) i (Prog.perform net op send) (low.run i op send) := by
  have same : (low.run i op send).bind .done = low.run i op send := Prog.bind_done _
  rw [← same]
  exact .call fun recv => .done rfl

/-- Everything the members hand in on their way fits. -/
def Fitting (low : Lowering net wire ε) (progs : ι → Prog net α) : Prop :=
  ∀ (rounds : List (Round net α)) (last : ι → Prog net α), Rounds progs rounds last →
    ∀ ρ ∈ rounds, low.Fits ρ.op ρ.send

theorem Fitting.call [Nonempty ι] {progs : ι → Prog net α} {op : net.Op} {send : ι → net.Send op}
    {next : ι → net.Recv op → Prog net α} (now : ∀ i, progs i = .call op (send i) (next i))
    (fits : low.Fits op send)
    (more : low.Fitting fun i => next i (receive net op send i)) : low.Fitting progs := by
  intro rounds last run
  cases run with
  | nil => simp
  | cons ρ rest =>
      obtain ⟨op', send', next'⟩ := ρ
      obtain ⟨i₀⟩ := ‹Nonempty ι›
      have called : ∀ i, (.call op' (send' i) (next' i) : Prog net α) = .call op (send i) (next i) := now
      obtain rfl : op' = op := by
        injection called i₀
      obtain rfl : send' = send := by
        funext i
        injection called i with _ same _
      obtain rfl : next' = next := by
        funext i
        injection called i
      rintro ρ (_ | ⟨_, later⟩)
      · exact fits
      · exact more _ _ rest ρ later

/-- Members one of whom is in no operation take part in none together. -/
theorem Fitting.ended {progs : ι → Prog net α} (i : ι)
    (ended : ∀ (op : net.Op) send next, progs i ≠ .call op send next) : low.Fitting progs := by
  intro rounds last run
  cases run with
  | nil => simp
  | cons ρ more => exact absurd rfl (ended ρ.op (ρ.send i) (ρ.next i))

/-- **Lowered members go through the lowered operations.** -/
theorem through {progs last : ι → Prog net α} {progs' : ι → Prog wire β} {ops : List net.Op}
    (lowers : ∀ i, low.Lowers R i (progs i) (progs' i)) (fitting : low.Fitting progs)
    (through : Through progs ops last) :
    ∃ last', Through progs' (ops.flatMap low.ops) last' ∧ ∀ i, low.Lowers R i (last i) (last' i) := by
  obtain ⟨rounds, run, rfl⟩ := through
  have fits := fitting rounds last run
  clear fitting
  induction run generalizing progs' with
  | nil progs => exact ⟨progs', .nil progs', lowers⟩
  | cons ρ more ih =>
      have split : ∀ i, ∃ cont : Except ε (net.Recv ρ.op) → Prog wire β,
          progs' i = (low.run i ρ.op (ρ.send i)).bind cont ∧
            ∀ recv, low.Lowers R i (ρ.next i recv) (cont (.ok recv)) := by
        intro i
        have here : low.Lowers R i (.call ρ.op (ρ.send i) (ρ.next i)) (progs' i) := lowers i
        generalize progs' i = p at here
        cases here with
        | call more => exact ⟨_, rfl, more⟩
      choose cont now next using split
      obtain ⟨last', later, lowered⟩ := @ih (fun i => cont i (.ok (receive net ρ.op ρ.send i)))
        (fun i => next i _) fun ρ' member => fits ρ' (List.mem_cons_of_mem _ member)
      have first := (low.correct ρ.op ρ.send (fits ρ List.mem_cons_self)).bind cont
      rw [funext now]
      exact ⟨last', first.append later, lowered⟩

end Lowering

end QuoVadis.Theory.Collective
