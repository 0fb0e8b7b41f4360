/-
# Theory.Backoff -- attempts with doubling delays between them

A loop makes an attempt, and if that is not done it waits and makes the next one.  The
wait starts at one unit and doubles until it reaches a limit; every wait is drawn out by
at most half of itself, at random.  The loop ends with the first attempt that is done, or
with the attempt after which the next wait would be the limit.

What an attempt finds may depend on when it is made.  Time is what the loop has waited:
`attempt t` is the attempt made after waiting for `t` units.

* `retry_last`: what the loop returns is what its last attempt returned, and when it gives
  up it has waited for the limit, less one, and at most for three times that;
* `retry_total`: it comes to an end if every attempt does.
-/
import Mathlib.Order.Basic

namespace QuoVadis.Theory.Backoff

set_option autoImplicit false

universe u

variable {σ ρ ε : Type u} (attempt : Nat → σ → Except ε (ρ × σ)) (done : ρ → Bool)
  (jitter : Nat → (bound : Nat) → Fin (bound + 1)) (limit : Nat)

/-- The loop, from a wait of `delay` on.  The result comes with the time it took. -/
def retry (delay : Nat) (pos : 0 < delay) (waited : Nat) (s : σ) : Except ε ((ρ × σ) × Nat) :=
  match attempt waited s with
  | .error e => .error e
  | .ok (r, s') =>
      if done r then .ok ((r, s'), waited)
      else if last : limit ≤ delay then .ok ((r, s'), waited)
      else retry (min (delay * 2) limit) (by omega) (waited + delay + jitter waited (delay / 2)) s'
termination_by limit - delay

/-- How long the loop has waited when its next wait is `delay`. -/
structure Waited (delay waited : Nat) : Prop where
  atLeast : delay - 1 ≤ waited
  doubled : delay < limit → 2 * waited ≤ 3 * (delay - 1)
  atMost : waited ≤ 3 * (limit - 1)

variable {attempt done jitter limit}

theorem waited_start : Waited limit 1 0 where
  atLeast := by omega
  doubled := by omega
  atMost := by omega

/-- The wait doubles, and so does what has been waited. -/
theorem Waited.next {delay waited extra : Nat} (h : Waited limit delay waited) (pos : 0 < delay)
    (below : ¬ limit ≤ delay) (half : extra ≤ delay / 2) :
    Waited limit (min (delay * 2) limit) (waited + delay + extra) := by
  obtain ⟨atLeast, doubled, -⟩ := h
  have doubled := doubled (by omega)
  constructor <;> omega

/-- **The last attempt decides**, and it is late enough.  `I` is what attempts that are not
done keep. -/
theorem retry_last {I : σ → Prop}
    (keeps : ∀ t s r s', attempt t s = .ok (r, s') → done r = false → I s → I s')
    {delay : Nat} {pos : 0 < delay} {waited : Nat} {s : σ} {r : ρ} {s' : σ} {t : Nat}
    (run : retry attempt done jitter limit delay pos waited s = .ok ((r, s'), t))
    (start : Waited limit delay waited) (here : I s) :
    ∃ s₀, I s₀ ∧ attempt t s₀ = .ok (r, s') ∧ t ≤ 3 * (limit - 1) ∧
      (done r = false → limit - 1 ≤ t) := by
  induction delay, pos, waited, s using retry.induct attempt done jitter limit with
  | case1 delay pos waited s e failed =>
      rw [retry, failed] at run
      cases run
  | case2 delay pos waited s r₁ s₁ made isDone =>
      rw [retry, made] at run
      simp only [isDone, if_true] at run
      cases run
      exact ⟨s, here, made, start.atMost, fun notDone => by rw [isDone] at notDone; cases notDone⟩
  | case3 delay pos waited s r₁ s₁ made notDone atLimit =>
      rw [retry, made] at run
      simp only [notDone, atLimit, dite_true] at run
      cases run
      exact ⟨s, here, made, start.atMost, fun _ => by have := start.atLeast; omega⟩
  | case4 delay pos waited s r₁ s₁ made notDone below ih =>
      rw [retry, made] at run
      simp only [notDone, below, dite_false] at run
      refine ih run (start.next pos below ?_) (keeps _ _ _ _ made (by simpa using notDone) here)
      exact Nat.lt_succ_iff.1 (jitter waited (delay / 2)).isLt

/-- The loop comes to an end with attempts that do. -/
theorem retry_total {I : σ → Prop}
    (keeps : ∀ t s r s', attempt t s = .ok (r, s') → done r = false → I s → I s')
    (total : ∀ t s, I s → ∃ x, attempt t s = .ok x) {delay : Nat} {pos : 0 < delay} {waited : Nat}
    {s : σ} (here : I s) : ∃ x, retry attempt done jitter limit delay pos waited s = .ok x := by
  induction delay, pos, waited, s using retry.induct attempt done jitter limit with
  | case1 delay pos waited s e failed =>
      obtain ⟨x, made⟩ := total waited s here
      rw [failed] at made
      cases made
  | case2 delay pos waited s r₁ s₁ made isDone =>
      rw [retry, made]
      simp only [isDone, if_true]
      exact ⟨_, rfl⟩
  | case3 delay pos waited s r₁ s₁ made notDone atLimit =>
      rw [retry, made]
      simp only [notDone, atLimit, dite_true]
      exact ⟨_, rfl⟩
  | case4 delay pos waited s r₁ s₁ made notDone below ih =>
      rw [retry, made]
      simp only [notDone, below, dite_false]
      exact ih (keeps _ _ _ _ made (by simpa using notDone) here)

end QuoVadis.Theory.Backoff
