/-
# Theory.DeferredAcceptance -- sources propose, targets trade up

Sources propose to targets in the order of their preference lists; a target
holds at most one source and trades it for a proposer it ranks better.  The
order in which free sources propose is left open: `offer` is one proposal of any
free source, so a queue, a stack or any other schedule is a run of it.

A `Market` carries what makes the algorithm work as fields: every source lists
every target once, a target ranks the sources without ties, and there are at
least as many targets as sources.  Over a market

* `offer_inv`: a proposal of a free source keeps `Inv`;
* `cursor_lt`: a free source has always a target left to propose to (a target
  once held stays held, so a source that tried them all would leave too few
  sources for the targets);
* `remaining_offer`: every proposal uses up one of finitely many;
* `Inv.no_blocking`: whatever a source likes better than what it got is held by
  a source ranked better there;
* `offer_fair`: no proposal takes from a source a target that some stable
  assignment gives it, so a finished run is the best stable assignment for every
  source (`Fair.best`), and all finished runs are the same (`Fair.unique`).
-/
import Mathlib.Data.Finset.Card
import Mathlib.Algebra.BigOperators.Group.Finset.Basic
import Mathlib.Algebra.Order.BigOperators.Group.Finset
import Mathlib.Logic.Function.Basic

namespace QuoVadis.Theory.DeferredAcceptance

set_option autoImplicit false

universe u v

/-- The two sides and what they like: `pref s` is best first, `rank t` is best
lowest. -/
structure Market (S : Type u) (T : Type v) where
  sources : Finset S
  targets : Finset T
  pref : S → List T
  rank : T → S → Nat
  pref_nodup : ∀ s ∈ sources, (pref s).Nodup
  mem_pref : ∀ s ∈ sources, ∀ t, t ∈ pref s ↔ t ∈ targets
  rank_inj : ∀ t ∈ targets, ∀ s ∈ sources, ∀ r ∈ sources, rank t s = rank t r → s = r
  room : sources.card ≤ targets.card

/-- Who holds whom, seen from both sides, and how far each source has come in
its list. -/
structure State (S : Type u) (T : Type v) where
  held : T → Option S
  assigned : S → Option T
  cursor : S → Nat

section

variable {S : Type u} {T : Type v} [DecidableEq S] [DecidableEq T]

set_option linter.unusedSectionVars false

namespace State

def initial : State S T :=
  ⟨fun _ => none, fun _ => none, fun _ => 0⟩

/-- The target takes the source; the source it held before, if any, is let go. -/
def accept (st : State S T) (s : S) (t : T) : State S T where
  held := Function.update st.held t (some s)
  assigned :=
    match st.held t with
    | none => Function.update st.assigned s (some t)
    | some old => Function.update (Function.update st.assigned s (some t)) old none
  cursor := Function.update st.cursor s (st.cursor s + 1)

def reject (st : State S T) (s : S) : State S T :=
  { st with cursor := Function.update st.cursor s (st.cursor s + 1) }

/-- One proposal: the state after it and the source it leaves free, if any. -/
def offer (rank : T → S → Nat) (st : State S T) (s : S) (t : T) : State S T × Option S :=
  match st.held t with
  | none => (st.accept s t, none)
  | some old => if rank t s < rank t old then (st.accept s t, some old) else (st.reject s, some s)

end State

variable (M : Market S T)

/-- What holds after any number of proposals. -/
structure Inv (st : State S T) : Prop where
  held_iff : ∀ s t, st.held t = some s ↔ st.assigned s = some t
  held_mem : ∀ s t, st.held t = some s → s ∈ M.sources ∧ t ∈ M.targets
  last : ∀ s t, st.assigned s = some t →
    0 < st.cursor s ∧ (M.pref s)[st.cursor s - 1]? = some t
  passed : ∀ s ∈ M.sources, ∀ i < st.cursor s, ∀ t, (M.pref s)[i]? = some t →
    ∃ h, st.held t = some h ∧ (h = s ∨ M.rank t h < M.rank t s)

theorem inv_initial : Inv M (State.initial : State S T) where
  held_iff := by simp [State.initial]
  held_mem := by simp [State.initial]
  last := by simp [State.initial]
  passed := by simp [State.initial]

variable {M} {st : State S T}

/-! ## One proposal -/

/-- All a proposal can do: the target is free or trades up and takes the source,
or it keeps what it holds. -/
theorem offer_cases (rank : T → S → Nat) (st : State S T) (s : S) (t : T) :
    (∃ freed, st.offer rank s t = (st.accept s t, freed) ∧ st.held t = freed ∧
        ∀ old, freed = some old → rank t s < rank t old) ∨
      (∃ old, st.offer rank s t = (st.reject s, some s) ∧ st.held t = some old ∧
        ¬ rank t s < rank t old) := by
  unfold State.offer
  cases holder : st.held t with
  | none => exact Or.inl ⟨none, rfl, rfl, by simp⟩
  | some old =>
      by_cases better : rank t s < rank t old
      · exact Or.inl ⟨some old, by simp [better], rfl, by simpa using better⟩
      · exact Or.inr ⟨old, by simp [better], rfl, better⟩

theorem offer_cursor (rank : T → S → Nat) (st : State S T) (s : S) (t : T) :
    (st.offer rank s t).1.cursor = Function.update st.cursor s (st.cursor s + 1) := by
  obtain ⟨freed, eq, -, -⟩ | ⟨old, eq, -, -⟩ := offer_cases rank st s t <;> rw [eq] <;> rfl

theorem Inv.held_unique (inv : Inv M st) {s : S} {t t' : T}
    (first : st.held t = some s) (second : st.held t' = some s) : t = t' := by
  have left := (inv.held_iff s t).1 first
  have right := (inv.held_iff s t').1 second
  exact Option.some.inj (left.symm.trans right)

theorem accept_assigned (inv : Inv M st) {s : S} {t : T} (free : st.assigned s = none) (x : S) :
    (st.accept s t).assigned x =
      if x = s then some t else if st.held t = some x then none else st.assigned x := by
  -- the source itself was free, so it is not the one the target lets go
  have notOld : st.held t ≠ some s := fun h => by
    rw [inv.held_iff, free] at h
    simp at h
  unfold State.accept
  cases holder : st.held t with
  | none => by_cases same : x = s <;> simp [same]
  | some old =>
      have oldNe : old ≠ s := fun e => notOld (by rw [holder, e])
      by_cases same : x = s
      · subst same
        simp [Ne.symm oldNe]
      · by_cases gone : x = old
        · simp [gone, oldNe]
        · have : ¬ old = x := fun e => gone e.symm
          simp [same, gone, this]

theorem accept_held_iff (inv : Inv M st) {s : S} {t : T} (free : st.assigned s = none)
    (x : S) (y : T) :
    (st.accept s t).held y = some x ↔ (st.accept s t).assigned x = some y := by
  rw [accept_assigned inv free]
  have heldEq : (st.accept s t).held y = if y = t then some s else st.held y := by
    simp [State.accept, Function.update_apply]
  rw [heldEq]
  by_cases atTarget : y = t
  · subst atTarget
    by_cases same : x = s
    · simp [same]
    · have notX : ¬ s = x := fun e => same e.symm
      simp only [if_true, Option.some.injEq, notX, same, if_false, false_iff]
      split
      · simp
      · rename_i notHeld
        rwa [← inv.held_iff]
  · simp only [atTarget, if_false]
    by_cases same : x = s
    · subst same
      have notT : ¬ t = y := fun e => atTarget e.symm
      simp [inv.held_iff, free, notT]
    · simp only [same, if_false]
      split
      · rename_i heldX
        simp only [reduceCtorEq, iff_false]
        exact fun h => atTarget (inv.held_unique h heldX)
      · exact inv.held_iff x y

/-- A target once held stays held, by a source it likes at least as much. -/
theorem accept_keeps_holder {rank : T → S → Nat} {s h : S} {t y : T}
    (trade : ∀ old, st.held t = some old → rank t s < rank t old) (holder : st.held y = some h) :
    ∃ h', (st.accept s t).held y = some h' ∧ (h' = h ∨ rank y h' < rank y h) := by
  by_cases atTarget : y = t
  · subst atTarget
    exact ⟨s, by simp [State.accept], Or.inr (trade h holder)⟩
  · exact ⟨h, by simp [State.accept, atTarget, holder], Or.inl rfl⟩

/-- The target of an earlier proposal only traded up since. -/
theorem accept_passed (inv : Inv M st) {s x : S} {t y : T}
    (trade : ∀ old, st.held t = some old → M.rank t s < M.rank t old) (memX : x ∈ M.sources)
    {i : Nat} (before : i < st.cursor x) (found : (M.pref x)[i]? = some y) :
    ∃ h, (st.accept s t).held y = some h ∧ (h = x ∨ M.rank y h < M.rank y x) := by
  obtain ⟨h, holds, good⟩ := inv.passed x memX i before y found
  obtain ⟨h', holds', good'⟩ := accept_keeps_holder trade holds
  refine ⟨h', holds', ?_⟩
  rcases good with rfl | good <;> rcases good' with rfl | good'
  · exact Or.inl rfl
  · exact Or.inr good'
  · exact Or.inr good
  · exact Or.inr (good'.trans good)

theorem accept_inv (inv : Inv M st) {s : S} {t : T} (member : s ∈ M.sources)
    (free : st.assigned s = none) (next : (M.pref s)[st.cursor s]? = some t)
    (trade : ∀ old, st.held t = some old → M.rank t s < M.rank t old) :
    Inv M (st.accept s t) where
  held_iff := accept_held_iff inv free
  held_mem := by
    intro x y holds
    simp only [State.accept, Function.update_apply] at holds
    split at holds
    · rename_i same
      subst same
      cases holds
      exact ⟨member, (M.mem_pref s member y).1 (List.mem_of_getElem? next)⟩
    · exact inv.held_mem x y holds
  last := by
    intro x y assigned
    rw [accept_assigned inv free] at assigned
    split at assigned
    · rename_i same
      subst same
      cases assigned
      simpa [State.accept] using next
    · rename_i other
      split at assigned
      · simp at assigned
      · simpa [State.accept, Function.update_apply, other] using inv.last x y assigned
  passed := by
    intro x memX i below y found
    by_cases same : x = s
    · subst same
      simp only [State.accept, Function.update_self] at below
      by_cases now : i = st.cursor x
      · subst now
        have atT : t = y := Option.some.inj (next.symm.trans found)
        subst atT
        exact ⟨x, by simp [State.accept], Or.inl rfl⟩
      · exact accept_passed inv trade memX (by omega) found
    · simp only [State.accept, Function.update_apply, same, if_false] at below
      exact accept_passed inv trade memX below found

theorem reject_inv (inv : Inv M st) {s old : S} {t : T} (member : s ∈ M.sources)
    (free : st.assigned s = none) (next : (M.pref s)[st.cursor s]? = some t)
    (holder : st.held t = some old) (keeps : ¬ M.rank t s < M.rank t old) :
    Inv M (st.reject s) where
  held_iff := inv.held_iff
  held_mem := inv.held_mem
  last := by
    intro x y assigned
    have other : x ≠ s := by
      rintro rfl
      simp only [State.reject] at assigned
      rw [free] at assigned
      simp at assigned
    simpa [State.reject, Function.update_apply, other] using inv.last x y assigned
  passed := by
    intro x memX i below y found
    by_cases same : x = s
    · subst same
      simp only [State.reject, Function.update_self] at below
      by_cases now : i = st.cursor x
      · subst now
        have atT : t = y := Option.some.inj (next.symm.trans found)
        subst atT
        obtain ⟨memOld, memT⟩ := inv.held_mem old t holder
        refine ⟨old, holder, ?_⟩
        -- no ties: the holder is the proposer or strictly better
        rcases Nat.lt_or_eq_of_le (Nat.le_of_not_lt keeps) with better | tie
        · exact Or.inr better
        · exact Or.inl (M.rank_inj t memT old memOld x member tie)
      · exact inv.passed x memX i (by omega) y found
    · simp only [State.reject, Function.update_apply, same, if_false] at below
      exact inv.passed x memX i below y found

theorem offer_inv (inv : Inv M st) {s : S} {t : T} (member : s ∈ M.sources)
    (free : st.assigned s = none) (next : (M.pref s)[st.cursor s]? = some t) :
    Inv M (st.offer M.rank s t).1 := by
  obtain ⟨freed, eq, holder, trade⟩ | ⟨old, eq, holder, keeps⟩ := offer_cases M.rank st s t
  · rw [eq]
    exact accept_inv inv member free next fun old h => trade old (by rw [← holder, h])
  · rw [eq]
    exact reject_inv inv member free next holder keeps

/-- Who is free after a proposal: those free before it, without the proposer,
and the source it leaves free. -/
theorem offer_free (inv : Inv M st) {s : S} {t : T} (free : st.assigned s = none) (x : S) :
    (st.offer M.rank s t).1.assigned x = none ↔
      (st.offer M.rank s t).2 = some x ∨ (x ≠ s ∧ st.assigned x = none) := by
  obtain ⟨freed, eq, holder, -⟩ | ⟨old, eq, -, -⟩ := offer_cases M.rank st s t
  · rw [eq]
    simp only
    rw [accept_assigned inv free, holder]
    by_cases same : x = s
    · subst same
      have notFreed : freed ≠ some x := by
        rw [← holder]
        intro h
        rw [inv.held_iff, free] at h
        simp at h
      simp [notFreed]
    · by_cases gone : freed = some x <;> simp [same, gone]
  · rw [eq]
    simp only [State.reject, Option.some.injEq]
    by_cases same : x = s
    · simp [same, free]
    · have : ¬ s = x := fun e => same e.symm
      simp [same, this]

/-- The source a proposal leaves free is a source of the market. -/
theorem offer_freed_mem (inv : Inv M st) {s x : S} {t : T} (member : s ∈ M.sources)
    (freed : (st.offer M.rank s t).2 = some x) : x ∈ M.sources := by
  obtain ⟨f, eq, holder, -⟩ | ⟨old, eq, -, -⟩ := offer_cases M.rank st s t
  · rw [eq] at freed
    exact (inv.held_mem x t (by rw [holder]; exact freed)).1
  · rw [eq] at freed
    cases freed
    exact member

/-- If it is not the proposer, it was held before. -/
theorem offer_freed_held (inv : Inv M st) {s x : S} {t : T}
    (freed : (st.offer M.rank s t).2 = some x) (other : x ≠ s) : st.assigned x = some t := by
  obtain ⟨f, eq, holder, -⟩ | ⟨old, eq, -, -⟩ := offer_cases M.rank st s t
  · rw [eq] at freed
    rw [← inv.held_iff, holder]
    exact freed
  · rw [eq] at freed
    exact absurd (Option.some.inj freed).symm other

/-! ## Progress -/

/-- A free source has a target left to propose to. -/
theorem Inv.cursor_lt (inv : Inv M st) {s : S} (member : s ∈ M.sources)
    (free : st.assigned s = none) : st.cursor s < (M.pref s).length := by
  by_contra exhausted
  -- all targets are held, by sources other than `s`
  have allHeld : ∀ t ∈ M.targets, ∃ h, h ∈ M.sources.erase s ∧ st.held t = some h := by
    intro t memT
    obtain ⟨i, found⟩ := List.mem_iff_getElem?.1 ((M.mem_pref s member t).2 memT)
    have inList : i < (M.pref s).length := (List.getElem?_eq_some_iff.1 found).1
    obtain ⟨h, holds, -⟩ := inv.passed s member i (by omega) t found
    refine ⟨h, Finset.mem_erase.2 ⟨?_, (inv.held_mem h t holds).1⟩, holds⟩
    rintro rfl
    rw [inv.held_iff, free] at holds
    simp at holds
  have : Nonempty S := ⟨s⟩
  choose! holder memHolder holds using allHeld
  have injective : Set.InjOn holder (M.targets : Set T) := by
    intro t memT t' memT' same
    exact inv.held_unique (holds t memT) (by rw [same]; exact holds t' memT')
  have few : M.targets.card ≤ (M.sources.erase s).card :=
    Finset.card_le_card_of_injOn holder memHolder injective
  rw [Finset.card_erase_of_mem member] at few
  have some_ : 0 < M.sources.card := Finset.card_pos.2 ⟨s, member⟩
  have := M.room
  omega

/-- The proposals left. -/
def remaining (M : Market S T) (st : State S T) : Nat :=
  ∑ s ∈ M.sources, ((M.pref s).length - st.cursor s)

theorem remaining_offer {s : S} {t : T} (member : s ∈ M.sources)
    (next : (M.pref s)[st.cursor s]? = some t) :
    remaining M (st.offer M.rank s t).1 < remaining M st := by
  have inList : st.cursor s < (M.pref s).length := (List.getElem?_eq_some_iff.1 next).1
  unfold remaining
  rw [offer_cursor]
  refine Finset.sum_lt_sum (fun x _ => ?_) ⟨s, member, ?_⟩
  · by_cases same : x = s
    · subst same
      simp only [Function.update_self]
      omega
    · simp [same]
  · simp only [Function.update_self]
    omega

/-! ## The end -/

/-- **No blocking pair.**  What a source likes better than what it got is held by
a source that is ranked better there. -/
theorem Inv.no_blocking (inv : Inv M st) {s : S} {t t' : T} {i j : Nat}
    (member : s ∈ M.sources) (got : st.assigned s = some t)
    (here : (M.pref s)[j]? = some t) (there : (M.pref s)[i]? = some t') (better : i < j) :
    ∃ h, st.held t' = some h ∧ M.rank t' h < M.rank t' s := by
  obtain ⟨pos, last⟩ := inv.last s t got
  have nodup := M.pref_nodup s member
  have inJ : j < (M.pref s).length := (List.getElem?_eq_some_iff.1 here).1
  have inLast : st.cursor s - 1 < (M.pref s).length := (List.getElem?_eq_some_iff.1 last).1
  have position : j = st.cursor s - 1 := by
    have same : (M.pref s)[j] = (M.pref s)[st.cursor s - 1] := by
      rw [List.getElem?_eq_getElem inJ] at here
      rw [List.getElem?_eq_getElem inLast] at last
      exact Option.some.inj (here.trans last.symm)
    exact (nodup.getElem_inj_iff).1 same
  obtain ⟨h, holds, good⟩ := inv.passed s member i (by omega) t' there
  refine ⟨h, holds, good.resolve_left ?_⟩
  -- the source is held once, and not there
  rintro rfl
  have sameTarget : t' = t := inv.held_unique holds ((inv.held_iff h t).2 got)
  subst sameTarget
  have inI : i < (M.pref h).length := (List.getElem?_eq_some_iff.1 there).1
  have : (M.pref h)[i] = (M.pref h)[j] := by
    rw [List.getElem?_eq_getElem inI] at there
    rw [List.getElem?_eq_getElem inJ] at here
    exact Option.some.inj (there.trans here.symm)
  have := (nodup.getElem_inj_iff).1 this
  omega

/-! ## The best stable assignment -/

/-- `s` likes `t` better than `t'`. -/
def Market.Likes (M : Market S T) (s : S) (t t' : T) : Prop :=
  (M.pref s).idxOf t < (M.pref s).idxOf t'

/-- An assignment of every source to a target of its own without a blocking pair:
a target that a source likes better is taken, by a source that is not ranked
worse there. -/
structure Stable (M : Market S T) (assignment : S → T) : Prop where
  mem : ∀ s ∈ M.sources, assignment s ∈ M.targets
  injective : ∀ s ∈ M.sources, ∀ r ∈ M.sources, assignment s = assignment r → s = r
  taken : ∀ s ∈ M.sources, ∀ t ∈ M.targets, M.Likes s t (assignment s) →
    ∃ h ∈ M.sources, assignment h = t ∧ ¬ M.rank t s < M.rank t h

/-- What a source has lost so far, no stable assignment gives it. -/
def Fair (M : Market S T) (st : State S T) : Prop :=
  ∀ assignment, Stable M assignment → ∀ s ∈ M.sources, ∀ i < st.cursor s, ∀ t,
    (M.pref s)[i]? = some t → st.assigned s ≠ some t → assignment s ≠ t

theorem fair_initial (M : Market S T) : Fair M (State.initial : State S T) := by
  intro assignment _ s _ i below
  simp [State.initial] at below

/-- The place of a target in a list without repetitions. -/
theorem Market.idxOf_pref {s : S} (member : s ∈ M.sources) {i : Nat} {t : T}
    (found : (M.pref s)[i]? = some t) : (M.pref s).idxOf t = i := by
  obtain ⟨inList, rfl⟩ := List.getElem?_eq_some_iff.1 found
  exact (M.pref_nodup s member).idxOf_getElem i inList

/-- If a source has been turned down by all stable partners before `t`, then
nobody ranked worse at `t` has `t` in a stable assignment: the two would block. -/
theorem Stable.ne_of_better {assignment : S → T} (stable : Stable M assignment) {h s : S} {t : T}
    {i : Nat} (memH : h ∈ M.sources) (memS : s ∈ M.sources) (found : (M.pref h)[i]? = some t)
    (before : ∀ j < i, ∀ t', (M.pref h)[j]? = some t' → assignment h ≠ t')
    (better : M.rank t h < M.rank t s) : assignment s ≠ t := by
  intro has
  have memT : t ∈ M.targets := (M.mem_pref h memH t).1 (List.mem_of_getElem? found)
  obtain ⟨j, place⟩ :=
    List.mem_iff_getElem?.1 ((M.mem_pref h memH _).2 (stable.mem h memH))
  have notBefore : ¬ j < i := fun earlier => before j earlier _ place rfl
  have notHere : j ≠ i := by
    rintro rfl
    have same : assignment h = t := Option.some.inj (place.symm.trans found)
    have self : h = s := stable.injective h memH s memS (same.trans has.symm)
    rw [self] at better
    exact Nat.lt_irrefl _ better
  have likes : M.Likes h t (assignment h) := by
    unfold Market.Likes
    rw [Market.idxOf_pref memH found, Market.idxOf_pref memH place]
    omega
  obtain ⟨r, memR, hasR, worse⟩ := stable.taken h memH t memT likes
  have self : r = s := stable.injective r memR s memS (hasR.trans has.symm)
  rw [self] at worse
  exact worse better

theorem accept_fair (inv : Inv M st) (fair : Fair M st) {s : S} {t : T} (member : s ∈ M.sources)
    (free : st.assigned s = none) (next : (M.pref s)[st.cursor s]? = some t)
    (trade : ∀ old, st.held t = some old → M.rank t s < M.rank t old) :
    Fair M (st.accept s t) := by
  intro assignment stable x memX i below y found lost
  rw [accept_assigned inv free] at lost
  by_cases same : x = s
  · subst same
    simp only [State.accept, Function.update_self] at below
    simp only [if_true, ne_eq, Option.some.injEq] at lost
    have earlier : i ≠ st.cursor x := by
      rintro rfl
      exact lost (Option.some.inj (next.symm.trans found))
    apply fair assignment stable x memX i (by omega) y found
    simp [free]
  · simp only [State.accept, Function.update_apply, same, if_false] at below
    rw [if_neg same] at lost
    by_cases had : st.assigned x = some y
    · -- only the source that was traded loses something
      have evicted : st.held t = some x := by
        by_contra kept
        rw [if_neg kept] at lost
        exact lost had
      have atT : t = y :=
        Option.some.inj (((inv.held_iff x t).1 evicted).symm.trans had)
      subst atT
      apply stable.ne_of_better member memX next _ (trade x evicted)
      intro j before t' place
      exact fair assignment stable s member j before t' place (by simp [free])
    · exact fair assignment stable x memX i below y found had

theorem reject_fair (inv : Inv M st) (fair : Fair M st) {s old : S} {t : T}
    (member : s ∈ M.sources) (free : st.assigned s = none)
    (next : (M.pref s)[st.cursor s]? = some t) (holder : st.held t = some old)
    (keeps : ¬ M.rank t s < M.rank t old) : Fair M (st.reject s) := by
  intro assignment stable x memX i below y found lost
  by_cases now : x = s ∧ i = st.cursor s
  · obtain ⟨rfl, rfl⟩ := now
    have atT : t = y := Option.some.inj (next.symm.trans found)
    subst atT
    obtain ⟨memOld, memT⟩ := inv.held_mem old t holder
    have has := (inv.held_iff old t).1 holder
    obtain ⟨-, last⟩ := inv.last old t has
    have other : old ≠ x := by
      rintro rfl
      rw [free] at has
      simp at has
    have better : M.rank t old < M.rank t x := by
      rcases Nat.lt_or_eq_of_le (Nat.le_of_not_lt keeps) with less | tie
      · exact less
      · exact absurd (M.rank_inj t memT old memOld x member tie) other
    apply stable.ne_of_better memOld member last _ better
    intro j before t' place
    apply fair assignment stable old memOld j (by omega) t' place
    rw [has]
    intro same
    cases same
    have := (Market.idxOf_pref memOld place).symm.trans (Market.idxOf_pref memOld last)
    omega
  · have earlier : i < st.cursor x := by
      by_cases same : x = s
      · subst same
        simp only [State.reject, Function.update_self] at below
        have : i ≠ st.cursor x := fun e => now ⟨rfl, e⟩
        omega
      · simpa [State.reject, Function.update_apply, same] using below
    exact fair assignment stable x memX i earlier y found lost

/-- **No proposal is unfair**: whoever proposes next, what it takes from a source
no stable assignment gives that source. -/
theorem offer_fair (inv : Inv M st) (fair : Fair M st) {s : S} {t : T} (member : s ∈ M.sources)
    (free : st.assigned s = none) (next : (M.pref s)[st.cursor s]? = some t) :
    Fair M (st.offer M.rank s t).1 := by
  obtain ⟨freed, eq, holder, trade⟩ | ⟨old, eq, holder, keeps⟩ := offer_cases M.rank st s t
  · rw [eq]
    exact accept_fair inv fair member free next fun old h => trade old (by rw [← holder, h])
  · rw [eq]
    exact reject_fair inv fair member free next holder keeps

/-- Nobody does better in a stable assignment. -/
theorem Fair.best (inv : Inv M st) (fair : Fair M st) {assignment : S → T}
    (stable : Stable M assignment) {s : S} (member : s ∈ M.sources) {t : T}
    (got : st.assigned s = some t) : ¬ M.Likes s (assignment s) t := by
  intro likes
  obtain ⟨pos, last⟩ := inv.last s t got
  obtain ⟨j, place⟩ :=
    List.mem_iff_getElem?.1 ((M.mem_pref s member _).2 (stable.mem s member))
  unfold Market.Likes at likes
  rw [Market.idxOf_pref member place, Market.idxOf_pref member last] at likes
  apply fair assignment stable s member j (by omega) _ place _ rfl
  rw [got]
  intro same
  cases same
  have := (Market.idxOf_pref member place).symm.trans (Market.idxOf_pref member last)
  omega

/-- A finished run is a stable assignment. -/
theorem Inv.stable (inv : Inv M st) {assignment : S → T}
    (placed : ∀ s ∈ M.sources, st.assigned s = some (assignment s)) : Stable M assignment where
  mem := by
    intro s member
    exact (inv.held_mem s _ ((inv.held_iff s _).2 (placed s member))).2
  injective := by
    intro s memS r memR same
    have heldS := (inv.held_iff s _).2 (placed s memS)
    have heldR := (inv.held_iff r _).2 (placed r memR)
    rw [same, heldR] at heldS
    exact (Option.some.inj heldS).symm
  taken := by
    intro s member t memT likes
    obtain ⟨i, found⟩ := List.mem_iff_getElem?.1 ((M.mem_pref s member t).2 memT)
    obtain ⟨-, last⟩ := inv.last s _ (placed s member)
    unfold Market.Likes at likes
    rw [Market.idxOf_pref member found, Market.idxOf_pref member last] at likes
    obtain ⟨h, holds, better⟩ := inv.no_blocking member (placed s member) last found likes
    have memH := (inv.held_mem h t holds).1
    have has : assignment h = t :=
      Option.some.inj ((placed h memH).symm.trans ((inv.held_iff h t).1 holds))
    exact ⟨h, memH, has, by omega⟩

/-- **All finished runs agree.** -/
theorem Fair.unique {st' : State S T} (inv : Inv M st) (fair : Fair M st) (inv' : Inv M st')
    (fair' : Fair M st') {a a' : S → T} (placed : ∀ s ∈ M.sources, st.assigned s = some (a s))
    (placed' : ∀ s ∈ M.sources, st'.assigned s = some (a' s)) {s : S} (member : s ∈ M.sources) :
    a s = a' s := by
  have left := fair.best inv (inv'.stable placed') member (placed s member)
  have right := fair'.best inv' (inv.stable placed) member (placed' s member)
  unfold Market.Likes at left right
  have inPref : a s ∈ M.pref s :=
    (M.mem_pref s member _).2 ((inv.stable placed).mem s member)
  exact (List.idxOf_inj inPref).1 (by omega)

end

end QuoVadis.Theory.DeferredAcceptance
