/-
# Kernel.Isolation -- nested splits keep tasks apart

The tasks of an MPI job split the groups they are in, again and again.  A `World`
says which group every task is in now and which pool its scope has there; groups
are named by the colours that led to them, and members keep the order of their
ranks.

A collective split is a division in the sense of `Theory.NestedDivision`
(`WorldStep.divides`): the members of a group share one cpuset, the pieces of its
cut are disjoint, and the new groups are made by the returned colours.
-/
import QuoVadis.Kernel.Scope
import QuoVadis.Theory.NestedDivision

namespace QuoVadis.Kernel

open QuoVadis.Theory

set_option autoImplicit false

/-- The current groups of `n` tasks, and the pools of their current scopes. -/
structure World (n : Nat) where
  group : Fin n → List Int
  pool : Fin n → Hwpool

namespace World

variable {n : Nat}

/-- The members of a group in rank order. -/
def members (w : World n) (g : List Int) : List (Fin n) :=
  (List.finRange n).filter fun x => w.group x = g

theorem mem_members {w : World n} {g : List Int} {x : Fin n} :
    x ∈ w.members g ↔ w.group x = g := by
  simp [members]

/-- The world after the members of a group got new colours and pools. -/
def regroup (w : World n) (g : List Int) (results : Fin n → Int × Hwpool) : World n where
  group x := if w.group x = g then g ++ [(results x).1] else w.group x
  pool x := if w.group x = g then (results x).2 else w.pool x

/-- All tasks are in one group and hold the same cpuset, as in an intrinsic scope. -/
structure Intrinsic (w : World n) : Prop where
  group : ∀ x, w.group x = []
  cpuset : ∀ x y, (w.pool x).cpuset = (w.pool y).cpuset

/-- Groups and cpusets. -/
def shares (w : World n) : NestedDivision.State (Fin n) Int Bitmap where
  group := w.group
  share x := (w.pool x).cpuset

theorem Intrinsic.fair {w : World n} (intrinsic : w.Intrinsic) : NestedDivision.Fair w.shares where
  equal x y _ := intrinsic.cpuset x y
  apart x y different := absurd ((intrinsic.group x).trans (intrinsic.group y).symm) different
  leaf x y _ := (intrinsic.group x).trans (intrinsic.group y).symm

end World

/-- The members of one group call `qv_split` or `qv_split_at` with host types. -/
inductive WorldStep {n : Nat} (hwloc : Hwloc) (w : World n) : World n → Prop where
  | split (g : List Int) (task : Fin n → Task) (color : Fin n → Int)
      (request : Fin n → SplitRequest)
      (host : ∀ x, w.group x = g → objResClass (request x).objType ≠ .dev)
      (results : Fin n → Int × Hwpool)
      (run : scopeSplit hwloc ((w.members g).map fun x =>
        ⟨x.val, task x, color x, w.pool x, request x⟩) = .ok ((w.members g).map results)) :
      WorldStep hwloc w (w.regroup g results)

section Splits

variable {n : Nat} {hwloc : Hwloc}

/-- The pieces of a cut are apart. -/
theorem pieces_pairwise {hs : Hwsplit} (apart : hs.hwloc.PusDisjoint) :
    hs.pieces.Pairwise Disjoint := by
  unfold Hwsplit.pieces
  split
  · rename_i able
    exact Hwloc.pieces_disjoint apart _ (by have := able.1; omega)
  · exact List.Pairwise.nil

/-- **A split over a host type**: there are disjoint pieces of the members' cpusets,
and a member's new colour is the number of the piece it holds. -/
theorem scopeSplit_pieces (apart : hwloc.PusDisjoint) {root : SplitCall} {others : List SplitCall}
    {results : List (Int × Hwpool)} (host : objResClass root.request.objType ≠ .dev)
    (run : scopeSplit hwloc (root :: others) = .ok results) :
    ∃ pieces : List Bitmap, pieces.Pairwise Disjoint ∧
      (∀ piece ∈ pieces, piece ⊆ opOr ((root :: others).map fun c => c.hwpool.cpuset)) ∧
      ∀ result ∈ results, ∃ j : Nat, result.1 = (j : Int) ∧ pieces[j]? = some result.2.cpuset := by
  obtain ⟨npieces, hs, f, shape, rfl⟩ := scopeSplit_ok run
  refine ⟨(callsObject hwloc npieces root.request.objType (root :: others)).pieces,
    pieces_pairwise apart, ?_, ?_⟩
  · intro piece member
    unfold Hwsplit.pieces at member
    split at member
    · have sub := Hwloc.piece_subset member
      rw [Hwsplit.priCpuset_host host] at sub
      have base : (callsObject hwloc npieces root.request.objType (root :: others)).baseHwpool.cpuset =
          opOr ((root :: others).map fun c => c.hwpool.cpuset) := by
        show (Hwpool.setUnion _).cpuset = _
        rw [Hwpool.cpuset_setUnion, List.map_map]
        rfl
      rwa [base] at sub
    · cases member
  · rintro ⟨color, pool⟩ member
    obtain ⟨i, found⟩ := List.mem_iff_getElem?.1 member
    rw [List.getElem?_zip_eq_some] at found
    have below : i < (callsObject hwloc npieces root.request.objType (root :: others)).groupSize := by
      rw [← shape.length]
      exact (List.getElem?_eq_some_iff.1 found.2).1
    obtain ⟨pool', found', piece⟩ := shape.pool below
    obtain rfl := Option.some.inj (found.2.symm.trans found')
    exact ⟨f i, Option.some.inj (found.1.symm.trans (shape.color below)), piece⟩

theorem disjoint_of_pairwise {pieces : List Bitmap} (pairwise : pieces.Pairwise Disjoint) {i j : Nat}
    {a b : Bitmap} (foundA : pieces[i]? = some a) (foundB : pieces[j]? = some b)
    (different : i ≠ j) : Disjoint a b := by
  obtain ⟨inA, rfl⟩ := List.getElem?_eq_some_iff.1 foundA
  obtain ⟨inB, rfl⟩ := List.getElem?_eq_some_iff.1 foundB
  rcases Nat.lt_or_gt_of_ne different with less | more
  · exact List.pairwise_iff_getElem.1 pairwise i j inA inB less
  · exact (List.pairwise_iff_getElem.1 pairwise j i inB inA more).symm

/-- What a step does to the members of the group, in terms of the pieces. -/
theorem WorldStep.pieces (apart : hwloc.PusDisjoint) {w : World n} {g : List Int}
    {task : Fin n → Task} {color : Fin n → Int} {request : Fin n → SplitRequest}
    (host : ∀ x, w.group x = g → objResClass (request x).objType ≠ .dev)
    {results : Fin n → Int × Hwpool}
    (run : scopeSplit hwloc ((w.members g).map fun x =>
      ⟨x.val, task x, color x, w.pool x, request x⟩) = .ok ((w.members g).map results))
    (fair : NestedDivision.Fair w.shares) :
    ∃ pieces : List Bitmap, pieces.Pairwise Disjoint ∧
      ∀ x, w.group x = g → (results x).2.cpuset ⊆ (w.pool x).cpuset ∧
        ∃ j : Nat, (results x).1 = (j : Int) ∧ pieces[j]? = some (results x).2.cpuset := by
  cases shape : w.members g with
  | nil =>
      rw [shape] at run
      cases run
  | cons root others =>
      have inGroup : ∀ x ∈ root :: others, w.group x = g := fun x member => by
        rw [← World.mem_members, shape]
        exact member
      rw [shape, List.map_cons] at run
      obtain ⟨pieces, pairwise, within, painted⟩ :=
        scopeSplit_pieces apart (host root (inGroup root List.mem_cons_self)) run
      refine ⟨pieces, pairwise, fun x inside => ?_⟩
      obtain ⟨j, number, found⟩ := painted (results x)
        (List.mem_map_of_mem (by rw [← shape]; exact World.mem_members.2 inside))
      refine ⟨fun y memY => ?_, j, number, found⟩
      -- the base pool is the union of the members' pools, which all have one cpuset
      obtain ⟨b, inMap, memB⟩ := mem_opOr.1 (within _ (List.mem_of_getElem? found) memY)
      have inMap : b ∈ (root :: others).map fun z => (w.pool z).cpuset := by simpa using inMap
      obtain ⟨z, memZ, rfl⟩ := List.mem_map.1 inMap
      have same : (w.pool z).cpuset = (w.pool x).cpuset :=
        fair.equal z x ((inGroup z memZ).trans inside.symm)
      rw [← same]
      exact memB

/-- **A collective split is a division.** -/
theorem WorldStep.divides (apart : hwloc.PusDisjoint) {w w' : World n}
    (step : WorldStep hwloc w w') (fair : NestedDivision.Fair w.shares) :
    NestedDivision.Step w.shares w'.shares := by
  cases step with
  | split g task color request host results run =>
      obtain ⟨pieces, pairwise, painted⟩ := WorldStep.pieces apart host run fair
      have regrouped : ∀ x, w.group x = g →
          (w.regroup g results).shares.share x = (results x).2.cpuset := by
        intro x inside
        show (if w.group x = g then (results x).2 else w.pool x).cpuset = _
        rw [if_pos inside]
      refine ⟨g, fun x => (results x).1, ?_, ?_, ?_, ?_, ?_⟩
      · intro x inside
        exact if_pos inside
      · intro x outside
        refine ⟨if_neg outside, ?_⟩
        show (if w.group x = g then (results x).2 else w.pool x).cpuset = (w.pool x).cpuset
        rw [if_neg (show ¬ w.group x = g from outside)]
      · intro x inside
        rw [regrouped x inside]
        exact (painted x inside).1
      · intro x y insideX insideY same
        obtain ⟨-, i, colorX, pieceX⟩ := painted x insideX
        obtain ⟨-, j, colorY, pieceY⟩ := painted y insideY
        have together : i = j := Int.ofNat.inj (colorX.symm.trans (same.trans colorY))
        subst together
        rw [regrouped x insideX, regrouped y insideY]
        exact Option.some.inj (pieceX.symm.trans pieceY)
      · intro x y insideX insideY different
        obtain ⟨-, i, colorX, pieceX⟩ := painted x insideX
        obtain ⟨-, j, colorY, pieceY⟩ := painted y insideY
        rw [regrouped x insideX, regrouped y insideY]
        refine disjoint_of_pairwise pairwise pieceX pieceY fun together => different ?_
        show (results x).1 = (results y).1
        rw [colorX, colorY, together]

/-- Any number of splits. -/
abbrev WorldRun (hwloc : Hwloc) : World n → World n → Prop :=
  Relation.ReflTransGen (WorldStep hwloc)

/-- **A run of splits is a run of divisions.** -/
theorem WorldRun.shares (apart : hwloc.PusDisjoint) {w w' : World n} (run : WorldRun hwloc w w')
    (fair : NestedDivision.Fair w.shares) :
    Relation.ReflTransGen NestedDivision.Step w.shares w'.shares := by
  induction run with
  | refl => exact Relation.ReflTransGen.refl
  | tail _ step ih => exact ih.tail (step.divides apart (NestedDivision.fair_run ih fair))

/-- **Nested splits keep tasks consistent and isolated.**  In every state that splits
of an intrinsic scope lead to, members of a group hold equal cpusets, tasks that
some split put into different groups hold disjoint ones, and a further split gives
every task a part of what it holds. -/
theorem nested_splits_isolate (hwloc : Hwloc) (apart : hwloc.PusDisjoint) (n : Nat) (w₀ w : World n)
    (intrinsic : w₀.Intrinsic) (run : WorldRun hwloc w₀ w) :
    (∀ x y, w.group x = w.group y → (w.pool x).cpuset = (w.pool y).cpuset) ∧
      (∀ w₁ w₂, WorldRun hwloc w₀ w₁ → WorldStep hwloc w₁ w₂ → WorldRun hwloc w₂ w →
        ∀ x y, w₁.group x = w₁.group y → w₂.group x ≠ w₂.group y →
          Disjoint (w.pool x).cpuset (w.pool y).cpuset) ∧
      ∀ w', WorldStep hwloc w w' → ∀ x, (w'.pool x).cpuset ⊆ (w.pool x).cpuset := by
  have fair : NestedDivision.Fair w.shares :=
    NestedDivision.fair_run (WorldRun.shares apart run intrinsic.fair) intrinsic.fair
  refine ⟨fair.equal, ?_, ?_⟩
  · intro w₁ w₂ before step after x y _ different
    have fair₂ : NestedDivision.Fair w₂.shares :=
      NestedDivision.fair_run (WorldRun.shares apart (before.tail step) intrinsic.fair) intrinsic.fair
    exact NestedDivision.disjoint_run (WorldRun.shares apart after fair₂) fair₂ different
  · intro w' step x
    obtain ⟨g, color, divides⟩ := step.divides apart fair
    exact divides.share_le x

end Splits

/-- Two tasks that hold both PUs of a machine. -/
def twoTasks : World 2 where
  group _ := []
  pool _ := .ofCpuset {0, 1}

/-- The two tasks split the machine by colour. -/
theorem nested_splits_isolate_twoTasks :
    ∃ w : World 2, WorldStep (.onePackage 2 []) twoTasks w ∧ w.group 0 = [0] ∧ w.group 1 = [1] ∧
      Disjoint (w.pool 0).cpuset (w.pool 1).cpuset := by
  have run : ((scopeSplit (.onePackage 2 []) ((twoTasks.members []).map fun x =>
      ⟨x.val, ⟨[{0, 1}]⟩, x.val, twoTasks.pool x, .split 2⟩)).map fun results =>
        results.map Prod.fst) = .ok [0, 1] := by decide +kernel
  obtain ⟨results, ran, colors⟩ := map_ok run
  obtain ⟨a, b, rfl⟩ : ∃ a b, results = [a, b] :=
    List.length_eq_two.1 (by simpa using congrArg List.length colors)
  simp only [List.map_cons, List.map_nil, List.cons.injEq, and_true] at colors
  let results : Fin 2 → Int × Hwpool := fun x => if x = 0 then a else b
  have step : WorldStep (.onePackage 2 []) twoTasks (twoTasks.regroup [] results) :=
    .split [] (fun _ => ⟨[{0, 1}]⟩) (fun x => x.val) (fun _ => .split 2) (fun _ _ => by decide) results ran
  have first : (twoTasks.regroup [] results).group 0 = [0] := by
    show [a.1] = [0]
    rw [colors.1]
  have second : (twoTasks.regroup [] results).group 1 = [1] := by
    show [b.1] = [1]
    rw [colors.2]
  refine ⟨_, step, first, second, ?_⟩
  have isolated := nested_splits_isolate (.onePackage 2 []) (Hwloc.onePackage_pusDisjoint 2 []) 2
    twoTasks (twoTasks.regroup [] results) ⟨fun _ => rfl, fun _ _ => rfl⟩ (.single step)
  exact isolated.2.1 twoTasks _ .refl step .refl 0 1 rfl (by rw [first, second]; decide)

end QuoVadis.Kernel
