/-
# Kernel.RequestedPiece -- the piece a member asked for

A member that splits into `p` pieces with colour `c` asks for piece `c` of `p`.
`m_split_cpuset` cuts into `min(p, k)` pieces, `k` being the size of the group,
although its comment says not to take the minimum.

* `mSplit_requested_iff`: with at least `p` members everybody gets the piece asked
  for; with fewer, only if the coarser cut happens to have the same first pieces and
  nobody asks for a later one.
* `split_requested_iff`: the same of a collective split and of a split over threads.
-/
import QuoVadis.Kernel.Coloring
import QuoVadis.Kernel.Scope

namespace QuoVadis.Kernel

open QuoVadis.Theory
open Std (ExtTreeSet)

set_option autoImplicit false

/-- Every member holds the piece of `p` that its colour names. -/
def RequestedPieces (hwloc : Hwloc) (base : Bitmap) (p : Nat) (colors : List Int)
    (pools : List Hwpool) : Prop :=
  ∀ (i : Nat) (c : Int), colors[i]? = some c →
    ∃ pool, pools[i]? = some pool ∧ (hwloc.pieces base p)[c.toNat]? = some pool.cpuset

/-- Members that each ask for one of `p` pieces of a cpuset that has them. -/
structure PieceRequests (hwloc : Hwloc) (base : Bitmap) (p : Nat) (colors : List Int) : Prop where
  tasks : colors ≠ []
  able : hwloc.Splittable base p
  bounds : ∀ c ∈ colors, 0 ≤ c ∧ c < (p : Int)

/-- The group is large enough, or the cut for its size agrees with the requested one on
all pieces asked for: its first piece is as large, and only larger pieces are asked for. -/
def CutsAgree (hwloc : Hwloc) (base : Bitmap) (p : Nat) (colors : List Int) : Prop :=
  p ≤ colors.length ∨
    BalancedBlocks.size (hwloc.inside .pu base).length colors.length 0 =
      BalancedBlocks.size (hwloc.inside .pu base).length p 0 ∧
    ∀ c ∈ colors, c < ((hwloc.inside .pu base).length % p : Nat)

namespace Hwsplit

section Requests

variable {hwloc : Hwloc} {p : Nat} {type : HwObjType} {base : Hwpool} {colors : List Int}
  {affinities : List Bitmap}

/-- The pieces there are when pieces are asked for. -/
theorem pieces_requested (affinities : List Bitmap) (host : objResClass type ≠ .dev)
    (asked : PieceRequests hwloc base.cpuset p colors) :
    (prepared hwloc p type base colors affinities).pieces =
      hwloc.pieces base.cpuset (min p colors.length) ∧
    hwloc.Splittable base.cpuset (min p colors.length) := by
  have some_ := List.length_pos_iff.2 asked.tasks
  have able : hwloc.Splittable base.cpuset (min p colors.length) := by
    have := asked.able.1
    have := asked.able.2
    exact ⟨by omega, by omega⟩
  refine ⟨?_, able⟩
  rw [pieces, priCpuset_host host]
  exact if_pos able

/-- Requests for pieces are never refused: there are not more colours than pieces. -/
theorem distinct_le_pieces {bitmap : Bitmap} (asked : PieceRequests hwloc bitmap p colors) :
    (colorSet colors).size ≤ min p colors.length := by
  rw [size_colorSet]
  refine Nat.le_min.2 ⟨?_, List.toFinset_card_le colors⟩
  have sub : colors.toFinset ⊆ (Finset.range p).image Int.ofNat := by
    intro c member
    have bounds := asked.bounds c (List.mem_toFinset.1 member)
    exact Finset.mem_image.2 ⟨c.toNat, Finset.mem_range.2 (by omega),
      Int.toNat_of_nonneg bounds.1⟩
  calc colors.toFinset.card ≤ ((Finset.range p).image Int.ofNat).card := Finset.card_le_card sub
    _ ≤ p := Finset.card_image_le.trans (Finset.card_range p).le

/-- The colours the pieces are given out by. -/
def pieceColors (p : Nat) (colors : List Int) : List Int :=
  if ∃ c ∈ colors, ((min p colors.length : Nat) : Int) ≤ c then qviMapClampColors colors else colors

theorem length_pieceColors (p : Nat) (colors : List Int) :
    (pieceColors p colors).length = colors.length := by
  unfold pieceColors
  split
  · exact length_clampColors colors
  · rfl

/-- **What a split that asks for pieces gives**: piece `u` of `min(p, k)`, where `u` is
the colour as it is or clamped. -/
theorem mSplit_asked (host : objResClass type ≠ .dev)
    (asked : PieceRequests hwloc base.cpuset p colors) (same : affinities.length = colors.length) :
    ∃ hs' f, (prepared hwloc p type base colors affinities).mSplit = .ok hs' ∧
      Divided (prepared hwloc p type base colors affinities) hs' f ∧
      ∀ (i : Nat) (u : Int), (pieceColors p colors)[i]? = some u →
        ∃ pool, hs'.hwpools[i]? = some pool ∧
          (hwloc.pieces base.cpuset (min p colors.length))[u.toNat]? = some pool.cpuset := by
  have ready := prepared_ready hwloc p type base colors affinities asked.tasks same
  have user : UserColored colors := fun c member => (asked.bounds c member).1
  obtain ⟨cutEq, -⟩ := pieces_requested affinities host asked
  have count : (prepared hwloc p type base colors affinities).pieces.length =
      min p colors.length := by rw [cutEq, Hwloc.length_pieces]
  obtain ⟨hs', run, divided⟩ :=
    mSplit_user ready user (by rw [count]; exact distinct_le_pieces asked)
  refine ⟨hs', _, run, divided, fun i u found => ?_⟩
  have recolored : (prepared hwloc p type base colors affinities).cut.userColors =
      pieceColors p colors := by
    rw [userColors_eq user, pieceColors, ← count]
    rfl
  have inside : i < colors.length := by
    rw [← length_pieceColors p colors]
    exact (List.getElem?_eq_some_iff.1 found).1
  obtain ⟨pool, poolAt, piece⟩ := divided.pool (i := i) inside
  rw [recolored, found, Option.getD_some, cutEq] at piece
  exact ⟨pool, poolAt, piece⟩

/-- The pieces given out, under their new colours, are those asked for. -/
def SamePieces (hwloc : Hwloc) (base : Bitmap) (p : Nat) (colors : List Int) : Prop :=
  ∀ (i : Nat) (c u : Int), colors[i]? = some c → (pieceColors p colors)[i]? = some u →
    (hwloc.pieces base (min p colors.length))[u.toNat]? = (hwloc.pieces base p)[c.toNat]?

theorem requestedPieces_iff {bitmap : Bitmap} {pools : List Hwpool}
    (given : ∀ (i : Nat) (u : Int), (pieceColors p colors)[i]? = some u →
      ∃ pool, pools[i]? = some pool ∧
        (hwloc.pieces bitmap (min p colors.length))[u.toNat]? = some pool.cpuset) :
    RequestedPieces hwloc bitmap p colors pools ↔ SamePieces hwloc bitmap p colors := by
  constructor
  · intro requested i c u atI atI'
    obtain ⟨pool, found, piece⟩ := given i u atI'
    obtain ⟨pool', found', piece'⟩ := requested i c atI
    obtain rfl := Option.some.inj (found.symm.trans found')
    rw [piece, piece']
  · intro same i c atI
    have inside : i < (pieceColors p colors).length := by
      rw [length_pieceColors]
      exact (List.getElem?_eq_some_iff.1 atI).1
    obtain ⟨pool, found, piece⟩ := given i _ (List.getElem?_eq_getElem inside)
    exact ⟨pool, found, by rw [← same i c _ atI (List.getElem?_eq_getElem inside), piece]⟩

end Requests

/-! ## When the two cuts have the pieces in common -/

section Cuts

variable {hwloc : Hwloc} (apart : hwloc.PusDisjoint) {base : Bitmap} {p : Nat} {colors : List Int}
  (asked : PieceRequests hwloc base p colors)

include asked

/-- A group as large as the number of pieces is cut as requested. -/
theorem samePieces_of_large (large : p ≤ colors.length) : SamePieces hwloc base p colors := by
  have asGiven : pieceColors p colors = colors := by
    rw [pieceColors, if_neg]
    rintro ⟨c, member, outside⟩
    have := (asked.bounds c member).2
    omega
  intro i c u atI atI'
  rw [asGiven, atI, Option.some.injEq] at atI'
  rw [Nat.min_eq_left large, atI']

include apart

/-- In a smaller group whose colours are all numbers of its own pieces. -/
theorem samePieces_iff_small (small : colors.length < p)
    (inRange : ∀ c ∈ colors, c < (colors.length : Int)) :
    SamePieces hwloc base p colors ↔
      BalancedBlocks.size (hwloc.inside .pu base).length colors.length 0 =
        BalancedBlocks.size (hwloc.inside .pu base).length p 0 ∧
      ∀ c ∈ colors, c < ((hwloc.inside .pu base).length % p : Nat) := by
  have pos := List.length_pos_iff.2 asked.tasks
  have asGiven : pieceColors p colors = colors := by
    rw [pieceColors, if_neg]
    rintro ⟨c, member, outside⟩
    have := inRange c member
    omega
  have block : ∀ c ∈ colors, (hwloc.pieces base colors.length)[c.toNat]? =
      (hwloc.pieces base p)[c.toNat]? ↔
        BalancedBlocks.size (hwloc.inside .pu base).length colors.length 0 =
          BalancedBlocks.size (hwloc.inside .pu base).length p 0 ∧
        c < ((hwloc.inside .pu base).length % p : Nat) := by
    intro c member
    have := inRange c member
    have := asked.bounds c member
    rw [Hwloc.pieces_eq_iff apart ⟨pos, by have := asked.able.2; omega⟩ asked.able (by omega)
      (by omega), BalancedBlocks.same_block_iff pos small asked.able.2]
    refine and_congr_right fun _ => ?_
    omega
  rw [SamePieces, asGiven, Nat.min_eq_right small.le]
  constructor
  · intro same
    have each : ∀ c ∈ colors, _ := fun c member => (block c member).1 (by
      obtain ⟨i, atI⟩ := List.mem_iff_getElem?.1 member
      exact same i c c atI atI)
    obtain ⟨c, member⟩ := List.exists_mem_of_ne_nil colors asked.tasks
    exact ⟨(each c member).1, fun c member => (each c member).2⟩
  · rintro ⟨first, larger⟩ i c u atI atI'
    obtain rfl := Option.some.inj (atI.symm.trans atI')
    have member := List.mem_of_getElem? atI
    exact (block c member).2 ⟨first, larger c member⟩

/-- In a smaller group, clamped colours name other pieces than the colours did. -/
theorem not_samePieces_of_clamped (small : colors.length < p)
    (outside : ∃ c ∈ colors, (colors.length : Int) ≤ c) : ¬ SamePieces hwloc base p colors := by
  intro same
  have pos := List.length_pos_iff.2 asked.tasks
  have clamped : pieceColors p colors = qviMapClampColors colors := by
    rw [pieceColors, if_pos]
    rwa [Nat.min_eq_right small.le]
  rw [SamePieces, clamped, Nat.min_eq_right small.le] at same
  have few := distinct_le_pieces asked
  -- the `j`-th smallest colour is given piece `j`
  have ranks : ∀ j < (colorSet colors).size,
      ((colorSet colors).toList[j]?.getD 0).toNat = j := by
    refine BalancedBlocks.eq_of_same_blocks pos small asked.able.2 (fun j below => ?_)
    have inList : j < (colorSet colors).toList.length := by rwa [ExtTreeSet.length_toList]
    have member : (colorSet colors).toList[j] ∈ colors := mem_colorSet.1 (List.getElem_mem inList)
    obtain ⟨i, atI⟩ := List.mem_iff_getElem?.1 member
    have atI' : (qviMapClampColors colors)[i]? = some (j : Int) := by
      rw [getElem?_clampColors, atI, Option.map_some,
        (nodup_colorSet colors).idxOf_getElem j inList]
    have bounds := asked.bounds _ member
    rw [List.getElem?_eq_getElem inList, Option.getD_some]
    refine (Hwloc.pieces_eq_iff apart ⟨pos, by have := asked.able.2; omega⟩ asked.able (by omega)
      (by omega)).1 ?_
    exact same i _ _ atI atI'
  -- so no colour is as large as the group
  obtain ⟨c, member, large⟩ := outside
  obtain ⟨j, found⟩ := List.mem_iff_getElem?.1 (mem_colorSet.2 member)
  have below : j < (colorSet colors).size := by
    rw [← ExtTreeSet.length_toList]
    exact (List.getElem?_eq_some_iff.1 found).1
  have rank := ranks j below
  rw [found, Option.getD_some] at rank
  omega

/-- **When the members of a group get the pieces they asked for.** -/
theorem samePieces_iff : SamePieces hwloc base p colors ↔ CutsAgree hwloc base p colors := by
  unfold CutsAgree
  by_cases large : p ≤ colors.length
  · exact iff_of_true (samePieces_of_large asked large) (Or.inl large)
  · have small := Nat.lt_of_not_le large
    simp only [large, false_or]
    by_cases inRange : ∀ c ∈ colors, c < (colors.length : Int)
    · exact samePieces_iff_small apart asked small inRange
    · push Not at inRange
      refine iff_of_false (not_samePieces_of_clamped apart asked small inRange) ?_
      rintro ⟨first, larger⟩
      obtain ⟨c, member, outside⟩ := inRange
      have := larger c member
      have := BalancedBlocks.mod_lt_of_size_eq (List.length_pos_iff.2 asked.tasks) small
        asked.able.2 first
      omega

end Cuts

/-- **A split that asks for pieces.** -/
theorem mSplit_requested_iff {hwloc : Hwloc} (apart : hwloc.PusDisjoint) (p : Nat)
    (type : HwObjType) (base : Hwpool) (colors : List Int) (affinities : List Bitmap)
    (host : objResClass type ≠ .dev) (asked : PieceRequests hwloc base.cpuset p colors)
    (same : affinities.length = colors.length) :
    ∃ hs' f, (prepared hwloc p type base colors affinities).mSplit = .ok hs' ∧
      Divided (prepared hwloc p type base colors affinities) hs' f ∧
      (RequestedPieces hwloc base.cpuset p colors hs'.hwpools ↔
        CutsAgree hwloc base.cpuset p colors) := by
  obtain ⟨hs', f, run, divided, given⟩ := mSplit_asked host asked same
  exact ⟨hs', f, run, divided, (requestedPieces_iff given).trans (samePieces_iff apart asked)⟩

end Hwsplit

/-! ## Collective splits and splits over threads -/

/-- **When a split yields the requested pieces**, of a group and over threads: everybody
who splits has a binding, and the cut made agrees with the cut asked for. -/
theorem split_requested_iff (hwloc : Hwloc) (apart : hwloc.PusDisjoint) :
    (∀ (root : SplitArgs) (others : List SplitArgs) (base : Hwpool) (colors : List Int),
      base = .setUnion ((root :: others).map fun a => a.hwpool) →
      colors = (root :: others).map (fun a => a.color) → objResClass root.objType ≠ .dev →
      PieceRequests hwloc base.cpuset root.npieces colors →
      ((∃ results, collSplit hwloc (root :: others) = .ok results ∧
          RequestedPieces hwloc base.cpuset root.npieces colors (results.map Prod.snd)) ↔
        (∀ member ∈ root :: others, member.task.stack ≠ []) ∧
          CutsAgree hwloc base.cpuset root.npieces colors)) ∧
    (∀ (parent : Hwpool) (p : Nat) (task : Task) (kcolors : List Int),
      PieceRequests hwloc parent.cpuset p kcolors →
      ((∃ khwpools, threadSplit hwloc parent (.split p) task kcolors = .ok khwpools ∧
          RequestedPieces hwloc parent.cpuset p kcolors khwpools) ↔
        task.stack ≠ [] ∧ CutsAgree hwloc parent.cpuset p kcolors)) := by
  constructor
  · rintro root others base colors rfl rfl host asked
    by_cases bound : ∀ member ∈ root :: others, member.Bound
    swap
    · refine iff_of_false ?_ fun both => bound both.1
      rintro ⟨results, run, -⟩
      exact bound (collSplit_bound.1 run)
    obtain ⟨hs, f, run, divided, requested⟩ := Hwsplit.mSplit_requested_iff apart _ _ _ _
      ((root :: others).map fun a => a.affinity) host asked (by simp)
    have ran : collSplit hwloc (root :: others) = .ok (hs.colors.zip hs.hwpools) :=
      collSplit_of_divided bound run divided
    have pools : (hs.colors.zip hs.hwpools).map Prod.snd = hs.hwpools :=
      List.map_snd_zip (by simp [divided.colors, divided.length])
    rw [← requested, ran]
    constructor
    · rintro ⟨results, ran', same⟩
      cases ran'
      exact ⟨bound, by rwa [pools] at same⟩
    · rintro ⟨-, same⟩
      exact ⟨_, rfl, by rwa [pools]⟩
  · intro parent p task kcolors asked
    by_cases bound : task.stack = []
    · refine iff_of_false ?_ fun both => both.1 bound
      rintro ⟨khwpools, run, -⟩
      obtain ⟨-, affinity, -, top, -⟩ := threadSplit_ok run
      rw [bound] at top
      cases top
    obtain ⟨_ | ⟨affinity, below⟩⟩ := task
    · exact absurd rfl bound
    obtain ⟨hs, f, run, -, requested⟩ := Hwsplit.mSplit_requested_iff apart p .last parent kcolors
      (List.replicate kcolors.length affinity) (by decide) asked (by simp)
    have ran : threadSplit hwloc parent (.split p) ⟨affinity :: below⟩ kcolors = .ok hs.hwpools := by
      have made : Hwsplit.construct ⟨affinity :: below⟩ = .ok affinity := rfl
      simp only [threadSplit, SplitRequest.threadNpieces, SplitRequest.objType, made, Task.bindTop,
        bind, Except.bind, run]
      rfl
    rw [← requested, ran]
    constructor
    · rintro ⟨khwpools, ran', same⟩
      cases ran'
      exact ⟨bound, same⟩
    · rintro ⟨-, same⟩
      exact ⟨_, rfl, same⟩

/-- Two members, or threads, that ask for one half each. -/
theorem split_requested_twoHalves :
    (∃ results, collSplit (.onePackage 2 [])
        [⟨0, ⟨[{0, 1}]⟩, 1, .ofCpuset {0, 1}, 2, .last⟩, ⟨1, ⟨[{0, 1}]⟩, 0, .ofCpuset {0, 1}, 2, .last⟩] =
          .ok results ∧
      RequestedPieces (.onePackage 2 []) {0, 1} 2 [1, 0] (results.map Prod.snd)) ∧
    ∃ khwpools, threadSplit (.onePackage 2 []) (.ofCpuset {0, 1}) (.split 2) ⟨[{0, 1}]⟩ [1, 0] =
        .ok khwpools ∧ RequestedPieces (.onePackage 2 []) {0, 1} 2 [1, 0] khwpools := by
  have iffs := split_requested_iff (.onePackage 2 []) (Hwloc.onePackage_pusDisjoint 2 [])
  have asked : PieceRequests (.onePackage 2 []) {0, 1} 2 [1, 0] :=
    ⟨by decide, by decide, by decide⟩
  have union : (Hwpool.setUnion [.ofCpuset {0, 1}, .ofCpuset {0, 1}]).cpuset = {0, 1} := by
    decide
  refine ⟨?_, (iffs.2 (.ofCpuset {0, 1}) 2 ⟨[{0, 1}]⟩ [1, 0] asked).2
    ⟨by decide, Or.inl (by decide)⟩⟩
  have both := iffs.1 ⟨0, ⟨[{0, 1}]⟩, 1, .ofCpuset {0, 1}, 2, .last⟩
    [⟨1, ⟨[{0, 1}]⟩, 0, .ofCpuset {0, 1}, 2, .last⟩] _ _ rfl rfl (by decide)
  simp only [List.map_cons, List.map_nil, union] at both
  exact (both asked).2 ⟨by decide, Or.inl (by decide)⟩

/-- A single process asks for the right half of two PUs and gets both. -/
theorem collSplit_rightHalf_getsBoth :
    PieceRequests (.onePackage 2 []) {0, 1} 2 [1] ∧
    ∃ results, collSplit (.onePackage 2 []) [⟨0, ⟨[{0, 1}]⟩, 1, .ofCpuset {0, 1}, 2, .last⟩] = .ok results ∧
      results.map (fun r => r.2.cpuset) = [{0, 1}] ∧
      ¬ RequestedPieces (.onePackage 2 []) {0, 1} 2 [1] (results.map Prod.snd) := by
  have run : ((collSplit (.onePackage 2 []) [⟨0, ⟨[{0, 1}]⟩, 1, .ofCpuset {0, 1}, 2, .last⟩]).map
      fun results => results.map fun r => r.2.cpuset) = .ok [{0, 1}] := by decide +kernel
  obtain ⟨results, ran, shape⟩ := map_ok run
  refine ⟨⟨by decide, by decide, by decide⟩, results, ran, shape, fun requested => ?_⟩
  obtain ⟨pool, found, piece⟩ := requested 0 1 rfl
  have right : (Hwloc.pieces (.onePackage 2 []) {0, 1} 2)[(1 : Int).toNat]? = some {1} := by decide
  have whole : ({0, 1} : Bitmap) = pool.cpuset := by
    have first := congrArg (fun l : List Bitmap => l[0]?) shape
    rw [List.getElem?_map, Option.map_eq_some_iff] at found
    obtain ⟨r, at_, rfl⟩ := found
    rw [List.getElem?_map, at_] at first
    exact (Option.some.inj first).symm
  rw [right, ← whole] at piece
  exact absurd piece (by decide)

end QuoVadis.Kernel
