/-
# Kernel.MpiSplit -- the collective split, as MPI carries it out

`Kernel.Coll` runs a split over operations that move values.  Between processes these
are not single operations: `qvi_coll` packs the values into buffers, `gather_bbuffs`
and `scatter_bbuffs` move first the sizes and then the bytes, and what arrives is cut
apart and unpacked.  Here the members of a split run all of this over the operations of
MPI, which may be as little synchronized as their data flow allows.

* `mpiLowering`: these programs carry out the operations on values, as long as the
  buffers of an operation are shorter than `2 ^ 31` bytes together;
* `mpiSplit_computes`: so in every run over MPI every member ends, after the same MPI
  operations as the others, with its colour and pool of the split as a function, or all
  of them with the root's return code.  These are the two ways in which members stay
  together: where a member's bind stack is empty, or the root throws or stops in its
  computation, the others wait for it (`Kernel.Coll`).
-/
import QuoVadis.Theory.Lowering
import QuoVadis.Kernel.Payloads

namespace QuoVadis.Kernel

open QuoVadis.Theory
open QuoVadis.Theory.Collective

set_option autoImplicit false

/-! ## The operations of MPI -/

/-- The operations of a communicator that the collectives are made of. -/
inductive MpiOp where
  | gather
  | gatherv
  | scatter
  | scatterv
  | barrier
  deriving DecidableEq

/-- What `MPI_Scatterv` takes from the root. -/
structure ScattervArgs where
  txbytes : List UInt8
  txcounts : List Int32
  displs : List Int32

/-- The bytes for a member. -/
def ScattervArgs.piece (args : ScattervArgs) (rank : Nat) : Option (List UInt8) := do
  let displ ← args.displs[rank]?
  let count ← args.txcounts[rank]?
  return (args.txbytes.drop displ.toNatClampNeg).take count.toNatClampNeg

/-- What a member hands in: a size, bytes, or (the root) sizes or bytes for everybody. -/
abbrev MpiOp.Send : MpiOp → Type
  | .gather => Int32
  | .gatherv => List UInt8
  | .scatter => List Int32
  | .scatterv => ScattervArgs
  | .barrier => Unit

/-- What a member gets: everybody's (the root), or its own. -/
abbrev MpiOp.Recv : MpiOp → Type
  | .gather => List Int32
  | .gatherv => List (List UInt8)
  | .scatter => Option Int32
  | .scatterv => Option (List UInt8)
  | .barrier => Unit

/-- Who waits for whom: at least what the data flow asks for. -/
structure MpiSync (k : Nat) where
  needs : MpiOp → Fin (k + 1) → Fin (k + 1) → Bool
  gather : ∀ j, needs .gather rootRank j = true
  gatherv : ∀ j, needs .gatherv rootRank j = true
  scatter : ∀ i, needs .scatter i rootRank = true
  scatterv : ∀ i, needs .scatterv i rootRank = true
  barrier : ∀ i j, needs .barrier i j = true

/-- Nobody waits for anybody without need. -/
def MpiSync.least (k : Nat) : MpiSync k where
  needs
    | .gather, i, _ | .gatherv, i, _ => i = rootRank
    | .scatter, _, j | .scatterv, _, j => j = rootRank
    | .barrier, _, _ => true
  gather := fun _ => decide_eq_true rfl
  gatherv := fun _ => decide_eq_true rfl
  scatter := fun _ => decide_eq_true rfl
  scatterv := fun _ => decide_eq_true rfl
  barrier := fun _ _ => rfl

/-- The communicator's operations. -/
abbrev mpi {k : Nat} (sync : MpiSync k) : Interface (Fin (k + 1)) where
  Op := MpiOp
  Send := MpiOp.Send
  Recv := MpiOp.Recv
  deliver
    | .gather, rank, values => if rank = rootRank then (List.finRange (k + 1)).filterMap values else []
    | .gatherv, rank, values => if rank = rootRank then (List.finRange (k + 1)).filterMap values else []
    | .scatter, rank, values => (values rootRank).bind fun send => send[rank.val]?
    | .scatterv, rank, values => (values rootRank).bind fun send => send.piece rank
    | .barrier, _, _ => ()
  needs := sync.needs

/-- A program over MPI that may leave with a fault. -/
abbrev MpiProg {k : Nat} (sync : MpiSync k) (α : Type) : Type := ExceptT Fault (Prog (mpi sync)) α

section Operations

variable {k : Nat} {sync : MpiSync k}

/-- A step without communication; a trap stops the member. -/
def local_ {α : Type} : Qv α → MpiProg sync α
  | .error .trap => (Prog.halt : Prog (mpi sync) (Qv α))
  | r => (Prog.done r : Prog (mpi sync) (Qv α))

theorem local_ok {α β : Type} (a : α) (f : α → MpiProg sync β) : (local_ (.ok a) >>= f) = f a := rfl

/-- One operation. -/
def performMpi (op : MpiOp) (send : op.Send) : MpiProg sync op.Recv :=
  ExceptT.lift (Prog.perform (mpi sync) op send)

variable (sync) in
/-- `gather_bbuffs` after the sizes. -/
def mpiGatherBytes (rank : Fin (k + 1)) (txbuff : List UInt8) (rxcounts : List Int32) :
    MpiProg sync (List (List UInt8)) := do
  let allbytes ← local_ (if rank = rootRank then resize (displacements 0 rxcounts).2 else .ok [])
  -- MPI refuses a negative count
  local_ (if intSize txbuff < 0 ∨ rxcounts.any (· < 0) then .error (.ret .errMpi) else .ok ())
  let pieces ← performMpi .gatherv txbuff
  return if rank = rootRank then cut (mpiGatherv (displacements 0 rxcounts).1 pieces allbytes) rxcounts else []

variable (sync) in
/-- `gather_bbuffs`, as member `rank` runs it. -/
def mpiGatherBbuffs (rank : Fin (k + 1)) (txbuff : List UInt8) : MpiProg sync (List (List UInt8)) := do
  let rxcounts ← performMpi .gather (intSize txbuff)
  mpiGatherBytes sync rank txbuff rxcounts

/-- What the root of `scatter_bbuffs` sets up. -/
def flatBuffer (txbuffs : List (List UInt8)) : Qv ScattervArgs := do
  let txcounts := txbuffs.map intSize
  let txbytes ← resize (displacements 0 txcounts).2
  -- a negative count is a `memmove` over all of memory
  if txcounts.any (· < 0) then .error .trap
  else return ⟨flattenInto txbytes 0 txbuffs, txcounts, (displacements 0 txcounts).1⟩

variable (sync) in
/-- `scatter_bbuffs` after the sizes. -/
def mpiScatterBytes (args : ScattervArgs) (rxcount : Option Int32) : MpiProg sync (List UInt8) := do
  let rxcount ← local_ (rxcount.elim (.error .trap) .ok)
  let mybytes ← local_ (resize rxcount)
  let piece ← performMpi .scatterv args
  local_ (piece.elim (.error .trap) fun piece => .ok (writeAt mybytes 0 piece))

variable (sync) in
/-- `scatter_bbuffs`, as member `rank` runs it; `txbuffs` counts on the root. -/
def mpiScatterBbuffs (rank : Fin (k + 1)) (txbuffs : List (List UInt8)) : MpiProg sync (List UInt8) := do
  let args ← local_ (if rank = rootRank then flatBuffer txbuffs else .ok ⟨[], [], []⟩)
  let rxcount ← performMpi .scatter args.txcounts
  mpiScatterBytes sync args rxcount

/-! ## Values over MPI -/

variable (sync) (limit : StringLimit) (beyond : Nat → Nat → UInt8)

/-- `qvi_coll::gather`. -/
def mpiCollGather (type : Payload) (rank : Fin (k + 1)) (send : type.Val) : MpiProg sync (List type.Val) := do
  let bbuffs ← mpiGatherBbuffs sync rank (type.txbuff send)
  local_ (if rank = rootRank then do
      let rxbuffs ← QviColl.elements bbuffs (k + 1)
      rxbuffs.zipIdx.mapM fun rx => type.unpackValue limit ⟨rx.1, beyond rx.2⟩
    else .ok [])

/-- `qvi_coll::scatter`. -/
def mpiCollScatter (type : Payload) (rank : Fin (k + 1)) (send : List type.Val) : MpiProg sync type.Val := do
  let txbuffs ← local_ (if rank = rootRank then (QviColl.elements send (k + 1)).map fun send =>
    send.map type.txbuff else .ok [])
  let rxbuff ← mpiScatterBbuffs sync rank txbuffs
  local_ (type.unpackValue limit ⟨rxbuff, beyond rank⟩)

/-- `qvi_coll::bcast`. -/
def mpiCollBcast (type : Payload) (rank : Fin (k + 1)) (value : type.Val) : MpiProg sync type.Val :=
  mpiCollScatter sync limit beyond type rank (if rank = rootRank then List.replicate (k + 1) value else [])

/-- `qvi_mpi_group::barrier`. -/
def mpiBarrier : MpiProg sync Unit := performMpi .barrier ()

/-! ## The split -/

/-- `m_scatter_split_results`. -/
def mpiScatterSplitResults (rank : Fin (k + 1)) (hwsplit : Hwsplit) : MpiProg sync (Int × Hwpool) := do
  let colorp ← mpiCollScatter sync limit beyond .color rank hwsplit.colors
  let result ← mpiCollScatter sync limit beyond .hwpool rank hwsplit.hwpools
  return (colorp, result)

/-- `split` from the barrier on. -/
def mpiShareResults (rank : Fin (k + 1)) (hwsplit : Hwsplit) (rc2 : Rc) : MpiProg sync (Int × Hwpool) := do
  mpiBarrier sync
  let rc2 ← mpiCollBcast sync limit beyond .rc rank rc2
  if rc2 ≠ .success then
    throw (.ret rc2)
  mpiScatterSplitResults sync limit beyond rank hwsplit

/-- `qvi_hwsplit::split`, as member `rank` runs it.  The exception of the constructor
leaves the function before anything is sent. -/
def mpiSplit (hwloc : Hwloc) (rank : Fin (k + 1)) (args : SplitArgs) : MpiProg sync (Int × Hwpool) := do
  let affinity ← local_ (Hwsplit.construct args.task)
  let _ ← mpiCollGather sync limit beyond .tid rank args.tid
  let taskAffinities ← mpiCollGather sync limit beyond .affinity rank affinity
  let colors ← mpiCollGather sync limit beyond .color rank args.color
  let hwpools ← mpiCollGather sync limit beyond .hwpool rank args.hwpool
  let hwsplit := gathered hwloc rank args taskAffinities colors hwpools
  if rank = rootRank then
    match hwsplit.mSplit with
    | .ok hwsplit => mpiShareResults sync limit beyond rank hwsplit .success
    | .error (.ret rc2) => mpiShareResults sync limit beyond rank hwsplit rc2
    | .error fault => local_ (.error fault)
  else mpiShareResults sync limit beyond rank hwsplit .success

/-! ## Every buffer arrives -/

variable {sync}

/-- The members go through these operations together and end with these values. -/
def Ends {α : Type} (progs : Fin (k + 1) → MpiProg sync α) (ops : List MpiOp) (value : Fin (k + 1) → α) :
    Prop :=
  Through (progs : Fin (k + 1) → Prog (mpi sync) (Qv α)) ops fun i => .done (.ok (value i))

/-- What comes after members that have all succeeded. -/
theorem Ends.then {α β : Type} {progs : Fin (k + 1) → MpiProg sync α} {ops : List MpiOp}
    {a : Fin (k + 1) → α} {f : Fin (k + 1) → α → MpiProg sync β} {b : Fin (k + 1) → β}
    (first : Ends progs ops a) (rest : ∀ i, f i (a i) = (pure (b i) : MpiProg sync β)) :
    Ends (fun i => progs i >>= f i) ops b := by
  have run := Through.bind (fun i => ExceptT.bindCont (f i)) first
  have last : (fun i => (Prog.done (.ok (a i)) : Prog (mpi sync) (Qv α)).bind (ExceptT.bindCont (f i))) =
      fun i => Prog.done (.ok (b i)) := funext rest
  rw [last] at run
  exact run

theorem receive_mpiGather (send : Fin (k + 1) → Int32) (i : Fin (k + 1)) :
    receive (mpi sync) MpiOp.gather send i = if i = 0 then List.ofFn send else [] := by
  by_cases root : i = 0
  · subst root
    simp only [receive, mpi, sync.gather, if_true]
    rw [List.filterMap_eq_map', List.ofFn_eq_map]
  · simp only [receive, mpi, if_neg root]

theorem receive_mpiGatherv (send : Fin (k + 1) → List UInt8) (i : Fin (k + 1)) :
    receive (mpi sync) MpiOp.gatherv send i = if i = 0 then List.ofFn send else [] := by
  by_cases root : i = 0
  · subst root
    simp only [receive, mpi, sync.gatherv, if_true]
    rw [List.filterMap_eq_map', List.ofFn_eq_map]
  · simp only [receive, mpi, if_neg root]

theorem receive_mpiScatter (send : Fin (k + 1) → List Int32) (i : Fin (k + 1)) :
    receive (mpi sync) MpiOp.scatter send i = (send 0)[i.val]? := by
  simp only [receive, mpi, sync.scatter, if_true, Option.bind_some]

theorem receive_mpiScatterv (send : Fin (k + 1) → ScattervArgs) (i : Fin (k + 1)) :
    receive (mpi sync) MpiOp.scatterv send i = (send 0).piece i := by
  simp only [receive, mpi, sync.scatterv, if_true, Option.bind_some]

theorem displacements_zero (txbuffs : List (List UInt8)) :
    (displacements 0 (txbuffs.map intSize)).2 = Int32.ofNat (totalSize txbuffs) := by
  have total := displacements_total txbuffs 0
  rwa [Nat.zero_add] at total

theorem mpiGatherv_flatten {txbuffs : List (List UInt8)} (small : totalSize txbuffs < 2 ^ 31) :
    mpiGatherv (displacements 0 (txbuffs.map intSize)).1 txbuffs (List.replicate (totalSize txbuffs) 0) =
      txbuffs.flatten :=
  mpiGatherv_eq txbuffs [] (by simpa using small)

theorem mpiGatherBbuffs_ends {txbuffs : Fin (k + 1) → List UInt8}
    (small : totalSize (List.ofFn txbuffs) < 2 ^ 31) :
    Ends (fun i => mpiGatherBbuffs sync i (txbuffs i)) [.gather, .gatherv]
      fun i => if i = 0 then List.ofFn txbuffs else [] := by
  let bytes : Fin (k + 1) → List (List UInt8) → Prog (mpi sync) (Qv (List (List UInt8))) := fun i pieces =>
    .done (.ok (if i = 0 then cut (mpiGatherv (displacements 0 ((List.ofFn txbuffs).map intSize)).1 pieces
      (List.replicate (totalSize (List.ofFn txbuffs)) 0)) ((List.ofFn txbuffs).map intSize) else []))
  have sizes : ∀ i, receive (mpi sync) MpiOp.gather (fun i => intSize (txbuffs i)) i =
      if i = 0 then (List.ofFn txbuffs).map intSize else [] := by
    intro i
    rw [receive_mpiGather, List.map_ofFn]
    rfl
  have sends : ∀ i, ¬ intSize (txbuffs i) < 0 := fun i =>
    intSize_nonneg small _ (List.mem_map_of_mem (List.mem_ofFn.2 ⟨i, rfl⟩))
  have now : ∀ i, (mpiGatherBytes sync i (txbuffs i)
      (receive (mpi sync) MpiOp.gather (fun i => intSize (txbuffs i)) i) : Prog (mpi sync) (Qv _)) =
        .call MpiOp.gatherv (txbuffs i) (bytes i) := by
    intro i
    rw [sizes]
    by_cases root : i = 0
    · simp only [mpiGatherBytes, bytes, if_pos root, displacements_zero, resize_ofNat small, sends,
        counts_nonneg small, Bool.false_eq_true, or_self, if_false]
      rfl
    · simp only [mpiGatherBytes, bytes, if_neg root, sends, List.any_nil, Bool.false_eq_true, or_self,
        if_false]
      rfl
  refine .call (fun i => rfl) (.call now ?_)
  have arrived : ∀ i, bytes i (receive (mpi sync) MpiOp.gatherv txbuffs i) =
      .done (.ok (if i = 0 then List.ofFn txbuffs else [])) := by
    intro i
    simp only [bytes, receive_mpiGatherv]
    by_cases root : i = 0
    · simp only [if_pos root, mpiGatherv_flatten small, cut_flatten small]
    · simp only [if_neg root]
  rw [funext arrived]
  exact .nil _

/-- The flat buffer of the root. -/
def ScattervArgs.flat (txbuffs : List (List UInt8)) : ScattervArgs :=
  ⟨txbuffs.flatten, txbuffs.map intSize, (displacements 0 (txbuffs.map intSize)).1⟩

theorem flatBuffer_eq {txbuffs : List (List UInt8)} (small : totalSize txbuffs < 2 ^ 31) :
    flatBuffer txbuffs = .ok (.flat txbuffs) := by
  have placed : flattenInto (List.replicate (totalSize txbuffs) 0) 0 txbuffs = txbuffs.flatten :=
    flattenInto_eq txbuffs []
  simp only [flatBuffer, displacements_zero, resize_ofNat small, counts_nonneg small, bind, Except.bind,
    placed, Bool.false_eq_true, if_false]
  rfl

theorem piece_flat {txbuffs : List (List UInt8)} (small : totalSize txbuffs < 2 ^ 31) {rank : Nat}
    {bytes : List UInt8} (found : txbuffs[rank]? = some bytes) :
    (ScattervArgs.flat txbuffs).piece rank = some bytes := by
  have inside : rank < txbuffs.length := (List.getElem?_eq_some_iff.1 found).1
  have bound := totalSize_take_le found
  have count : (txbuffs.map intSize)[rank]? = some (Int32.ofNat bytes.length) := by
    rw [List.getElem?_map, found]
    rfl
  have displ := displacements_getElem? txbuffs 0 rank
  rw [if_pos inside, Nat.zero_add] at displ
  change (displacements 0 (txbuffs.map intSize)).1[rank]? = _ at displ
  simp only [ScattervArgs.piece, ScattervArgs.flat, displ, count, Option.bind_eq_bind, Option.bind_some,
    Option.pure_def, Int32.toNatClampNeg_ofNat_of_lt (by omega : bytes.length < 2 ^ 31),
    Int32.toNatClampNeg_ofNat_of_lt (by omega : totalSize (txbuffs.take rank) < 2 ^ 31),
    take_drop_flatten found]

theorem mpiScatterBbuffs_ends {send : Fin (k + 1) → List (List UInt8)} {bytes : Fin (k + 1) → List UInt8}
    (small : totalSize (send 0) < 2 ^ 31) (sent : ∀ i : Fin (k + 1), (send 0)[i.val]? = some (bytes i)) :
    Ends (fun i => mpiScatterBbuffs sync i (send i)) [.scatter, .scatterv] bytes := by
  let args : Fin (k + 1) → ScattervArgs := fun i => if i = 0 then .flat (send 0) else ⟨[], [], []⟩
  have sizes : ∀ i, (mpiScatterBbuffs sync i (send i) : Prog (mpi sync) (Qv _)) =
      .call MpiOp.scatter (args i).txcounts (mpiScatterBytes sync (args i)) := by
    intro i
    by_cases root : i = 0
    · subst root
      simp only [mpiScatterBbuffs, args, if_true, flatBuffer_eq small]
      rfl
    · simp only [mpiScatterBbuffs, args, if_neg root]
      rfl
  have count : ∀ i, receive (mpi sync) MpiOp.scatter (fun i => (args i).txcounts) i =
      some (Int32.ofNat (bytes i).length) := by
    intro i
    rw [receive_mpiScatter]
    show ((send 0).map intSize)[i.val]? = _
    rw [List.getElem?_map, sent]
    rfl
  have fits : ∀ i, (bytes i).length < 2 ^ 31 := by
    intro i
    have := totalSize_take_le (sent i)
    omega
  let mine : Fin (k + 1) → Option (List UInt8) → Prog (mpi sync) (Qv (List UInt8)) := fun i piece =>
    local_ (piece.elim (.error .trap) fun piece => .ok (writeAt (List.replicate (bytes i).length 0) 0 piece))
  have now : ∀ i, (mpiScatterBytes sync (args i)
      (receive (mpi sync) MpiOp.scatter (fun i => (args i).txcounts) i) : Prog (mpi sync) (Qv _)) =
        .call MpiOp.scatterv (args i) (mine i) := by
    intro i
    rw [count]
    simp only [mpiScatterBytes, Option.elim_some, local_ok, resize_ofNat (fits i)]
    rfl
  refine .call sizes (.call now ?_)
  have arrived : ∀ i, mine i (receive (mpi sync) MpiOp.scatterv args i) = .done (.ok (bytes i)) := by
    intro i
    have piece : receive (mpi sync) MpiOp.scatterv args i = some (bytes i) := by
      rw [receive_mpiScatterv]
      exact piece_flat small (sent i)
    have whole : writeAt (List.replicate (bytes i).length 0) 0 (bytes i) = bytes i := by simp [writeAt]
    simp only [mine, piece, Option.elim_some, whole]
    rfl
  rw [funext arrived]
  exact .nil _

/-! ## Every value arrives -/

variable {limit beyond}

theorem mpiCollGather_ends (type : Payload) {send : Fin (k + 1) → type.Val}
    (fits : type.Sendable (List.ofFn send)) :
    Ends (fun i => mpiCollGather sync limit beyond type i (send i)) [.gather, .gatherv]
      fun i => if i = 0 then List.ofFn send else [] := by
  have packed : List.ofFn (fun i => type.txbuff (send i)) = (List.ofFn send).map type.txbuff := by
    rw [List.map_ofFn]
    rfl
  refine (mpiGatherBbuffs_ends (by rw [packed]; exact fits.small)).then fun i => ?_
  by_cases root : i = 0
  · have elems := QviColl.elements_eq ((List.ofFn send).map type.txbuff)
    rw [List.length_map, List.length_ofFn] at elems
    simp only [if_pos root, packed]
    rw [elems]
    show local_ (((List.ofFn send).map type.txbuff).zipIdx.mapM _) = _
    rw [type.mapM_unpackValue fits.room fits.small 0]
    rfl
  · simp only [if_neg root]
    rfl

/-- A scatter of values that the root has packed. -/
def mpiScatterSent (sync : MpiSync k) (limit : StringLimit) (beyond : Nat → Nat → UInt8) (type : Payload)
    (rank : Fin (k + 1)) (send : List type.Val) : MpiProg sync type.Val := do
  let rxbuff ← mpiScatterBbuffs sync rank (send.map type.txbuff)
  local_ (type.unpackValue limit ⟨rxbuff, beyond rank⟩)

theorem mpiScatterSent_ends (type : Payload) {send : Fin (k + 1) → List type.Val}
    {value : Fin (k + 1) → type.Val} (fits : type.Sendable (send 0))
    (sent : ∀ i : Fin (k + 1), (send 0)[i.val]? = some (value i)) :
    Ends (fun i => mpiScatterSent sync limit beyond type i (send i)) [.scatter, .scatterv] value := by
  have packed : ∀ i : Fin (k + 1), ((send 0).map type.txbuff)[i.val]? = some (type.txbuff (value i)) := by
    intro i
    rw [List.getElem?_map, sent]
    rfl
  refine (@mpiScatterBbuffs_ends k sync (fun i => (send i).map type.txbuff) _ fits.small packed).then fun i => ?_
  have bound := totalSize_take_le (packed i)
  have small := fits.small
  have room : type.HasRoom (value i) := fits.room _ (List.mem_of_getElem? (sent i))
  rw [type.unpackValue_txbuff room _ (by omega)]
  rfl

/-! ## The operations on values, over MPI -/

variable (csync : Sync k)

theorem receive_gather_member (type : Payload) (send : Fin (k + 1) → type.Val) (i : Fin (k + 1)) :
    receive (coll csync) (CollOp.gather type) send i = if i = 0 then List.ofFn send else [] := by
  by_cases root : i = 0
  · subst root
    rw [receive_gather, if_pos rfl]
  · simp only [receive, coll, if_neg root]

variable (sync limit beyond) in
/-- **Gathers, scatters and the barrier over MPI.** -/
def mpiLowering : Lowering (coll csync) (mpi sync) Fault where
  ops
    | .gather _ => [MpiOp.gather, MpiOp.gatherv]
    | .barrier => [MpiOp.barrier]
    | .scatter _ => [MpiOp.scatter, MpiOp.scatterv]
  run i
    | .gather type, send => mpiCollGather sync limit beyond type i send
    | .barrier, _ => mpiBarrier sync
    | .scatter type, send =>
        (mpiScatterSent sync limit beyond type i send >>= fun recv => pure (some recv) :
          MpiProg sync (Option type.Val))
  Fits
    | .gather type, send => type.Sendable (List.ofFn send)
    | .barrier, _ => True
    | .scatter type, send => (send rootRank).length = k + 1 ∧ type.Sendable (send rootRank)
  correct := by
    rintro (type | - | type) send fits
    · have ends := @mpiCollGather_ends k sync limit beyond type send fits
      simp only [receive_gather_member]
      exact ends
    · exact .call (fun i => rfl) (.nil _)
    · have size : (send 0).length = k + 1 := fits.1
      have sendable : type.Sendable (send 0) := fits.2
      have sent : ∀ i : Fin (k + 1), (send 0)[i.val]? = some (send 0)[i.val] :=
        fun i => List.getElem?_eq_getElem _
      have ends := @mpiScatterSent_ends k sync limit beyond type send (fun i => (send 0)[i.val])
        sendable sent
      simp only [receive_scatter, sent]
      exact ends.then fun i => rfl

/-! ## The programs of a split -/

/-- A program on values, and the same over MPI. -/
abbrev Carried {α : Type} (csync : Sync k) (sync : MpiSync k) (limit : StringLimit)
    (beyond : Nat → Nat → UInt8) (rank : Fin (k + 1)) (p : Prog (coll csync) α) (q : MpiProg sync α) : Prop :=
  (mpiLowering sync limit beyond csync).Lowers (fun a b => b = .ok a) rank p q

variable {csync}

theorem Carried.bind {α β : Type} {rank : Fin (k + 1)} {p : Prog (coll csync) α} {q : MpiProg sync α}
    {f : α → Prog (coll csync) β} {g : α → MpiProg sync β} (first : Carried csync sync limit beyond rank p q)
    (second : ∀ a, Carried csync sync limit beyond rank (f a) (g a)) :
    Carried csync sync limit beyond rank (p.bind f) (q >>= g) :=
  Lowering.Lowers.bind first fun a b same => by
    subst same
    exact second a

theorem carried_pure {α : Type} {rank : Fin (k + 1)} (a : α) :
    Carried csync sync limit beyond rank (.done a) (pure a) :=
  .done rfl

theorem carried_gather (type : Payload) (rank : Fin (k + 1)) (send : type.Val) :
    Carried csync sync limit beyond rank (qviCollGather csync type send)
      (mpiCollGather sync limit beyond type rank send) :=
  @Lowering.Lowers.perform _ _ _ _ (mpiLowering sync limit beyond csync) rank (CollOp.gather type) send

theorem carried_barrier (rank : Fin (k + 1)) :
    Carried csync sync limit beyond rank (qviBarrier csync) (mpiBarrier sync) :=
  @Lowering.Lowers.perform _ _ _ _ (mpiLowering sync limit beyond csync) rank CollOp.barrier ()

/-- The elements of a vector that is long enough, and of one that is not. -/
theorem elements_take {α : Type} (values : List α) (n : Nat) :
    QviColl.elements values n = if n ≤ values.length then .ok (values.take n) else .error .trap := by
  induction n with
  | zero => rfl
  | succ n ih =>
      rw [QviColl.elements] at ih
      rw [QviColl.elements, List.range_succ, List.mapM_append, ih]
      by_cases inside : n < values.length
      · rw [if_pos inside.le, if_pos (Nat.succ_le_of_lt inside), ← List.take_append_getElem inside]
        simp only [List.mapM_cons, List.mapM_nil, List.getElem?_eq_getElem inside]
        rfl
      · rw [if_neg (by omega : ¬ n + 1 ≤ values.length)]
        split
        · simp only [List.mapM_cons, List.getElem?_eq_none (not_lt.1 inside)]
          rfl
        · rfl

theorem carried_scatterSent (type : Payload) (rank : Fin (k + 1)) (send : List type.Val) :
    Carried csync sync limit beyond rank (.call (CollOp.scatter type) send unpack)
      (mpiScatterSent sync limit beyond type rank send) := by
  let cont : Qv (Option type.Val) → Prog (mpi sync) (Qv type.Val)
    | .ok (some recv) => .done (.ok recv)
    | .ok none => .halt
    | .error fault => .done (.error fault)
  have same : mpiScatterSent sync limit beyond type rank send =
      ((mpiLowering sync limit beyond csync).run rank (CollOp.scatter type) send).bind cont := by
    show _ = Prog.bind (Prog.bind (mpiScatterSent sync limit beyond type rank send)
      (ExceptT.bindCont fun recv => pure (some recv))) cont
    rw [Prog.bind_assoc]
    have back : (fun r : Qv type.Val => Prog.bind (ExceptT.bindCont (fun recv => (pure (some recv) :
        MpiProg sync (Option type.Val))) r) cont) = Prog.done := by
      funext r
      cases r <;> rfl
    rw [back, Prog.bind_done]
  rw [same]
  refine .call fun recv => ?_
  cases recv with
  | none => exact .halt
  | some recv => exact .done rfl

theorem carried_scatter (type : Payload) (rank : Fin (k + 1)) (send : List type.Val) :
    Carried csync sync limit beyond rank (qviCollScatter csync type rank send)
      (mpiCollScatter sync limit beyond type rank send) := by
  by_cases root : rank = 0
  · by_cases long : k + 1 ≤ send.length
    · have packed : mpiCollScatter sync limit beyond type rank send =
          mpiScatterSent sync limit beyond type rank (send.take (k + 1)) := by
        simp only [mpiCollScatter, if_pos root, elements_take, if_pos long]
        rfl
      rw [qviCollScatter_eq fun _ => long, if_pos root, packed]
      exact carried_scatterSent type rank _
    · -- both read past the end of the vector
      have stops : mpiCollScatter sync limit beyond type rank send =
          (Prog.halt : Prog (mpi sync) (Qv type.Val)) := by
        simp only [mpiCollScatter, if_pos root, elements_take, if_neg long]
        rfl
      have stops' : qviCollScatter csync type rank send = .halt := by
        simp only [qviCollScatter, if_pos root, if_neg long]
        rfl
      rw [stops, stops']
      exact .halt
  · have packed : mpiCollScatter sync limit beyond type rank send =
        mpiScatterSent sync limit beyond type rank [] := by
      simp only [mpiCollScatter, if_neg root]
      rfl
    rw [qviCollScatter_eq fun here => absurd here root, if_neg root, packed]
    exact carried_scatterSent type rank _

theorem carried_bcast (type : Payload) (rank : Fin (k + 1)) (value : type.Val) :
    Carried csync sync limit beyond rank (qviCollBcast csync type rank value)
      (mpiCollBcast sync limit beyond type rank value) :=
  carried_scatter type rank _

theorem carried_scatterSplitResults (rank : Fin (k + 1)) (hwsplit : Hwsplit) :
    Carried csync sync limit beyond rank (mScatterSplitResults csync rank hwsplit)
      (mpiScatterSplitResults sync limit beyond rank hwsplit) :=
  (carried_scatter .color rank hwsplit.colors).bind fun _ =>
    (carried_scatter .hwpool rank hwsplit.hwpools).bind fun _ => carried_pure _

/-- A program on values that says how it ended, and the same over MPI. -/
abbrev Replaced {α : Type} (csync : Sync k) (sync : MpiSync k) (limit : StringLimit)
    (beyond : Nat → Nat → UInt8) (rank : Fin (k + 1)) (p : Prog (coll csync) (Qv α)) (q : MpiProg sync α) :
    Prop :=
  (mpiLowering sync limit beyond csync).Lowers (fun a b => b = a) rank p q

theorem Carried.replaced {α β : Type} {rank : Fin (k + 1)} {p : Prog (coll csync) α} {q : MpiProg sync α}
    {f : α → Prog (coll csync) (Qv β)} {g : α → MpiProg sync β}
    (first : Carried csync sync limit beyond rank p q)
    (second : ∀ a, Replaced csync sync limit beyond rank (f a) (g a)) :
    Replaced csync sync limit beyond rank (p.bind f) (q >>= g) :=
  Lowering.Lowers.bind first fun a b same => by
    subst same
    exact second a

theorem bind_pure {α : Type} (q : MpiProg sync α) : (q >>= pure) = q := by
  have back : (ExceptT.bindCont (pure : α → MpiProg sync α)) = Prog.done := by
    funext r
    cases r <;> rfl
  show Prog.bind q (ExceptT.bindCont pure) = q
  rw [back, Prog.bind_done]

theorem replaced_shareResults (rank : Fin (k + 1)) (hwsplit : Hwsplit) (rc : Rc) :
    Replaced csync sync limit beyond rank (shareResults csync rank hwsplit rc)
      (mpiShareResults sync limit beyond rank hwsplit rc) := by
  refine (carried_barrier rank).replaced fun _ => (carried_bcast .rc rank rc).replaced fun rc2 => ?_
  by_cases fine : rc2 = .success
  · subst fine
    show Replaced csync sync limit beyond rank ((mScatterSplitResults csync rank hwsplit).bind fun results =>
      .done (.ok results)) (mpiScatterSplitResults sync limit beyond rank hwsplit)
    rw [← bind_pure (mpiScatterSplitResults sync limit beyond rank hwsplit)]
    exact (carried_scatterSplitResults rank hwsplit).replaced fun _ => .done rfl
  · simp only [ne_eq, fine, not_false_eq_true, if_true]
    exact .done rfl

variable {hwloc : Hwloc}

theorem replaced_split (rank : Fin (k + 1)) (args : SplitArgs) :
    Replaced csync sync limit beyond rank (split csync hwloc rank args)
      (mpiSplit sync limit beyond hwloc rank args) := by
  rw [split, mpiSplit]
  by_cases bound : args.Bound
  swap
  · rw [Hwsplit.construct_empty (not_not.1 bound)]
    exact .done rfl
  rw [bound.construct]
  refine (carried_gather .tid rank args.tid).replaced fun _ =>
    (carried_gather .affinity rank args.affinity).replaced fun taskAffinities =>
      (carried_gather .color rank args.color).replaced fun colors =>
        (carried_gather .hwpool rank args.hwpool).replaced fun hwpools => ?_
  by_cases root : rank = 0
  · simp only [if_pos root]
    cases (gathered hwloc rank args taskAffinities colors hwpools).mSplit with
    | ok hwsplit => exact replaced_shareResults rank hwsplit .success
    | error fault =>
        cases fault with
        | ret rc2 => exact replaced_shareResults rank _ rc2
        | thrown rc => exact .done rfl
        | trap => exact .halt
  · simp only [if_neg root]
    exact replaced_shareResults rank _ .success

/-! ## What is sent in a split -/

variable (hwloc) in
/-- All that is sent in a split can be sent. -/
structure SplitFits (args : Fin (k + 1) → SplitArgs) : Prop where
  tids : Payload.tid.Sendable (List.ofFn fun i => (args i).tid)
  affinities : Payload.affinity.Sendable (List.ofFn fun i => (args i).affinity)
  colors : Payload.color.Sendable (List.ofFn fun i => (args i).color)
  hwpools : Payload.hwpool.Sendable (List.ofFn fun i => (args i).hwpool)
  /-- The buffers of the pools that the root scatters. -/
  small : ∀ hs, (rootSplit hwloc args).mSplit = .ok hs →
    totalSize (hs.hwpools.map Payload.hwpool.txbuff) < 2 ^ 31

variable {args : Fin (k + 1) → SplitArgs}

theorem SplitFits.few (fits : SplitFits hwloc args) : 12 * (k + 1) < 2 ^ 31 := by
  have few := Payload.few_of_sendable_color fits.colors
  rwa [List.length_ofFn] at few

/-- The colours that the root scatters. -/
theorem SplitFits.sendable_colors (fits : SplitFits hwloc args) {hs : Hwsplit}
    (run : (rootSplit hwloc args).mSplit = .ok hs) : Payload.color.Sendable hs.colors := by
  have few := fits.few
  have group : (rootSplit hwloc args).groupSize = k + 1 := by simp [rootSplit, Hwsplit.prepared]
  rcases Hwsplit.mSplit_ok_cases (rootSplit_ready args) run with ⟨f, shape⟩ | ⟨shape, -⟩
  · refine Payload.sendable_color (fun c member => ?_) (by simp [shape.colors, group]; omega)
    rw [shape.colors, List.mem_map] at member
    obtain ⟨i, inside, rfl⟩ := member
    have below := shape.below i (List.mem_range.1 inside)
    have pieces : (rootSplit hwloc args).pieces.length ≤ (rootSplit hwloc args).groupSize :=
      Hwsplit.length_pieces_le
    constructor <;> omega
  · rw [shape.colors]
    exact Payload.sendable_color (by simp) (by simp)

/-- The pools that the root scatters. -/
theorem SplitFits.sendable_hwpools (fits : SplitFits hwloc args) {hs : Hwsplit}
    (run : (rootSplit hwloc args).mSplit = .ok hs) : Payload.hwpool.Sendable hs.hwpools := by
  refine ⟨Rmi.poolsFit_mSplit (.setUnion fits.hwpools.room) (fun p member => ?_) run, fits.small hs run⟩
  obtain ⟨-, rfl⟩ := List.mem_replicate.1 member
  exact .ofCpuset ∅

/-- Members that gather values that can be sent. -/
theorem fitting_gather {α : Type} (type : Payload) {send : Fin (k + 1) → type.Val}
    {f : Fin (k + 1) → List type.Val → Prog (coll csync) α} (fits : type.Sendable (List.ofFn send))
    (more : (mpiLowering sync limit beyond csync).Fitting fun i =>
      f i (receive (coll csync) (CollOp.gather type) send i)) :
    (mpiLowering sync limit beyond csync).Fitting fun i => (qviCollGather csync type (send i)).bind (f i) :=
  .call (fun _ => rfl) fits more

theorem fitting_scatter {α : Type} (type : Payload) (send : Fin (k + 1) → List type.Val)
    (value : Fin (k + 1) → type.Val) {f : Fin (k + 1) → type.Val → Prog (coll csync) α}
    (long : (send 0).length = k + 1) (sent : ∀ i : Fin (k + 1), (send 0)[i.val]? = some (value i))
    (fits : type.Sendable (send 0))
    (more : (mpiLowering sync limit beyond csync).Fitting fun i => f i (value i)) :
    (mpiLowering sync limit beyond csync).Fitting fun i => (qviCollScatter csync type i (send i)).bind (f i) := by
  have root : (if (0 : Fin (k + 1)) = 0 then (send 0).take (k + 1) else []) = send 0 := by
    rw [if_pos rfl, List.take_of_length_le long.le]
  refine .call (scatter_call long.ge) ⟨(congrArg List.length root).trans long, ?_⟩ ?_
  · show type.Sendable (if (0 : Fin (k + 1)) = 0 then (send 0).take (k + 1) else [])
    rwa [root]
  · simp only [receive_scatter_take sent]
    exact more

theorem fitting_status (few : 12 * (k + 1) < 2 ^ 31) (hs : Hwsplit) (rc : Rc)
    (more : (mpiLowering sync limit beyond csync).Fitting fun i =>
      if rc ≠ .success then (.done (.error (.ret rc)) : Prog (coll csync) (Qv (Int × Hwpool)))
      else (mScatterSplitResults csync i hs).bind fun results => .done (.ok results)) :
    (mpiLowering sync limit beyond csync).Fitting fun i => shareResults csync i hs rc := by
  refine .call (fun _ => rfl) trivial ?_
  refine fitting_scatter .rc (fun i => if i = 0 then List.replicate (k + 1) rc else []) (fun _ => rc)
    (by simp) (fun i => ?_) ?_ more
  · rw [if_pos rfl]
    exact List.getElem?_replicate_of_lt i.isLt
  · rw [if_pos rfl]
    exact Payload.sendable_rc (by rwa [List.length_replicate])

theorem fitting_results {hs : Hwsplit} (colors : hs.colors.length = k + 1)
    (hwpools : hs.hwpools.length = k + 1) (colorsFit : Payload.color.Sendable hs.colors)
    (hwpoolsFit : Payload.hwpool.Sendable hs.hwpools) :
    (mpiLowering sync limit beyond csync).Fitting fun i =>
      (mScatterSplitResults csync i hs).bind fun results =>
        (.done (.ok results) : Prog (coll csync) (Qv (Int × Hwpool))) := by
  simp only [scatterResults_eq]
  refine fitting_scatter .color (fun _ => hs.colors) (fun i => hs.colors[i.val]) colors
    (fun i => List.getElem?_eq_getElem _) colorsFit ?_
  refine fitting_scatter .hwpool (fun _ => hs.hwpools) (fun i => hs.hwpools[i.val]) hwpools
    (fun i => List.getElem?_eq_getElem _) hwpoolsFit ?_
  exact .ended 0 fun op send next called => by cases called

/-- A split after the gathers. -/
theorem fitting_gathers (fits : SplitFits hwloc args) (bound : ∀ i, (args i).Bound)
    (more : (mpiLowering sync limit beyond csync).Fitting (afterGathers csync hwloc args)) :
    (mpiLowering sync limit beyond csync).Fitting fun i => split csync hwloc i (args i) := by
  simp only [split, (bound _).construct]
  refine fitting_gather .tid fits.tids (fitting_gather .affinity fits.affinities
    (fitting_gather .color fits.colors (fitting_gather .hwpool fits.hwpools ?_)))
  rw [← split_gathered] at more
  exact more

theorem fitting_split_ok (fits : SplitFits hwloc args) (bound : ∀ i, (args i).Bound) {hs : Hwsplit}
    (run : (rootSplit hwloc args).mSplit = .ok hs) (colors : hs.colors.length = k + 1)
    (hwpools : hs.hwpools.length = k + 1) :
    (mpiLowering sync limit beyond csync).Fitting fun i => split csync hwloc i (args i) := by
  refine fitting_gathers fits bound ?_
  rw [afterGathers_ok args run]
  exact fitting_status fits.few hs .success
    (fitting_results colors hwpools (fits.sendable_colors run) (fits.sendable_hwpools run))

theorem fitting_split_ret (fits : SplitFits hwloc args) (bound : ∀ i, (args i).Bound) {rc : Rc}
    (run : (rootSplit hwloc args).mSplit = .error (.ret rc)) (failure : rc ≠ .success) :
    (mpiLowering sync limit beyond csync).Fitting fun i => split csync hwloc i (args i) := by
  refine fitting_gathers fits bound ?_
  rw [afterGathers_ret args run]
  refine fitting_status fits.few (rootSplit hwloc args) rc (.ended 0 fun op send next called => ?_)
  rw [if_pos failure] at called
  cases called

/-! ## The split over MPI -/

/-- What every member does over MPI: the gathers, the barrier, the broadcast of the status. -/
def mpiStatusOps : List MpiOp :=
  [.gather, .gatherv, .gather, .gatherv, .gather, .gatherv, .gather, .gatherv, .barrier, .scatter, .scatterv]

/-- The scatters of the results over MPI. -/
def mpiResultOps : List MpiOp := [.scatter, .scatterv, .scatter, .scatterv]

variable (sync limit beyond) in
/-- Members that end together on values end together over MPI, with the same results. -/
theorem mpiSplit_through {ops : List CollOp} {result : Fin (k + 1) → Qv (Int × Hwpool)}
    (fitting : (mpiLowering sync limit beyond csync).Fitting fun i => split csync hwloc i (args i))
    (through : Through (fun i => split csync hwloc i (args i)) ops fun i => .done (result i)) :
    Through (fun i => (mpiSplit sync limit beyond hwloc i (args i) : Prog (mpi sync) (Qv (Int × Hwpool))))
      (ops.flatMap (mpiLowering sync limit beyond csync).ops) fun i => .done (result i) := by
  have lowers : ∀ i, Replaced csync sync limit beyond i (split csync hwloc i (args i))
      (mpiSplit sync limit beyond hwloc i (args i)) := fun i => replaced_split i (args i)
  obtain ⟨last, run, ends⟩ := Lowering.through lowers fitting through
  have same : last = fun i => .done (result i) := by
    funext i
    have here := ends i
    generalize last i = p at here
    cases here with
    | done related => rw [related]
  rwa [same] at run

variable (sync limit beyond) in
/-- **A split over MPI computes the split as a function**, when that neither throws nor
stops.  For then every member has a binding on its stack. -/
theorem mpiSplit_computes (fits : SplitFits hwloc args) :
    (∀ results, collSplit hwloc (List.ofFn args) = .ok results →
      Agrees (fun i => (mpiSplit sync limit beyond hwloc i (args i) : Prog (mpi sync) (Qv (Int × Hwpool))))
        (mpiStatusOps ++ mpiResultOps) fun i => .ok (results[i.val]?.getD default)) ∧
    ∀ rc, collSplit hwloc (List.ofFn args) = .error (.ret rc) →
      Agrees (fun i => (mpiSplit sync limit beyond hwloc i (args i) : Prog (mpi sync) (Qv (Int × Hwpool))))
        mpiStatusOps fun _ => .error (.ret rc) := by
  have bound : ∀ {i}, (∀ member ∈ List.ofFn args, member.Bound) → (args i).Bound := fun all =>
    all _ (List.mem_ofFn.2 ⟨_, rfl⟩)
  constructor
  · intro results run
    have all := collSplit_bound.1 run
    obtain ⟨hs, ran, colors, hwpools, rfl⟩ := rootSplit_of_collSplit run
    have values : Through (fun i => split (.full k) hwloc i (args i)) _ _ :=
      through_split_ok args (fun _ => bound all) ran colors hwpools
    have through := mpiSplit_through sync limit beyond
      (fitting_split_ok fits (fun _ => bound all) ran colors hwpools) values
    have ops : (statusOps ++ resultOps).flatMap (mpiLowering sync limit beyond (.full k)).ops =
      mpiStatusOps ++ mpiResultOps := rfl
    rw [ops] at through
    convert through.agrees using 3 with i
    rw [List.getElem?_eq_getElem (by rw [List.length_zip]; omega), Option.getD_some, List.getElem_zip]
  · intro rc run
    have all := collSplit_bound.2 run
    obtain ⟨ran, failure⟩ := rootSplit_of_collSplit_ret run
    have values : Through (fun i => split (.full k) hwloc i (args i)) _ _ :=
      through_split_ret args (fun _ => bound all) ran failure
    exact (mpiSplit_through sync limit beyond
      (fitting_split_ret fits (fun _ => bound all) ran failure) values).agrees

end Operations

/-- Two members ask for a PU each, by colour. -/
def twoByColor : Fin 2 → SplitArgs := fun i =>
  { tid := 7 + i, task := ⟨[{0, 1}]⟩, color := i, hwpool := .ofCpuset {0, 1}, npieces := 2,
    objType := .last }

theorem twoByColor_fits : SplitFits (.onePackage 2 []) twoByColor := by
  have pool : ∀ i, (twoByColor i).hwpool = .ofCpuset {0, 1} := fun _ => rfl
  have few : ((rootSplit (.onePackage 2 []) twoByColor).mSplit.toOption.all fun hs =>
      totalSize (hs.hwpools.map Payload.hwpool.txbuff) < 2 ^ 31) = true := by decide
  refine ⟨⟨fun id member => ?_, by decide⟩, ⟨fun _ _ => trivial, by decide⟩, Payload.sendable_color ?_ (by decide),
    ⟨fun value member => ?_, by decide⟩, fun hs run => ?_⟩
  · obtain ⟨i, rfl⟩ := List.mem_ofFn.1 member
    have inside := i.isLt
    show 7 + i.val < 2 ^ 31
    omega
  · intro c member
    obtain ⟨i, rfl⟩ := List.mem_ofFn.1 member
    have inside := i.isLt
    constructor <;> simp only [twoByColor] <;> omega
  · obtain ⟨i, rfl⟩ := List.mem_ofFn.1 member
    rw [pool]
    exact .ofCpuset _
  · rw [run] at few
    exact of_decide_eq_true few

/-- Both members get their PU, although nobody waits for anybody without need. -/
theorem mpiSplit_computes_twoByColor :
    Agrees (fun i => (mpiSplit (.least 1) stringLimit64 (fun _ _ => 0) (.onePackage 2 []) i (twoByColor i) :
        Prog (mpi (.least 1)) (Qv (Int × Hwpool))))
      (mpiStatusOps ++ mpiResultOps) fun i => .ok ((i : Int), .ofCpuset {i.val}) := by
  have run : collSplit (.onePackage 2 []) (List.ofFn twoByColor) =
      .ok [(0, .ofCpuset {0}), (1, .ofCpuset {1})] := rfl
  have agrees := (mpiSplit_computes (.least 1) stringLimit64 (fun _ _ => 0) twoByColor_fits).1 _ run
  convert agrees using 3 with i
  have two : ∀ i : Fin 2, i = 0 ∨ i = 1 := by decide
  rcases two i with rfl | rfl <;> rfl

end QuoVadis.Kernel
