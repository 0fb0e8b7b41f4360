/-
# Kernel.Bbuff -- byte buffers, and the collectives that move them

`qvi_bbuff::pack` appends the length of an archive and the archive.  `unpack` gets
a bare pointer: it reads eight bytes there, takes them for a length, and makes a
string of as many bytes.  What it is given is a `Memory`, the bytes of a buffer
and whatever lies behind them, and it keeps a record of the ranges it touched.
Every allocation succeeds, but a string can be too long to exist (`StringLimit`).

* `Bbuff.unpack_pack`: what was packed is unpacked, and only its own bytes are touched.

The collectives gather the sizes, lay the buffers out one behind the other at
running displacements, and cut them apart again.  `gatherBbuffs_eq` and
`scatterBbuffs_eq` say that every buffer arrives as it was, as long as all of them
together are shorter than `2 ^ 31` bytes; `QviColl.gather_root`, `scatter_member`
and `bcast_member` say the same of the values.
-/
import QuoVadis.Kernel.Cereal
import QuoVadis.Kernel.Group

namespace QuoVadis.Kernel

open QuoVadis.Theory

set_option autoImplicit false

/-! ## Memory -/

/-- What a pointer points to: the bytes of a buffer, and behind them anything. -/
structure Memory where
  buffer : List UInt8
  beyond : Nat → UInt8

namespace Memory

def byte (m : Memory) (i : Nat) : UInt8 := m.buffer[i]?.getD (m.beyond i)

/-- `memmove` of `size` bytes from an offset. -/
def read (m : Memory) (offset size : Nat) : List UInt8 :=
  (List.range size).map fun i => m.byte (offset + i)

@[simp] theorem length_read (m : Memory) (offset size : Nat) : (m.read offset size).length = size := by
  simp [read]

/-- A read inside the buffer. -/
theorem read_append (before bytes after : List UInt8) (beyond : Nat → UInt8) :
    (Memory.mk (before ++ bytes ++ after) beyond).read before.length bytes.length = bytes := by
  apply List.ext_getElem?
  intro i
  by_cases inside : i < bytes.length
  · simp [read, byte, List.getElem?_append, inside]
  · simp [read, not_lt.1 inside]

end Memory

/-- The longest `std::string` there can be (`max_size`). -/
structure StringLimit where
  maxSize : Nat
  roomy : 2 ^ 31 ≤ maxSize
  addressable : maxSize < 2 ^ 64

/-- `std::string::max_size` of a 64-bit library. -/
def stringLimit64 : StringLimit := ⟨2 ^ 63 - 2, by decide, by decide⟩

/-! ## Packing and unpacking -/

section

variable {δ L α : Type}

/-- The archive of a list of arguments. -/
def archives (args : List (Encoder UInt8 (OutArchive δ))) : List UInt8 :=
  (Encoder.all args {}).1

/-- `qvi_bbuff::pack`: what is appended. -/
def Bbuff.pack (args : List (Encoder UInt8 (OutArchive δ))) : List UInt8 :=
  toBytes 8 (archives args).length ++ archives args

/-- What `qvi_bbuff::unpack` leaves: its status, the arguments, and the ranges of
memory it read, as offset and size. -/
structure Bbuff.Unpacked (L : Type) where
  rc : Rc
  locals : L
  touched : List (Nat × Nat)

/-- `qvi_bbuff::unpack` into variables that hold `locals` before. -/
def Bbuff.unpack (limit : StringLimit) (fields : List (Decoder UInt8 (InArchive δ) ArchiveError (L → L)))
    (m : Memory) (data : Nat) (locals : L) : Bbuff.Unpacked L :=
  let slen := ofBytes (m.read data 8)
  -- `std::length_error`
  if limit.maxSize < slen then ⟨.err, locals, [(data, 8)]⟩
  else
    match loadAll fields locals ({ }, m.read (data + 8) slen) with
    | (locals, .ok _) => ⟨.success, locals, [(data, 8), (data + 8, slen)]⟩
    | (locals, .error e) => ⟨e.rc, locals, [(data, 8), (data + 8, slen)]⟩

/-- One variable of an input archive call. -/
def into [Serializable δ α] (put : α → L → L) : Decoder UInt8 (InArchive δ) ArchiveError (L → L) :=
  assign load put

/-- The fields take apart what the arguments put together. -/
abbrev Matches (fields : List (Decoder UInt8 (InArchive δ) ArchiveError (L → L)))
    (args : List (Encoder UInt8 (OutArchive δ))) (f : L → L) : Prop :=
  Agree (2 ^ 64) fields args f

theorem Matches.nil : Matches ([] : List (Decoder UInt8 (InArchive δ) ArchiveError (L → L))) [] id :=
  Agree.nil

theorem Matches.cons [Serializable δ α]
    {fields : List (Decoder UInt8 (InArchive δ) ArchiveError (L → L))}
    {args : List (Encoder UInt8 (OutArchive δ))} {f : L → L} (value : α) (put : α → L → L)
    (later : Matches fields args f) :
    Matches (into put :: fields) (save value :: args) (f ∘ put value) :=
  Agree.cons Serializable.codec value put later

/-- **What was packed is unpacked**, from wherever it lies, and only its own bytes
are touched. -/
theorem Bbuff.unpack_pack {limit : StringLimit}
    {fields : List (Decoder UInt8 (InArchive δ) ArchiveError (L → L))}
    {args : List (Encoder UInt8 (OutArchive δ))} {f : L → L} (agree : Matches fields args f)
    (short : (archives args).length ≤ limit.maxSize) (before : List UInt8) (beyond : Nat → UInt8)
    (locals : L) :
    Bbuff.unpack limit fields ⟨before ++ Bbuff.pack args, beyond⟩ before.length locals =
      ⟨.success, f locals, [(before.length, 8), (before.length + 8, (archives args).length)]⟩ := by
  have below := limit.addressable
  have tag : (Memory.mk (before ++ Bbuff.pack args) beyond).read before.length 8 =
      toBytes 8 (archives args).length := by
    have := Memory.read_append before (toBytes 8 (archives args).length) (archives args) beyond
    rwa [length_toBytes, List.append_assoc] at this
  have body : (Memory.mk (before ++ Bbuff.pack args) beyond).read (before.length + 8)
      (archives args).length = archives args := by
    have := Memory.read_append (before ++ toBytes 8 (archives args).length) (archives args) [] beyond
    rwa [List.length_append, length_toBytes, List.append_nil, List.append_assoc] at this
  have slen : ofBytes (toBytes 8 (archives args).length) = (archives args).length :=
    ofBytes_toBytes (by omega)
  have room : ¬ limit.maxSize < (archives args).length := by omega
  obtain ⟨table, run⟩ := agree { } { } locals [] (by
    show (archives args).length < 2 ^ 64
    omega)
  have loaded : loadAll fields locals ({ }, archives args) = (f locals, .ok (table, [])) := by
    rw [← run, List.append_nil]
    rfl
  simp only [Bbuff.unpack, tag, slen, if_neg room, body, loaded]

end

/-! ## Moving buffers between the members of a group -/

/-- The size of a buffer as the `int` that MPI wants. -/
def intSize (bytes : List UInt8) : Int32 := Int32.ofNat bytes.length

/-- The running displacements of a list of counts, and their sum. -/
def displacements : Int32 → List Int32 → List Int32 × Int32
  | totalBytes, [] => ([], totalBytes)
  | totalBytes, count :: counts =>
      (totalBytes :: (displacements (totalBytes + count) counts).1,
        (displacements (totalBytes + count) counts).2)

/-- `resize` of an empty vector; a negative size is `std::length_error`. -/
def resize (size : Int32) : Qv (List UInt8) :=
  if size < 0 then .error (.thrown .err) else .ok (List.replicate size.toNatClampNeg 0)

/-- Overwrite the bytes from an offset on. -/
def writeAt (buffer : List UInt8) (offset : Nat) (bytes : List UInt8) : List UInt8 :=
  buffer.take offset ++ bytes ++ buffer.drop (offset + bytes.length)

/-- `MPI_Gatherv` at the root: the bytes of every member, at its displacement. -/
def mpiGatherv (displs : List Int32) (txbuffs : List (List UInt8)) (allbytes : List UInt8) :
    List UInt8 :=
  (displs.zip txbuffs).foldl (fun acc piece => writeAt acc piece.1.toNatClampNeg piece.2) allbytes

/-- Cut a buffer apart again. -/
def cut : List UInt8 → List Int32 → List (List UInt8)
  | _, [] => []
  | bytepos, count :: counts =>
      bytepos.take count.toNatClampNeg :: cut (bytepos.drop count.toNatClampNeg) counts

/-- `gather_bbuffs`, as the member of the given rank sees it; `txbuffs` are the
buffers of all members.  MPI refuses a root that is not a rank and a negative count. -/
def gatherBbuffs (txbuffs : List (List UInt8)) (root rank : Nat) : Qv (List (List UInt8)) :=
  if ¬ root < txbuffs.length then .error (.ret .errMpi)
  else
    -- `MPI_Gather`
    let rxcounts := txbuffs.map intSize
    if rank = root then do
      let (displs, totalBytes) := displacements 0 rxcounts
      let allbytes ← resize totalBytes
      if rxcounts.any (· < 0) then .error (.ret .errMpi)
      else return cut (mpiGatherv displs txbuffs allbytes) rxcounts
    -- the others only send
    else if rxcounts[rank]?.any (· < 0) then .error (.ret .errMpi)
    else .ok []

/-- The loop of `scatter_bbuffs` that fills the flat buffer. -/
def flattenInto : List UInt8 → Nat → List (List UInt8) → List UInt8
  | txbytes, _, [] => txbytes
  | txbytes, bytepos, bytes :: rest =>
      flattenInto (writeAt txbytes bytepos bytes) (bytepos + bytes.length) rest

/-- What the root does before a collective call.  If it does not come to the call, the
others wait in it. -/
def atRoot {α : Type} (root rank : Nat) : Qv α → Qv α
  | .ok a => .ok a
  | .error fault => .error (if rank = root then fault else .trap)

/-- `scatter_bbuffs`, as the member of the given rank sees it; `txbuffs` are the
root's. -/
def scatterBbuffs (txbuffs : List (List UInt8)) (root rank : Nat) : Qv (List UInt8) :=
  if ¬ root < txbuffs.length then .error (.ret .errMpi)
  else do
    let txcounts := txbuffs.map intSize
    let (displs, totalBytes) := displacements 0 txcounts
    let txbytes ← atRoot root rank (resize totalBytes)
    -- a negative count is a `memmove` over all of memory
    if txcounts.any (· < 0) then .error .trap
    else
      let txbytes := flattenInto txbytes 0 txbuffs
      -- `MPI_Scatter`, then `MPI_Scatterv`
      match txcounts[rank]?, displs[rank]? with
      | some rxcount, some displ => do
          let mybytes ← resize rxcount
          return writeAt mybytes 0 ((txbytes.drop displ.toNatClampNeg).take rxcount.toNatClampNeg)
      | _, _ => .error .trap

/-! ## Every buffer arrives -/

/-- What the buffers take up. -/
def totalSize (txbuffs : List (List UInt8)) : Nat := txbuffs.flatten.length

theorem ofNat_nonneg {n : Nat} (small : n < 2 ^ 31) : ¬ Int32.ofNat n < 0 := by
  rw [Int32.lt_iff_toInt_lt, Int32.toInt_ofNat_of_lt small]
  simp

theorem resize_ofNat {n : Nat} (small : n < 2 ^ 31) :
    resize (Int32.ofNat n) = .ok (List.replicate n 0) := by
  rw [resize, if_neg (ofNat_nonneg small), Int32.toNatClampNeg_ofNat_of_lt small]

/-- The total is the size of all buffers. -/
theorem displacements_total :
    ∀ (txbuffs : List (List UInt8)) (n : Nat),
      (displacements (Int32.ofNat n) (txbuffs.map intSize)).2 = Int32.ofNat (n + totalSize txbuffs)
  | [], n => rfl
  | bytes :: rest, n => by
      rw [List.map_cons, displacements, intSize, ← Int32.ofNat_add, displacements_total rest]
      simp [totalSize, Nat.add_assoc]

theorem displacements_getElem? :
    ∀ (txbuffs : List (List UInt8)) (n i : Nat),
      (displacements (Int32.ofNat n) (txbuffs.map intSize)).1[i]? =
        (if i < txbuffs.length then some (Int32.ofNat (n + totalSize (txbuffs.take i))) else none)
  | [], n, i => by simp [displacements]
  | bytes :: rest, n, 0 => by simp [displacements, totalSize]
  | bytes :: rest, n, i + 1 => by
      rw [List.map_cons, displacements, intSize, ← Int32.ofNat_add, List.getElem?_cons_succ,
        displacements_getElem? rest]
      simp [totalSize, Nat.add_assoc]

theorem totalSize_cons (bytes : List UInt8) (rest : List (List UInt8)) :
    totalSize (bytes :: rest) = bytes.length + totalSize rest := by
  simp [totalSize]

theorem intSize_nonneg {txbuffs : List (List UInt8)} (small : totalSize txbuffs < 2 ^ 31) :
    ∀ count ∈ txbuffs.map intSize, ¬ count < 0 := by
  induction txbuffs with
  | nil =>
      intro count member
      exact absurd member List.not_mem_nil
  | cons bytes rest ih =>
      rw [totalSize_cons] at small
      rw [List.map_cons, List.forall_mem_cons]
      exact ⟨ofNat_nonneg (by omega), ih (by omega)⟩

theorem counts_nonneg {txbuffs : List (List UInt8)} (small : totalSize txbuffs < 2 ^ 31) :
    (txbuffs.map intSize).any (· < 0) = false := by
  rw [List.any_eq_false]
  intro count member
  simpa using intSize_nonneg small count member

/-- The next buffer goes behind those that are there. -/
theorem writeAt_next (done bytes : List UInt8) (room : Nat) :
    writeAt (done ++ List.replicate (bytes.length + room) 0) done.length bytes =
      done ++ bytes ++ List.replicate room 0 := by
  simp [writeAt]

theorem mpiGatherv_eq :
    ∀ (rest : List (List UInt8)) (done : List UInt8), done.length + totalSize rest < 2 ^ 31 →
      mpiGatherv (displacements (Int32.ofNat done.length) (rest.map intSize)).1 rest
        (done ++ List.replicate (totalSize rest) 0) = done ++ rest.flatten
  | [], done, _ => by simp [mpiGatherv, displacements, totalSize]
  | bytes :: rest, done, small => by
      rw [totalSize_cons] at small
      have later := mpiGatherv_eq rest (done ++ bytes) (by rw [List.length_append]; omega)
      rw [mpiGatherv] at later ⊢
      rw [List.map_cons, displacements, intSize, ← Int32.ofNat_add, List.zip_cons_cons,
        List.foldl_cons, Int32.toNatClampNeg_ofNat_of_lt (by omega), totalSize_cons, writeAt_next]
      rw [List.length_append] at later
      rw [later, List.flatten_cons, List.append_assoc]

theorem flattenInto_eq :
    ∀ (rest : List (List UInt8)) (done : List UInt8),
      flattenInto (done ++ List.replicate (totalSize rest) 0) done.length rest = done ++ rest.flatten
  | [], done => by simp [flattenInto, totalSize]
  | bytes :: rest, done => by
      have later := flattenInto_eq rest (done ++ bytes)
      rw [List.length_append] at later
      rw [flattenInto, totalSize_cons, writeAt_next, later, List.flatten_cons, List.append_assoc]

theorem cut_flatten :
    ∀ {txbuffs : List (List UInt8)}, totalSize txbuffs < 2 ^ 31 →
      cut txbuffs.flatten (txbuffs.map intSize) = txbuffs
  | [], _ => rfl
  | bytes :: rest, small => by
      rw [totalSize_cons] at small
      rw [List.map_cons, cut, intSize, Int32.toNatClampNeg_ofNat_of_lt (by omega), List.flatten_cons,
        List.take_left, List.drop_left, cut_flatten (by omega)]

/-- The root gets every buffer as it was. -/
theorem gatherBbuffs_eq {txbuffs : List (List UInt8)} {root : Nat} (valid : root < txbuffs.length)
    (small : totalSize txbuffs < 2 ^ 31) (rank : Nat) :
    gatherBbuffs txbuffs root rank = .ok (if rank = root then txbuffs else []) := by
  have total := displacements_total txbuffs 0
  have placed := mpiGatherv_eq txbuffs [] (by simpa using small)
  rw [Nat.zero_add] at total
  simp only [List.length_nil, List.nil_append] at placed
  change (displacements 0 (txbuffs.map intSize)).2 = _ at total
  change mpiGatherv (displacements 0 (txbuffs.map intSize)).1 txbuffs _ = _ at placed
  simp only [gatherBbuffs, valid, not_true, if_false]
  by_cases here : rank = root
  · simp only [if_pos here, total, resize_ofNat small, counts_nonneg small, bind, Except.bind, placed,
      cut_flatten small]
    rfl
  · have sends : ((txbuffs.map intSize)[rank]?).any (· < 0) = false := by
      cases found : (txbuffs.map intSize)[rank]? with
      | none => rfl
      | some count => simpa using intSize_nonneg small count (List.mem_of_getElem? found)
    simp only [if_neg here, sends]
    rfl

/-- A buffer is where the displacements say. -/
theorem take_drop_flatten :
    ∀ {txbuffs : List (List UInt8)} {i : Nat} {bytes : List UInt8}, txbuffs[i]? = some bytes →
      (txbuffs.flatten.drop (totalSize (txbuffs.take i))).take bytes.length = bytes
  | first :: rest, 0, bytes, found => by
      rw [List.getElem?_cons_zero, Option.some.injEq] at found
      subst found
      simp [totalSize]
  | first :: rest, i + 1, bytes, found => by
      rw [List.getElem?_cons_succ] at found
      rw [List.take_succ_cons, totalSize_cons, List.flatten_cons, ← List.drop_drop, List.drop_left]
      exact take_drop_flatten found

theorem totalSize_take_le {txbuffs : List (List UInt8)} {i : Nat} {bytes : List UInt8}
    (found : txbuffs[i]? = some bytes) :
    totalSize (txbuffs.take i) + bytes.length ≤ totalSize txbuffs := by
  have cut := congrArg List.length (take_drop_flatten found)
  rw [List.length_take, List.length_drop] at cut
  have whole : totalSize txbuffs = txbuffs.flatten.length := rfl
  have part := (List.take_sublist i txbuffs).flatten.length_le
  have partSize : totalSize (txbuffs.take i) = (txbuffs.take i).flatten.length := rfl
  omega

/-- Every member gets its own buffer. -/
theorem scatterBbuffs_eq {txbuffs : List (List UInt8)} {root : Nat} (valid : root < txbuffs.length)
    (small : totalSize txbuffs < 2 ^ 31) {rank : Nat} {bytes : List UInt8}
    (found : txbuffs[rank]? = some bytes) : scatterBbuffs txbuffs root rank = .ok bytes := by
  have total := displacements_total txbuffs 0
  have displ := displacements_getElem? txbuffs 0 rank
  have placed := flattenInto_eq txbuffs []
  have inside : rank < txbuffs.length := (List.getElem?_eq_some_iff.1 found).1
  have bound := totalSize_take_le found
  have count : (txbuffs.map intSize)[rank]? = some (Int32.ofNat bytes.length) := by
    rw [List.getElem?_map, found]
    rfl
  rw [Nat.zero_add] at total displ
  simp only [List.length_nil, List.nil_append] at placed
  change (displacements 0 (txbuffs.map intSize)).2 = _ at total
  change (displacements 0 (txbuffs.map intSize)).1[rank]? = _ at displ
  rw [if_pos inside] at displ
  simp only [scatterBbuffs, valid, not_true, if_false, total, resize_ofNat small, counts_nonneg small, atRoot,
    bind, Except.bind, placed, count, displ, resize_ofNat (by omega : bytes.length < 2 ^ 31),
    Int32.toNatClampNeg_ofNat_of_lt (by omega : bytes.length < 2 ^ 31),
    Int32.toNatClampNeg_ofNat_of_lt (by omega : totalSize (txbuffs.take rank) < 2 ^ 31),
    take_drop_flatten found]
  simp [writeAt, pure, Except.pure]

/-- `qvi_group::gather`, as the member of the given rank sees it. -/
def Group.gather (txbuffs : List (List UInt8)) (root rank : Nat) : Group → Qv (List (List UInt8))
  | .process p =>
      if root ≠ 0 ∨ (Group.process p).size ≠ 1 then .error .trap
      else
        match txbuffs[rank]? with
        | some txbuff => .ok [txbuff]
        | none => .error .trap
  | .mpi _ => gatherBbuffs txbuffs root rank
  | .thread _ _ => .error (.ret .errNotSupported)

/-- `qvi_group::scatter`. -/
def Group.scatter (txbuffs : List (List UInt8)) (root rank : Nat) : Group → Qv (List UInt8)
  | .process p =>
      if root ≠ 0 ∨ (Group.process p).size ≠ 1 then .error .trap
      else
        match txbuffs[root]? with
        | some txbuff => .ok txbuff
        | none => .error .trap
  | .mpi _ => scatterBbuffs txbuffs root rank
  | .thread _ _ => .error (.ret .errNotSupported)

/-- The groups with collectives. -/
def Group.Collective : Group → Prop
  | .process _ | .mpi _ => True
  | .thread _ _ => False

/-- A group with collectives says how many members it has. -/
theorem Group.size_collective {group : Group} (collective : group.Collective) :
    group.size.toNat = group.members.length := by
  cases group with
  | process p => rfl
  | mpi comm => rfl
  | thread p nthreads => exact absurd collective id

/-- The root gets every buffer. -/
theorem Group.gather_eq {group : Group} (collective : group.Collective)
    {txbuffs : List (List UInt8)} (all : txbuffs.length = group.members.length) {root : Nat}
    (valid : root < txbuffs.length) (small : totalSize txbuffs < 2 ^ 31) :
    group.gather txbuffs root root = .ok txbuffs := by
  cases group with
  | process p =>
      obtain ⟨txbuff, rfl⟩ := List.length_eq_one_iff.1 all
      obtain rfl : root = 0 := Nat.lt_one_iff.1 valid
      rfl
  | mpi comm =>
      rw [Group.gather, gatherBbuffs_eq valid small, if_pos rfl]
  | thread p nthreads => exact absurd collective id

/-- Every member gets its buffer. -/
theorem Group.scatter_eq {group : Group} (collective : group.Collective)
    {txbuffs : List (List UInt8)} (all : txbuffs.length = group.members.length) {root : Nat}
    (valid : root < txbuffs.length) (small : totalSize txbuffs < 2 ^ 31) {rank : Nat}
    {bytes : List UInt8} (found : txbuffs[rank]? = some bytes) :
    group.scatter txbuffs root rank = .ok bytes := by
  cases group with
  | process p =>
      obtain ⟨txbuff, rfl⟩ := List.length_eq_one_iff.1 all
      obtain rfl : root = 0 := Nat.lt_one_iff.1 valid
      obtain rfl : rank = 0 := Nat.lt_one_iff.1 (List.getElem?_eq_some_iff.1 found).1
      cases found
      rfl
  | mpi comm => exact scatterBbuffs_eq valid small found
  | thread p nthreads => exact absurd collective id

namespace QviColl

/-- The elements `0 .. n - 1` of a vector that may be shorter. -/
def elements {α : Type} (values : List α) (n : Nat) : Qv (List α) :=
  (List.range n).mapM fun i =>
    match values[i]? with
    | some value => .ok value
    | none => .error .trap

theorem elements_eq {α : Type} (values : List α) : elements values values.length = .ok values := by
  have steps : ∀ (l done : List α), values = done ++ l →
      (List.range' done.length l.length).mapM (fun i =>
        match values[i]? with
        | some value => (.ok value : Qv α)
        | none => .error .trap) = .ok l := by
    intro l
    induction l with
    | nil => exact fun done _ => rfl
    | cons value l ih =>
        intro done whole
        have here : values[done.length]? = some value := by simp [whole]
        have later := ih (done ++ [value]) (by simp [whole])
        rw [List.length_append, List.length_singleton] at later
        rw [List.length_cons, List.range'_succ, List.mapM_cons, here, later]
        rfl
  rw [elements, List.range_eq_range']
  exact steps values [] rfl

variable (δ : Type) {α : Type} [Serializable δ α] (limit : StringLimit) (beyond : Nat → Nat → UInt8)

/-- A buffer with one value in it. -/
def txbuff (value : α) : List UInt8 := Bbuff.pack [(save value : Encoder UInt8 (OutArchive δ))]

/-- `unpack` of one value from the start of a buffer. -/
def unpackValue [Inhabited α] (m : Memory) : Qv α :=
  let field : Decoder UInt8 (InArchive δ) ArchiveError (α → α) := into fun value _ => value
  let u := Bbuff.unpack limit [field] m 0 default
  if u.rc ≠ .success then .error (.ret u.rc) else .ok u.locals

/-- `qvi_coll::gather`: `recv` of the member of the given rank. -/
def gather [Inhabited α] (group : Group) (rootid : Nat) (send : List α) (rank : Nat) : Qv (List α) := do
  let bbuffs ← group.gather (send.map (txbuff δ)) rootid rank
  if rank = rootid then
    let rxbuffs ← elements bbuffs group.size.toNat
    rxbuffs.zipIdx.mapM fun rx => unpackValue δ limit ⟨rx.1, beyond rx.2⟩
  else return []

/-- `qvi_coll::scatter`: `recv` of the member of the given rank. -/
def scatter [Inhabited α] (group : Group) (rootid : Nat) (send : List α) (rank : Nat) : Qv α := do
  let send ← elements send group.size.toNat
  let rxbuff ← group.scatter (send.map (txbuff δ)) rootid rank
  unpackValue δ limit ⟨rxbuff, beyond rank⟩

/-- `qvi_coll::bcast`: `value` of the member of the given rank, given what every
member had in it before. -/
def bcast [Inhabited α] (group : Group) (rootid : Nat) (values : Nat → α) (rank : Nat) : Qv α :=
  scatter δ limit beyond group rootid (List.replicate group.size.toNat (values rootid)) rank

variable {limit beyond} [Inhabited α]

theorem unpackValue_txbuff (value : α) (after : Nat → UInt8)
    (small : (txbuff δ value).length < 2 ^ 31) :
    unpackValue δ limit ⟨txbuff δ value, after⟩ = .ok value := by
  have roomy := limit.roomy
  have field : Matches [(into fun value _ => value : Decoder UInt8 (InArchive δ) ArchiveError (α → α))]
      [(save value : Encoder UInt8 (OutArchive δ))] fun _ => value :=
    Matches.cons value (fun value _ => value) Matches.nil
  have short : (archives [(save value : Encoder UInt8 (OutArchive δ))]).length ≤ limit.maxSize := by
    simp only [txbuff, Bbuff.pack, List.length_append] at small
    omega
  have run := Bbuff.unpack_pack field short [] after default
  rw [List.nil_append, List.length_nil] at run
  simp only [unpackValue, txbuff, run]
  rfl

/-- Every buffer at the root is read as the value that was sent. -/
theorem mapM_unpackValue (send : List α) (small : totalSize (send.map (txbuff δ)) < 2 ^ 31) :
    ∀ k, ((send.map (txbuff δ)).zipIdx k).mapM
      (fun rx => unpackValue δ limit ⟨rx.1, beyond rx.2⟩) = (.ok send : Qv (List α)) := by
  induction send with
  | nil => exact fun k => rfl
  | cons value send ih =>
      intro k
      rw [List.map_cons, totalSize_cons] at small
      rw [List.map_cons, List.zipIdx_cons, List.mapM_cons,
        unpackValue_txbuff δ value _ (by omega), ih (by omega)]
      rfl

theorem gather_root {group : Group} (collective : group.Collective) {root : Nat} {send : List α}
    (all : send.length = group.members.length) (valid : root < send.length)
    (small : totalSize (send.map (txbuff δ)) < 2 ^ 31) :
    gather δ limit beyond group root send root = .ok send := by
  have moved : group.gather (send.map (txbuff δ)) root root = .ok (send.map (txbuff δ)) :=
    Group.gather_eq collective (by rw [List.length_map, all]) (by rwa [List.length_map]) small
  have whole := elements_eq (send.map (txbuff δ))
  rw [List.length_map] at whole
  simp only [gather, moved, bind, Except.bind, if_true, Group.size_collective collective, ← all, whole]
  exact mapM_unpackValue δ send small 0

theorem scatter_member {group : Group} (collective : group.Collective) {root : Nat} {send : List α}
    (all : send.length = group.members.length) (valid : root < send.length)
    (small : totalSize (send.map (txbuff δ)) < 2 ^ 31) {rank : Nat} {value : α}
    (found : send[rank]? = some value) :
    scatter δ limit beyond group root send rank = .ok value := by
  have found' : (send.map (txbuff δ))[rank]? = some (txbuff δ value) := by
    rw [List.getElem?_map, found]
    rfl
  have moved : group.scatter (send.map (txbuff δ)) root rank = .ok (txbuff δ value) :=
    Group.scatter_eq collective (by rw [List.length_map, all]) (by rwa [List.length_map]) small found'
  have bound := totalSize_take_le found'
  simp only [scatter, Group.size_collective collective, ← all, elements_eq, bind, Except.bind, moved]
  exact unpackValue_txbuff δ value _ (by omega)

theorem bcast_member {group : Group} (collective : group.Collective) {root : Nat} {values : Nat → α}
    (valid : root < group.members.length)
    (small : group.members.length * (txbuff δ (values root)).length < 2 ^ 31) {rank : Nat}
    (member : rank < group.members.length) :
    bcast δ limit beyond group root values rank = .ok (values root) := by
  have total : totalSize ((List.replicate group.members.length (values root)).map (txbuff δ)) < 2 ^ 31 := by
    simpa [totalSize] using small
  rw [bcast, Group.size_collective collective]
  apply scatter_member δ collective (List.length_replicate) (by simpa using valid) total
  rw [List.getElem?_replicate, if_pos member]

/-- **Collectives deliver the right value to the right member.**  For every group of
processes, root and values whose buffers together are shorter than `2 ^ 31` bytes: the
root gathers what the members sent, in rank order; every member gets its element of
what the root scatters, so that a scatter of what was gathered brings every member its
own value back; and a broadcast leaves the root's value with everyone. -/
theorem collectives_deliver (limit : StringLimit) (beyond beyond' : Nat → Nat → UInt8) (group : Group)
    (collective : group.Collective) (root : Nat) (valid : root < group.members.length)
    (values : List α) (all : values.length = group.members.length)
    (small : totalSize (values.map (txbuff δ)) < 2 ^ 31) :
    gather δ limit beyond group root values root = .ok values ∧
    (∀ rank value, values[rank]? = some value →
      scatter δ limit beyond group root values rank = .ok value) ∧
    (∀ rank value, values[rank]? = some value →
      (gather δ limit beyond group root values root >>= fun recv =>
        scatter δ limit beyond' group root recv rank) = .ok value) ∧
    (∀ held : Nat → α, group.members.length * (txbuff δ (held root)).length < 2 ^ 31 →
      ∀ rank < group.members.length,
        bcast δ limit beyond group root held rank = .ok (held root)) := by
  have gathered : gather δ limit beyond group root values root = .ok values :=
    gather_root δ collective all (by rwa [all]) small
  refine ⟨gathered, ?_, ?_, ?_⟩
  · intro rank value found
    exact scatter_member δ collective all (by rwa [all]) small found
  · intro rank value found
    rw [gathered]
    exact scatter_member δ collective all (by rwa [all]) small found
  · intro held fits rank member
    exact bcast_member δ collective valid fits member

/-- Three processes, and strings of different lengths. -/
theorem collectives_deliver_threeStrings :
    gather Unit stringLimit64 (fun _ _ => 0) (.mpi ⟨[4, 7, 9], by decide⟩) 1
      [[65], [], [66, 67, 68]] 1 = .ok ([[65], [], [66, 67, 68]] : List StdString) ∧
    scatter Unit stringLimit64 (fun _ _ => 0) (.mpi ⟨[4, 7, 9], by decide⟩) 1
      [[65], [], [66, 67, 68]] 2 = .ok ([66, 67, 68] : StdString) := by
  have delivered := collectives_deliver Unit stringLimit64 (fun _ _ => 0) (fun _ _ => 0)
    (.mpi ⟨[4, 7, 9], by decide⟩) trivial 1 (by decide)
    ([[65], [], [66, 67, 68]] : List StdString) rfl (by decide)
  exact ⟨delivered.1, delivered.2.1 2 [66, 67, 68] rfl⟩

end QviColl

end QuoVadis.Kernel
