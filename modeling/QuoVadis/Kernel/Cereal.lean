/-
# Kernel.Cereal -- the binary archives of the messages

`cereal::BinaryOutputArchive` and `BinaryInputArchive` for the types that go over
the wire, as instances of one class: what C++ finds by overloading, `save` and
`load` find by the type of the argument.

* integers are their bytes, the lowest first; an enumeration is a 32-bit integer;
* a `std::string`, a `std::vector` and a `std::map` are a 64-bit count and their
  contents, the entries of a map in key order;
* a `std::shared_ptr` to a class with virtual members is two 32-bit numbers and
  the object: the archive numbers the pointers it has seen, and a number whose top
  bit is not set refers back to an object read before;
* a bitmap is the string hwloc prints for it.

An archive that ends early, a back reference to nothing and a string hwloc cannot
scan are exceptions (`ArchiveError`).
-/
import QuoVadis.Kernel.Base
import QuoVadis.Theory.Codec
import Mathlib.Combinatorics.Colex
import Mathlib.Data.Nat.Digits.Defs

namespace QuoVadis.Kernel

open QuoVadis.Theory

set_option autoImplicit false

/-- The output side remembers how many pointers it has written; `δ` is what the
pointers of its values point to. -/
structure OutArchive (δ : Type) where
  currentPointerId : UInt32 := 1

/-- The input side remembers the objects it has read, under their numbers. -/
structure InArchive (δ : Type) where
  sharedPointerMap : List (UInt32 × δ) := []

/-- The exceptions of an input archive: one of cereal or the library, or the one that a
bitmap throws. -/
inductive ArchiveError where
  | exception
  | hwloc

/-- What `qvi_catch_and_return` makes of them. -/
def ArchiveError.rc : ArchiveError → Rc
  | exception => .err
  | hwloc => .errHwloc

theorem ArchiveError.rc_ne_success (e : ArchiveError) : e.rc ≠ .success := by
  cases e <;> decide

/-- How the values of a type lie in an archive. -/
abbrev Format (δ α : Type) := Codec UInt8 (OutArchive δ) (InArchive δ) ArchiveError (2 ^ 64) α

/-- A type the archives can hold. -/
class Serializable (δ α : Type) where
  codec : Format δ α

variable {δ α β κ : Type}

/-- `oarchive(value)`. -/
def save [Serializable δ α] (value : α) : Encoder UInt8 (OutArchive δ) :=
  Serializable.codec.write value

/-- `iarchive(value)`. -/
def load [Serializable δ α] : Decoder UInt8 (InArchive δ) ArchiveError α :=
  Serializable.codec.read

/-! ## Integers -/

/-- The lowest `width` bytes of a number, the lowest first. -/
def toBytes : Nat → Nat → List UInt8
  | 0, _ => []
  | width + 1, n => UInt8.ofNat n :: toBytes width (n / 256)

def ofBytes : List UInt8 → Nat
  | [] => 0
  | b :: bytes => b.toNat + 256 * ofBytes bytes

@[simp] theorem length_toBytes : ∀ width n : Nat, (toBytes width n).length = width
  | 0, _ => rfl
  | width + 1, n => by rw [toBytes, List.length_cons, length_toBytes width]

theorem ofBytes_toBytes : ∀ {width n : Nat}, n < 256 ^ width → ofBytes (toBytes width n) = n
  | 0, n, small => by
      have : n = 0 := by simpa using small
      rw [this]
      rfl
  | width + 1, n, small => by
      have upper : n / 256 < 256 ^ width := by
        rw [Nat.div_lt_iff_lt_mul (by decide)]
        simpa [Nat.pow_succ] using small
      rw [toBytes, ofBytes, ofBytes_toBytes upper, UInt8.toNat_ofNat']
      exact Nat.mod_add_div n 256

theorem ofBytes_lt : ∀ bytes : List UInt8, ofBytes bytes < 256 ^ bytes.length
  | [] => by decide
  | b :: bytes => by
      have low := b.toNat_lt
      have high := ofBytes_lt bytes
      rw [ofBytes, List.length_cons, Nat.pow_succ]
      omega

/-- `loadBinary`: fewer bytes than asked for is an exception. -/
def loadBinary (size : Nat) : Decoder UInt8 (InArchive δ) ArchiveError (List UInt8) := fun (archive, stream) =>
  if stream.length < size then .error .exception else .ok (stream.take size, archive, stream.drop size)

theorem reads_loadBinary {size : Nat} {bytes : List UInt8} (exact : bytes.length = size) :
    Reads (loadBinary size : Decoder UInt8 (InArchive δ) ArchiveError (List UInt8)) bytes bytes := by
  intro archive rest
  refine ⟨archive, ?_⟩
  have long : ¬ (bytes ++ rest).length < size := by simp [exact]
  simp only [loadBinary, if_neg long, List.take_left' exact, List.drop_left' exact]

/-- A type whose values are `width` bytes. -/
def fixedWidth (width : Nat) (toNat : α → Nat) (ofNat : Nat → α) (positive : 0 < width)
    (bounded : ∀ a, toNat a < 256 ^ width) (inverse : ∀ a, ofNat (toNat a) = a) :
    Format δ α where
  write a archive := (toBytes width (toNat a), archive)
  read := do
    let bytes ← loadBinary width
    return ofNat (ofBytes bytes)
  nonempty a archive := by rwa [length_toBytes]
  reads a archive _ := by
    apply (reads_loadBinary (length_toBytes width (toNat a))).bind_pure
    rw [ofBytes_toBytes (bounded a), inverse]

instance : Serializable δ UInt8 where
  codec := fixedWidth 1 UInt8.toNat UInt8.ofNat (by decide) UInt8.toNat_lt
    fun _ => UInt8.ofNat_toNat

instance : Serializable δ UInt32 where
  codec := fixedWidth 4 UInt32.toNat UInt32.ofNat (by decide) UInt32.toNat_lt
    fun _ => UInt32.ofNat_toNat

instance : Serializable δ UInt64 where
  codec := fixedWidth 8 UInt64.toNat UInt64.ofNat (by decide) UInt64.toNat_lt
    fun _ => UInt64.ofNat_toNat

instance : Serializable δ Int32 where
  codec := fixedWidth 4 (fun a => a.toUInt32.toNat) (fun n => (UInt32.ofNat n).toInt32) (by decide)
    (fun a => a.toUInt32.toNat_lt) (fun a => by rw [UInt32.ofNat_toNat]; rfl)

instance : Serializable δ Int64 where
  codec := fixedWidth 8 (fun a => a.toUInt64.toNat) (fun n => (UInt64.ofNat n).toInt64) (by decide)
    (fun a => a.toUInt64.toNat_lt) (fun a => by rw [UInt64.ofNat_toNat]; rfl)

/-! ## Containers -/

/-- `std::string`. -/
abbrev StdString := List UInt8

/-- `std::vector`, under a `size_tag`.  A string has the same form. -/
instance [Serializable δ α] : Serializable δ (List α) where
  codec := Codec.list (Serializable.codec : Format δ UInt64) UInt64.ofNat UInt64.toNat
    (fun n small => by rw [UInt64.toNat_ofNat', Nat.mod_eq_of_lt small]) Serializable.codec

instance [Serializable δ α] [Serializable δ β] : Serializable δ (α × β) where
  codec := Codec.pair Serializable.codec Serializable.codec

/-- `std::map`: its entries, in the order of the keys. -/
@[ext]
structure StdMap (κ α : Type) [LT κ] where
  entries : List (κ × α)
  ascending : entries.Pairwise fun a b => a.1 < b.1

section StdMap

variable [LinearOrder κ]

/-- `emplace`: an entry whose key is there already is dropped. -/
def emplaceEntry (entry : κ × α) : List (κ × α) → List (κ × α)
  | [] => [entry]
  | e :: rest =>
      if entry.1 < e.1 then entry :: e :: rest
      else if entry.1 = e.1 then e :: rest
      else e :: emplaceEntry entry rest

theorem mem_emplaceEntry {entry x : κ × α} :
    ∀ {entries : List (κ × α)}, x ∈ emplaceEntry entry entries → x = entry ∨ x ∈ entries
  | [], member => by
      rw [emplaceEntry, List.mem_singleton] at member
      exact Or.inl member
  | e :: rest, member => by
      rw [emplaceEntry] at member
      split_ifs at member with before same
      · exact List.mem_cons.1 member
      · exact Or.inr member
      · rcases List.mem_cons.1 member with rfl | later
        · exact Or.inr List.mem_cons_self
        · exact (mem_emplaceEntry later).imp id (List.mem_cons_of_mem e)

theorem emplaceEntry_ascending (entry : κ × α) :
    ∀ {entries : List (κ × α)}, entries.Pairwise (fun a b => a.1 < b.1) →
      (emplaceEntry entry entries).Pairwise fun a b => a.1 < b.1
  | [], _ => List.pairwise_singleton _ _
  | e :: rest, sorted => by
      obtain ⟨first, later⟩ := List.pairwise_cons.1 sorted
      rw [emplaceEntry]
      split_ifs with before same
      · apply List.Pairwise.cons _ sorted
        intro x member
        rcases List.mem_cons.1 member with rfl | member
        · exact before
        · exact before.trans (first x member)
      · exact sorted
      · apply List.Pairwise.cons _ (emplaceEntry_ascending entry later)
        intro x member
        rcases mem_emplaceEntry member with rfl | member
        · exact lt_of_le_of_ne (not_lt.1 before) (Ne.symm same)
        · exact first x member

/-- An entry behind all others goes to the end. -/
theorem emplaceEntry_last {entry : κ × α} :
    ∀ {entries : List (κ × α)}, (∀ e ∈ entries, e.1 < entry.1) →
      emplaceEntry entry entries = entries ++ [entry]
  | [], _ => rfl
  | e :: rest, behind => by
      have after := behind e List.mem_cons_self
      rw [emplaceEntry, if_neg (not_lt.2 after.le), if_neg after.ne',
        emplaceEntry_last fun x member => behind x (List.mem_cons_of_mem e member)]
      rfl

/-- A map read entry by entry. -/
def StdMap.ofEntries (entries : List (κ × α)) : StdMap κ α where
  entries := entries.foldl (fun acc entry => emplaceEntry entry acc) []
  ascending := by
    have keeps : ∀ (entries acc : List (κ × α)), acc.Pairwise (fun a b => a.1 < b.1) →
        (entries.foldl (fun acc entry => emplaceEntry entry acc) acc).Pairwise
          fun a b => a.1 < b.1 := by
      intro entries
      induction entries with
      | nil => exact fun acc sorted => sorted
      | cons entry rest ih => exact fun acc sorted => ih _ (emplaceEntry_ascending entry sorted)
    exact keeps entries [] List.Pairwise.nil

/-- Entries in key order are taken as they come. -/
theorem foldl_emplaceEntry :
    ∀ (entries acc : List (κ × α)), (acc ++ entries).Pairwise (fun a b => a.1 < b.1) →
      entries.foldl (fun acc entry => emplaceEntry entry acc) acc = acc ++ entries
  | [], acc, _ => (List.append_nil acc).symm
  | entry :: rest, acc, sorted => by
      have behind : ∀ e ∈ acc, e.1 < entry.1 := by
        intro e member
        exact (List.pairwise_append.1 sorted).2.2 e member entry List.mem_cons_self
      rw [List.foldl_cons, emplaceEntry_last behind, foldl_emplaceEntry rest]
      · simp
      · simpa using sorted

theorem StdMap.ofEntries_entries (m : StdMap κ α) : StdMap.ofEntries m.entries = m := by
  apply StdMap.ext
  exact foldl_emplaceEntry m.entries [] m.ascending

end StdMap

instance uint32LinearOrder : LinearOrder UInt32 where
  le_refl := UInt32.le_refl
  le_trans := fun _ _ _ => UInt32.le_trans
  le_antisymm := fun _ _ => UInt32.le_antisymm
  le_total := UInt32.le_total
  lt_iff_le_not_ge := by
    intro a b
    rw [UInt32.not_le]
    exact ⟨fun before => ⟨UInt32.le_of_lt before, before⟩, And.right⟩
  toDecidableLE := inferInstance

/-- `std::map`, under a `size_tag`. -/
instance [LinearOrder κ] [Serializable δ κ] [Serializable δ α] : Serializable δ (StdMap κ α) where
  codec := (Serializable.codec : Format δ (List (κ × α))).via StdMap.entries
    (fun entries => .ok (StdMap.ofEntries entries)) fun m => by rw [StdMap.ofEntries_entries]

/-! ## Shared pointers -/

/-- `detail::msb_32bit`: an object follows. -/
def msb32bit : UInt32 := 0x80000000

/-- `detail::msb2_32bit`: the object has the static type of the pointer. -/
def msb2Of32bit : UInt32 := 0x40000000

/-- A `std::shared_ptr`, by what it points to.  No two pointers of one value share
their object: `add_device` makes a new one for every device. -/
abbrev SharedPtr (δ : Type) := Option δ

/-- `registerSharedPointer` of a pointer not seen before. -/
def registerSharedPointer : Encoder UInt8 (OutArchive δ) := fun archive =>
  (toBytes 4 (archive.currentPointerId ||| msb32bit).toNat,
    { archive with currentPointerId := archive.currentPointerId + 1 })

def saveSharedPtr [Serializable δ δ] : SharedPtr δ → Encoder UInt8 (OutArchive δ)
  | none => save (0 : UInt32)
  | some object => Encoder.all [save msb2Of32bit, registerSharedPointer, save object]

/-- The object a number stands for. -/
def getSharedPointer (id : UInt32) : Decoder UInt8 (InArchive δ) ArchiveError (SharedPtr δ) := fun (archive, stream) =>
  if id = 0 then .ok (none, archive, stream)
  else
    match archive.sharedPointerMap.lookup id with
    | some object => .ok (some object, archive, stream)
    | none => .error .exception

def setSharedPointer (id : UInt32) (object : δ) : Decoder UInt8 (InArchive δ) ArchiveError Unit :=
  modify fun (archive, stream) =>
    (⟨(id &&& ~~~ msb32bit, object) :: archive.sharedPointerMap⟩, stream)

def loadSharedPtr [Serializable δ δ] : Decoder UInt8 (InArchive δ) ArchiveError (SharedPtr δ) := do
  let nameid : UInt32 ← load
  if nameid &&& msb2Of32bit ≠ 0 then
    let id : UInt32 ← load
    if id &&& msb32bit ≠ 0 then
      let object : δ ← load
      setSharedPointer id object
      return some object
    else getSharedPointer id
  else if nameid = 0 then return none
  -- the name of a derived class, and none is registered
  else throw .exception

theorem or_msb_and_msb (id : UInt32) : (id ||| msb32bit) &&& msb32bit ≠ 0 := by
  have absorbed : (id ||| msb32bit) &&& msb32bit = msb32bit := by
    apply UInt32.toBitVec_inj.1
    apply BitVec.eq_of_getLsbD_eq
    intro i _
    simp only [UInt32.toBitVec_and, UInt32.toBitVec_or, BitVec.getLsbD_and, BitVec.getLsbD_or]
    cases id.toBitVec.getLsbD i <;> cases msb32bit.toBitVec.getLsbD i <;> rfl
  rw [absorbed]
  decide

theorem reads_load [Serializable δ α] (value : α) (archive : OutArchive δ)
    (short : (save value archive).1.length < 2 ^ 64) :
    Reads (load : Decoder UInt8 (InArchive δ) ArchiveError α) (save value archive).1 value :=
  Serializable.codec.reads value archive short

theorem reads_word (word : UInt32) :
    Reads (load : Decoder UInt8 (InArchive δ) ArchiveError UInt32) (toBytes 4 word.toNat) word :=
  reads_load word { } (by simp [save, Serializable.codec, fixedWidth])

theorem reads_setSharedPointer (id : UInt32) (object : δ) :
    Reads (setSharedPointer id object) [] () := by
  intro table rest
  exact ⟨⟨(id &&& ~~~ msb32bit, object) :: table.sharedPointerMap⟩, rfl⟩

theorem reads_loadSharedPtr [Serializable δ δ] :
    ∀ (ptr : SharedPtr δ) (archive : OutArchive δ), (saveSharedPtr ptr archive).1.length < 2 ^ 64 →
      Reads loadSharedPtr (saveSharedPtr ptr archive).1 ptr
  | none, archive, short => (reads_word 0).bind_pure rfl
  | some object, archive, short => by
      simp only [saveSharedPtr, Encoder.all, List.append_nil, List.length_append] at short ⊢
      apply (reads_word msb2Of32bit).bind
      rw [if_pos (by decide)]
      apply (reads_word _).bind
      rw [if_pos (or_msb_and_msb _)]
      apply (reads_load object _ (by omega)).bind_nil
      exact (reads_setSharedPointer _ object).bind_nil (Reads.pure _)

instance sharedPtr [Serializable δ δ] : Serializable δ (SharedPtr δ) where
  codec :=
    { write := saveSharedPtr
      read := loadSharedPtr
      nonempty := by
        intro ptr archive
        cases ptr <;> simp [saveSharedPtr, Encoder.all, save, Serializable.codec, fixedWidth]
      reads := reads_loadSharedPtr }

/-! ## Bitmaps -/

/-- The strings hwloc prints for a bitmap and scans again. -/
class BitmapText (β : Type) where
  /-- `hwloc_bitmap_asprintf`. -/
  bitmapString : β → StdString
  /-- `hwloc_bitmap_sscanf`. -/
  bitmapSscanf : StdString → Option β
  sscanf_string : ∀ b, bitmapSscanf (bitmapString b) = some b

/-- `qvi_hwloc_bitmap::load`. -/
def scanBitmap [BitmapText β] (text : StdString) : Except ArchiveError β :=
  match BitmapText.bitmapSscanf text with
  | some bitmap => .ok bitmap
  | none => .error .hwloc

/-- `qvi_hwloc_bitmap::save` and `load`. -/
def bitmapCodec [BitmapText β] : Format δ β :=
  (Serializable.codec : Format δ StdString).via BitmapText.bitmapString scanBitmap
    fun b => by rw [scanBitmap, BitmapText.sscanf_string]

/-! ## The strings of hwloc

A finite bitmap is printed as its 32-bit words, the highest first, `0x` and eight
hexadecimal digits each, with commas between them; a word that is zero is left
empty, except the last one. -/

/-- One digit of `%x`. -/
def hexDigit (d : Nat) : UInt8 := if d < 10 then UInt8.ofNat (48 + d) else UInt8.ofNat (87 + d)

def hexValue (c : UInt8) : Option Nat :=
  if 48 ≤ c.toNat ∧ c.toNat ≤ 57 then some (c.toNat - 48)
  else if 97 ≤ c.toNat ∧ c.toNat ≤ 102 then some (c.toNat - 87)
  else if 65 ≤ c.toNat ∧ c.toNat ≤ 70 then some (c.toNat - 55)
  else none

/-- The last `n` digits of a number. -/
def hexDigits : Nat → Nat → StdString
  | 0, _ => []
  | n + 1, w => hexDigits n (w / 16) ++ [hexDigit (w % 16)]

/-- What `hwloc_bitmap_snprintf` prints for one word. -/
def substring (last : Bool) (w : Nat) : StdString :=
  if w ≠ 0 then 48 :: 120 :: hexDigits 8 w else if last then [48, 120, 48] else []

/-- The words of a number, the lowest first. -/
def substrings : List Nat → List StdString
  | [] => [substring true 0]
  | w :: ws => substring true w :: ws.map (substring false)

def readDigits (digits : StdString) : Option Nat :=
  digits.foldlM (fun acc c => (hexValue c).map fun d => acc * 16 + d) 0

/-- `strtoul` to base 16, for a string that must be used up. -/
def strtoul : StdString → Option Nat
  | 48 :: 120 :: digits => readDigits digits
  | digits => readDigits digits

def asprintf (b : Bitmap) : StdString :=
  [44].intercalate (substrings (Nat.digits (2 ^ 32) (∑ i ∈ b, 2 ^ i))).reverse

def sscanf (text : StdString) : Option Bitmap := do
  let words ← (text.splitOn 44).reverse.mapM strtoul
  return (Nat.ofDigits (2 ^ 32) words).bitIndices.toFinset

theorem hexValue_hexDigit {d : Nat} (digit : d < 16) : hexValue (hexDigit d) = some d := by
  have all : ∀ d : Fin 16, hexValue (hexDigit d) = some d.val := by decide
  exact all ⟨d, digit⟩

theorem hexDigit_ne_comma {d : Nat} (digit : d < 16) : hexDigit d ≠ 44 := by
  have all : ∀ d : Fin 16, hexDigit d ≠ 44 := by decide
  exact all ⟨d, digit⟩

theorem readDigits_hexDigits : ∀ {n w : Nat}, w < 16 ^ n → readDigits (hexDigits n w) = some w
  | 0, w, small => by
      have : w = 0 := by simpa using small
      rw [this]
      rfl
  | n + 1, w, small => by
      have upper : w / 16 < 16 ^ n := by
        rw [Nat.div_lt_iff_lt_mul (by decide)]
        simpa [Nat.pow_succ] using small
      have before := readDigits_hexDigits upper
      unfold readDigits at before ⊢
      rw [hexDigits, List.foldlM_append, before]
      simp only [Option.bind_eq_bind, Option.bind_some, List.foldlM_cons, List.foldlM_nil,
        hexValue_hexDigit (Nat.mod_lt w (by decide : 0 < 16)), Option.map_some]
      simp only [Option.pure_def, Option.some.injEq]
      omega

theorem comma_notMem_hexDigits : ∀ n w : Nat, (44 : UInt8) ∉ hexDigits n w
  | 0, w => by simp [hexDigits]
  | n + 1, w => by
      rw [hexDigits, List.mem_append, List.mem_singleton]
      rintro (before | last)
      · exact comma_notMem_hexDigits n (w / 16) before
      · exact hexDigit_ne_comma (Nat.mod_lt w (by decide)) last.symm

theorem strtoul_substring (last : Bool) {w : Nat} (word : w < 2 ^ 32) :
    strtoul (substring last w) = some w := by
  by_cases zero : w = 0
  · subst zero
    cases last <;> rfl
  · rw [substring, if_pos zero]
    exact readDigits_hexDigits word

theorem comma_notMem_substring (last : Bool) (w : Nat) : (44 : UInt8) ∉ substring last w := by
  by_cases zero : w = 0
  · subst zero
    cases last <;> decide
  · rw [substring, if_pos zero]
    simp [comma_notMem_hexDigits]

theorem comma_notMem_substrings : ∀ (ws : List Nat), ∀ text ∈ substrings ws, (44 : UInt8) ∉ text
  | [], text, member => by
      rw [substrings, List.mem_singleton] at member
      rw [member]
      exact comma_notMem_substring true 0
  | w :: ws, text, member => by
      rcases List.mem_cons.1 member with rfl | member
      · exact comma_notMem_substring true w
      · obtain ⟨v, -, rfl⟩ := List.mem_map.1 member
        exact comma_notMem_substring false v

theorem substrings_ne_nil (ws : List Nat) : substrings ws ≠ [] := by
  cases ws <;> simp [substrings]

theorem mapM_strtoul_substring {ws : List Nat} (words : ∀ w ∈ ws, w < 2 ^ 32) :
    (ws.map (substring false)).mapM strtoul = some ws := by
  induction ws with
  | nil => rfl
  | cons w ws ih =>
      rw [List.map_cons, List.mapM_cons, strtoul_substring false (words w List.mem_cons_self),
        ih fun v member => words v (List.mem_cons_of_mem w member)]
      rfl

/-- The words are read back; no words are one word of zero. -/
theorem ofDigits_substrings {ws : List Nat} (words : ∀ w ∈ ws, w < 2 ^ 32) :
    ∃ vs, (substrings ws).mapM strtoul = some vs ∧
      Nat.ofDigits (2 ^ 32) vs = Nat.ofDigits (2 ^ 32) ws := by
  cases ws with
  | nil => exact ⟨[0], rfl, rfl⟩
  | cons w ws =>
      refine ⟨w :: ws, ?_, rfl⟩
      rw [substrings, List.mapM_cons, strtoul_substring true (words w List.mem_cons_self),
        mapM_strtoul_substring fun v member => words v (List.mem_cons_of_mem w member)]
      rfl

theorem sscanf_asprintf (b : Bitmap) : sscanf (asprintf b) = some b := by
  let n := ∑ i ∈ b, 2 ^ i
  have words : ∀ w ∈ Nat.digits (2 ^ 32) n, w < 2 ^ 32 := fun w => Nat.digits_lt_base (by decide)
  obtain ⟨vs, read, same⟩ := ofDigits_substrings words
  have split : (asprintf b).splitOn 44 = (substrings (Nat.digits (2 ^ 32) n)).reverse := by
    apply List.splitOn_intercalate
    · intro text member
      exact comma_notMem_substrings _ text (List.mem_reverse.1 member)
    · simp [substrings_ne_nil]
  rw [sscanf, split, List.reverse_reverse, read]
  show some (Nat.ofDigits (2 ^ 32) vs).bitIndices.toFinset = some b
  rw [same, Nat.ofDigits_digits, Finset.toFinset_bitIndices_sum_two_pow]

instance : BitmapText Bitmap where
  bitmapString := asprintf
  bitmapSscanf := sscanf
  sscanf_string := sscanf_asprintf

end QuoVadis.Kernel
