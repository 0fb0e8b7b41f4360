/-
# Theory.Codec -- values written to a stream and read back in order

An encoder turns a value into the words it puts on a stream; a decoder takes words
off the front.  Both carry a state of their own, because a format may number
what it has already seen and refer back to it.  `Reads r bytes value` says that
`r` takes exactly `bytes` off any stream that begins with them and returns
`value`, whatever it remembers.

A `Codec` is an encoder and a decoder with this law for every value whose encoding
is shorter than `N` words.  The bound is part of the law and not of the values:
a count of `N` items no longer fits its tag, but then the encoding is too long
already (`Codec.list`).

The second half is about calls with several arguments that the two sides write
down separately: `Agree fields encoders f` says that the reading side's list of
fields takes apart what the writing side's list of values put together, and
`Agree.cons` is the only rule needed to check it, one field against one value.
-/
import Mathlib.Data.List.Basic
import Mathlib.Tactic.Basic

namespace QuoVadis.Theory

set_option autoImplicit false

variable {B S T E L α β κ : Type} {N : Nat}

/-! ## Encoders and decoders -/

/-- What is put on the stream, and the state after it. -/
abbrev Encoder (B S : Type) := S → List B × S

/-- One encoder after the other. -/
def Encoder.all : List (Encoder B S) → Encoder B S
  | [], s => ([], s)
  | w :: ws, s => ((w s).1 ++ (all ws (w s).2).1, (all ws (w s).2).2)

/-- A decoder over its state and the rest of the stream. -/
abbrev Decoder (B T E : Type) := StateT (T × List B) (Except E)

/-- The decoder takes these words off every stream that begins with them. -/
def Reads (decoder : Decoder B T E α) (bytes : List B) (value : α) : Prop :=
  ∀ t rest, ∃ t', decoder (t, bytes ++ rest) = .ok (value, t', rest)

theorem Reads.pure (value : α) : Reads (Pure.pure value : Decoder B T E α) [] value := by
  intro t rest
  exact ⟨t, rfl⟩

theorem Reads.bind {decoder : Decoder B T E α} {next : α → Decoder B T E β} {first second : List B}
    {a : α} {b : β} (before : Reads decoder first a) (after : Reads (next a) second b) :
    Reads (decoder >>= next) (first ++ second) b := by
  intro t rest
  obtain ⟨t', run⟩ := before t (second ++ rest)
  obtain ⟨t'', run'⟩ := after t' rest
  refine ⟨t'', ?_⟩
  rw [List.append_assoc]
  show (decoder (t, first ++ (second ++ rest)) >>= fun x => next x.1 x.2) = _
  rw [run]
  exact run'

/-- A continuation that takes nothing more off the stream. -/
theorem Reads.bind_nil {decoder : Decoder B T E α} {next : α → Decoder B T E β} {bytes : List B}
    {a : α} {b : β} (before : Reads decoder bytes a) (after : Reads (next a) [] b) :
    Reads (decoder >>= next) bytes b := by
  have both := before.bind after
  rwa [List.append_nil] at both

theorem Reads.bind_pure {decoder : Decoder B T E α} {next : α → Decoder B T E β} {bytes : List B}
    {a : α} {b : β} (before : Reads decoder bytes a) (after : next a = Pure.pure b) :
    Reads (decoder >>= next) bytes b := by
  apply before.bind_nil
  rw [after]
  exact Reads.pure b

/-! ## Codecs -/

/-- A format for the values of a type. -/
structure Codec (B S T E : Type) (N : Nat) (α : Type) where
  write : α → Encoder B S
  read : Decoder B T E α
  nonempty : ∀ value s, 0 < (write value s).1.length
  reads : ∀ value s, (write value s).1.length < N → Reads read (write value s).1 value

namespace Codec

/-- A type that is written as another one. -/
def via (codec : Codec B S T E N α) (print : β → α) (scan : α → Except E β)
    (inverse : ∀ b, scan (print b) = .ok b) : Codec B S T E N β where
  write b := codec.write (print b)
  read := do
    let a ← codec.read
    scan a
  nonempty b s := codec.nonempty (print b) s
  reads b s short := by
    apply (codec.reads (print b) s short).bind_pure
    rw [inverse]
    rfl

/-- A pair: its first component, then its second. -/
def pair (first : Codec B S T E N α) (second : Codec B S T E N β) : Codec B S T E N (α × β) where
  write value := Encoder.all [first.write value.1, second.write value.2]
  read := do
    let a ← first.read
    let b ← second.read
    return (a, b)
  nonempty value s := by
    have := first.nonempty value.1 s
    simp only [Encoder.all, List.length_append]
    omega
  reads value s short := by
    simp only [Encoder.all, List.append_nil, List.length_append] at short ⊢
    apply (first.reads value.1 s (by omega)).bind
    exact (second.reads value.2 _ (by omega)).bind_pure rfl

/-- `n` values, one after the other. -/
def readMany (decoder : Decoder B T E α) : Nat → Decoder B T E (List α)
  | 0 => pure []
  | n + 1 => do
      let a ← decoder
      let rest ← readMany decoder n
      return a :: rest

theorem length_le_all (codec : Codec B S T E N α) :
    ∀ (values : List α) (s : S),
      values.length ≤ (Encoder.all (values.map codec.write) s).1.length
  | [], s => Nat.le_refl 0
  | a :: values, s => by
      have here := codec.nonempty a s
      have later := length_le_all codec values (codec.write a s).2
      simp only [List.map_cons, Encoder.all, List.length_cons, List.length_append]
      omega

theorem reads_readMany (codec : Codec B S T E N α) :
    ∀ (values : List α) (s : S), (Encoder.all (values.map codec.write) s).1.length < N →
      Reads (readMany codec.read values.length) (Encoder.all (values.map codec.write) s).1 values
  | [], s, _ => Reads.pure []
  | a :: values, s, short => by
      simp only [List.map_cons, Encoder.all, List.length_append] at short ⊢
      apply (codec.reads a s (by omega)).bind
      exact (reads_readMany codec values _ (by omega)).bind_pure rfl

/-- A list: the number of its items under a tag, then the items. -/
def list (tag : Codec B S T E N κ) (ofNat : Nat → κ) (toNat : κ → Nat)
    (faithful : ∀ n, n < N → toNat (ofNat n) = n) (item : Codec B S T E N α) :
    Codec B S T E N (List α) where
  write values := Encoder.all [tag.write (ofNat values.length), Encoder.all (values.map item.write)]
  read := do
    let n ← tag.read
    readMany item.read (toNat n)
  nonempty values s := by
    have := tag.nonempty (ofNat values.length) s
    simp only [Encoder.all, List.length_append]
    omega
  reads values s short := by
    simp only [Encoder.all, List.append_nil, List.length_append] at short ⊢
    have counted := item.length_le_all values (tag.write (ofNat values.length) s).2
    apply (tag.reads _ s (by omega)).bind
    rw [faithful _ (by omega)]
    exact item.reads_readMany values _ (by omega)

end Codec

/-! ## Calls with several arguments -/

/-- Read a value and put it into its variable. -/
def assign (decoder : Decoder B T E α) (put : α → L → L) : Decoder B T E (L → L) := do
  let value ← decoder
  return put value

/-- The variables are read in turn.  A field that cannot be read ends the call; the
variables before it have been assigned, the others keep what was in them. -/
def loadAll : List (Decoder B T E (L → L)) → L → T × List B → L × Except E (T × List B)
  | [], l, st => (l, .ok st)
  | field :: fields, l, st =>
      match field st with
      | .error e => (l, .error e)
      | .ok (put, st') => loadAll fields (put l) st'

/-- What the encoders put on a stream the fields take off it, and the variables then
hold what `f` makes of them. -/
def Agree (N : Nat) (fields : List (Decoder B T E (L → L))) (encoders : List (Encoder B S))
    (f : L → L) : Prop :=
  ∀ s t l rest, (Encoder.all encoders s).1.length < N →
    ∃ t', loadAll fields l (t, (Encoder.all encoders s).1 ++ rest) = (f l, .ok (t', rest))

theorem Agree.nil : Agree N ([] : List (Decoder B T E (L → L))) ([] : List (Encoder B S)) id := by
  intro s t l rest _
  exact ⟨t, rfl⟩

/-- One field against one value. -/
theorem Agree.cons {fields : List (Decoder B T E (L → L))} {encoders : List (Encoder B S)} {f : L → L}
    (codec : Codec B S T E N α) (value : α) (put : α → L → L) (later : Agree N fields encoders f) :
    Agree N (assign codec.read put :: fields) (codec.write value :: encoders) (f ∘ put value) := by
  intro s t l rest short
  simp only [Encoder.all, List.length_append] at short ⊢
  have here : Reads (assign codec.read put) (codec.write value s).1 (put value) :=
    (codec.reads value s (by omega)).bind_pure rfl
  obtain ⟨t', run⟩ := here t ((Encoder.all encoders (codec.write value s).2).1 ++ rest)
  obtain ⟨t'', run'⟩ := later (codec.write value s).2 t' (put value l) rest (by omega)
  refine ⟨t'', ?_⟩
  rw [List.append_assoc]
  simp only [loadAll, run]
  exact run'

/-! ## Variables that are all assigned -/

/-- What can be read does not depend on the variables. -/
theorem loadAll_snd :
    ∀ (fields : List (Decoder B T E (L → L))) (l l' : L) (st : T × List B),
      (loadAll fields l st).2 = (loadAll fields l' st).2
  | [], _, _, _ => rfl
  | field :: fields, l, l', st => by
      cases run : field st with
      | error e => simp only [loadAll, run]
      | ok result =>
          simp only [loadAll, run]
          exact loadAll_snd fields _ _ _

/-- If all fields can be read, then variables that were the same in the sense of `same`
hold the same values. -/
def Settles (fields : List (Decoder B T E (L → L))) (same : L → L → Prop) : Prop :=
  ∀ l l' st st', same l l' → (loadAll fields l st).2 = .ok st' →
    (loadAll fields l st).1 = (loadAll fields l' st).1

theorem Settles.nil : Settles ([] : List (Decoder B T E (L → L))) Eq := by
  intro l l' st st' same _
  exact same

theorem Settles.cons {fields : List (Decoder B T E (L → L))} {same : L → L → Prop}
    {decoder : Decoder B T E α} {put : α → L → L} (later : Settles fields same) :
    Settles (assign decoder put :: fields) fun l l' => ∀ value, same (put value l) (put value l') := by
  intro l l' st st' before run
  cases first : decoder st with
  | error e =>
      have stop : assign decoder put st = .error e := by
        show (decoder st >>= _) = _
        rw [first]
        rfl
      simp only [loadAll, stop] at run
      cases run
  | ok result =>
      have go : assign decoder put st = .ok (put result.1, result.2) := by
        show (decoder st >>= _) = _
        rw [first]
        rfl
      simp only [loadAll, go] at run ⊢
      exact later _ _ _ _ (before result.1) run

/-- Fields that assign every variable. -/
theorem Settles.all {fields : List (Decoder B T E (L → L))} {same : L → L → Prop}
    (settles : Settles fields same) (every : ∀ l l', same l l') :
    Settles fields fun _ _ => True := by
  intro l l' st st' _ run
  exact settles l l' st st' (every l l') run

end QuoVadis.Theory
