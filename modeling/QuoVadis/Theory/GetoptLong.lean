/-
# Theory.GetoptLong -- what a command line says

`getopt_long_only` as its manual page describes it: words that start with a dash
are options, the others are moved behind them, and `--` ends the options.  A long
option is written with one dash or two and may be abbreviated while no other starts
the same way; its argument follows an equals sign or is the next word.  A word with
one dash that is no long option is a group of short ones.

`getopt` yields all that the calls return one after the other, and the words that
are left.  The kind of a word (`wordKind`) does not depend on its neighbours; only
an option that lacks its argument takes one.

* `getopt_spells`: an option written out in one of the three ways is read as itself;
* `getopt_flatten`: so is a command line of such options, with nothing left.
-/
import Mathlib.Data.List.TakeWhile
import Mathlib.Data.List.Forall2
import Mathlib.Data.List.Nodup

namespace QuoVadis.Theory

set_option autoImplicit false

universe u

abbrev Word := List Char

/-- An entry of the table of long options. -/
structure LongOption (α : Type u) where
  name : Word
  requiredArgument : Bool
  val : α

/-- What a program accepts: short options without arguments, and long options. -/
structure Options (α : Type u) where
  shorts : List (Char × α)
  longs : List (LongOption α)
  named : ∀ o ∈ longs, o.name ≠ [] ∧ '=' ∉ o.name
  distinct : (longs.map LongOption.name).Nodup

/-- What a call returns: an option with its argument, or the question mark. -/
inductive Opt (α : Type u) where
  | option (val : α) (optarg : Option Word)
  | unrecognized

/-- What a word is by itself. -/
inductive WordKind (α : Type u) where
  | operand
  | endOfOptions
  | options (read : List (Opt α))
  | wantsArgument (val : α)

/-- What the name of a long option may stand for. -/
inductive LongMatch (α : Type u) where
  | entry (o : LongOption α)
  | ambiguous
  | unknown

variable {α : Type u}

/-- An exact name, or an abbreviation of a single one. -/
def longMatch (longs : List (LongOption α)) (name : Word) : LongMatch α :=
  match longs.find? fun o => o.name = name with
  | some o => .entry o
  | none =>
      match longs.filter fun o => name.isPrefixOf o.name with
      | [] => .unknown
      | [o] => .entry o
      | _ => .ambiguous

/-- A name and what follows the first equals sign. -/
def splitValue (body : Word) : Word × Option Word :=
  (body.takeWhile (· ≠ '='), (body.dropWhile (· ≠ '=')).tail?)

/-- A word that names a long option. -/
def longWord (o : LongOption α) (value : Option Word) : WordKind α :=
  match o.requiredArgument, value with
  | false, none => .options [.option o.val none]
  | false, some _ => .options [.unrecognized]
  | true, none => .wantsArgument o.val
  | true, some value => .options [.option o.val (some value)]

/-- A group of short options. -/
def shortWord (shorts : List (Char × α)) (group : Word) : WordKind α :=
  .options (group.map fun c =>
    match shorts.lookup c with
    | some val => .option val none
    | none => .unrecognized)

def wordKind (opts : Options α) : Word → WordKind α
  | '-' :: '-' :: [] => .endOfOptions
  | '-' :: '-' :: body =>
      match longMatch opts.longs (splitValue body).1 with
      | .entry o => longWord o (splitValue body).2
      | _ => .options [.unrecognized]
  | '-' :: c :: body =>
      if body = [] ∧ (opts.shorts.lookup c).isSome then shortWord opts.shorts [c]
      else
        match longMatch opts.longs (splitValue (c :: body)).1 with
        | .entry o => longWord o (splitValue (c :: body)).2
        | .ambiguous => .options [.unrecognized]
        | .unknown =>
            if (opts.shorts.lookup c).isSome then shortWord opts.shorts (c :: body)
            else .options [.unrecognized]
  | _ => .operand

/-- The options of a command line in the order in which they are returned, and the
words that are none. -/
def getopt (opts : Options α) : List Word → List (Opt α) × List Word
  | [] => ([], [])
  | word :: rest =>
      match wordKind opts word with
      | .operand => ((getopt opts rest).1, word :: (getopt opts rest).2)
      | .endOfOptions => ([], rest)
      | .options read => (read ++ (getopt opts rest).1, (getopt opts rest).2)
      | .wantsArgument val =>
          match rest with
          | [] => ([.unrecognized], [])
          | arg :: rest => (.option val (some arg) :: (getopt opts rest).1, (getopt opts rest).2)

/-! ## Options written out -/

/-- The three ways to write a long option with its whole name. -/
inductive Spells (opts : Options α) : List Word → Opt α → Prop where
  | flag {o : LongOption α} : o ∈ opts.longs → o.requiredArgument = false →
      Spells opts ['-' :: '-' :: o.name] (.option o.val none)
  | separate {o : LongOption α} (arg : Word) : o ∈ opts.longs → o.requiredArgument = true →
      Spells opts ['-' :: '-' :: o.name, arg] (.option o.val (some arg))
  | inline {o : LongOption α} (arg : Word) : o ∈ opts.longs → o.requiredArgument = true →
      Spells opts ['-' :: '-' :: (o.name ++ '=' :: arg)] (.option o.val (some arg))

theorem Options.longMatch_name {opts : Options α} {o : LongOption α} (listed : o ∈ opts.longs) :
    longMatch opts.longs o.name = .entry o := by
  have found : (opts.longs.find? fun p => p.name = o.name) = some o := by
    cases first : opts.longs.find? fun p => p.name = o.name with
    | none =>
        have other := List.find?_eq_none.1 first o listed
        simp at other
    | some p =>
        have same : p.name = o.name := by simpa using List.find?_some first
        rw [List.inj_on_of_nodup_map opts.distinct (List.mem_of_find?_eq_some first) listed same]
  rw [longMatch, found]

theorem splitValue_name {name : Word} (noEquals : '=' ∉ name) : splitValue name = (name, none) := by
  have all : ∀ c ∈ name, (decide (c ≠ '=')) = true := by
    intro c member
    simpa using ne_of_mem_of_not_mem member noEquals
  rw [splitValue, List.takeWhile_eq_self_iff.2 all, List.dropWhile_eq_nil_iff.2 all]
  rfl

theorem splitValue_inline {name : Word} (noEquals : '=' ∉ name) (value : Word) :
    splitValue (name ++ '=' :: value) = (name, some value) := by
  have all : ∀ c ∈ name, (decide (c ≠ '=')) = true := by
    intro c member
    simpa using ne_of_mem_of_not_mem member noEquals
  rw [splitValue, List.takeWhile_append_of_pos all, List.dropWhile_append_of_pos all]
  simp

theorem wordKind_long (opts : Options α) {body : Word} (some_ : body ≠ []) :
    wordKind opts ('-' :: '-' :: body) =
      match longMatch opts.longs (splitValue body).1 with
      | .entry o => longWord o (splitValue body).2
      | _ => .options [.unrecognized] := by
  cases body with
  | nil => exact absurd rfl some_
  | cons c body => rfl

/-- An option that is written out is returned, and the rest is read as before. -/
theorem getopt_spells {opts : Options α} {words : List Word} {opt : Opt α}
    (spelled : Spells opts words opt) (rest : List Word) :
    getopt opts (words ++ rest) = (opt :: (getopt opts rest).1, (getopt opts rest).2) := by
  cases spelled with
  | @flag o listed noArg =>
      obtain ⟨some_, noEquals⟩ := opts.named o listed
      have kind : wordKind opts ('-' :: '-' :: o.name) = .options [.option o.val none] := by
        rw [wordKind_long opts some_, splitValue_name noEquals, Options.longMatch_name listed]
        simp only [longWord, noArg]
      rw [List.singleton_append, getopt, kind]
      rfl
  | @separate o arg listed wants =>
      obtain ⟨some_, noEquals⟩ := opts.named o listed
      have kind : wordKind opts ('-' :: '-' :: o.name) = .wantsArgument o.val := by
        rw [wordKind_long opts some_, splitValue_name noEquals, Options.longMatch_name listed]
        simp only [longWord, wants]
      rw [List.cons_append, List.singleton_append, getopt, kind]
  | @inline o arg listed wants =>
      obtain ⟨-, noEquals⟩ := opts.named o listed
      have kind : wordKind opts ('-' :: '-' :: (o.name ++ '=' :: arg)) =
          .options [.option o.val (some arg)] := by
        rw [wordKind_long opts (by simp), splitValue_inline noEquals, Options.longMatch_name listed]
        simp only [longWord, wants]
      rw [List.singleton_append, getopt, kind]
      rfl

/-- **A command line of options that are written out** is read as these options. -/
theorem getopt_flatten {opts : Options α} {words : List (List Word)} {read : List (Opt α)}
    (spelled : List.Forall₂ (Spells opts) words read) :
    getopt opts words.flatten = (read, []) := by
  induction spelled with
  | nil => rfl
  | cons first _ ih => rw [List.flatten_cons, getopt_spells first, ih]

end QuoVadis.Theory
