/-
  TransitRouting.Document
  ───────────────────────
  Structured data as it is read from files and written to them, whatever the
  format of the text.

  A record may be given by name, as a table, or by position, as a list of its
  fields in order.  Unknown names are ignored; a name that is known may not
  come twice.  In what else a record may contain, formats differ.
-/

namespace TransitRouting

/-- A piece of structured data. -/
inductive Datum where
  /-- Nothing. -/
  | null
  /-- A truth value. -/
  | bool (value : Bool)
  /-- A whole number. -/
  | int (value : Int)
  /-- A number with a fraction or an exponent. -/
  | float (value : Float)
  /-- A value that is well formed, but that no type holds.  It can be skipped
  and not read. -/
  | unreadable
  /-- A text. -/
  | text (value : String)
  /-- A date, a time of day, or both, as written. -/
  | moment (value : String)
  /-- A list. -/
  | list (items : List Datum)
  /-- A table of named values, in the order given. -/
  | table (fields : List (String × Datum))
deriving Inhabited

/-- What a format lays down about records and words. -/
structure Dialect where
  /-- A list may go on after the last field of a record.  Nobody looks at what
  follows. -/
  surplus : Bool
  /-- What stands under unknown names has to be readable all the same. -/
  thorough : Bool
  /-- The datum says nothing, so that a word may stand before it. -/
  isNothing : Datum → Bool

namespace Datum

/-! ## §1. Reading values. -/

mutual

/-- The datum and all within it can be read. -/
def isReadable : Datum → Bool
  | unreadable => false
  | list items => areReadable items
  | table fields => haveReadable fields
  | null | bool _ | int _ | float _ | text _ | moment _ => true

/-- All items of a list can be read. -/
def areReadable : List Datum → Bool
  | [] => true
  | d :: rest => isReadable d && areReadable rest

/-- All fields of a table can be read. -/
def haveReadable : List (String × Datum) → Bool
  | [] => true
  | (_, d) :: rest => isReadable d && haveReadable rest

end

/-- The truth value. -/
def bool? : Datum → Option Bool
  | bool b => some b
  | _ => none

/-- The whole number, if it lies within the bounds. -/
def intWithin? (least greatest : Int) : Datum → Option Int
  | int n => if least ≤ n ∧ n ≤ greatest then some n else none
  | _ => none

/-- The natural number, if it is at most `greatest`. -/
def natUpTo? (greatest : Nat) (d : Datum) : Option Nat :=
  (d.intWithin? 0 greatest).map Int.toNat

/-- A whole number of 32 bits. -/
def int32? : Datum → Option Int := intWithin? (-2147483648) 2147483647

/-- A whole number of 64 bits. -/
def int64? : Datum → Option Int := intWithin? (-9223372036854775808) 9223372036854775807

/-- A number that counts or numbers things, of 32 bits. -/
def number32? : Datum → Option Nat := natUpTo? 4294967295

/-- A number that counts things, of 64 bits. -/
def number64? : Datum → Option Nat := natUpTo? 18446744073709551615

/-- A number, whole or not.  A whole one must fit into 64 bits. -/
def float? : Datum → Option Float
  | float x => some x
  | d => (d.intWithin? (-9223372036854775808) 18446744073709551615).map Float.ofInt

/-- The text. -/
def text? : Datum → Option String
  | text s => some s
  | _ => none

/-- The items of a list, each read in the same way. -/
def listOf? {α : Type} (read : Datum → Option α) : Datum → Option (List α)
  | list items => items.mapM read
  | _ => none

/-- A value that may be nothing. -/
def optional? {α : Type} (read : Datum → Option α) : Datum → Option (Option α)
  | null => some none
  | d => (read d).map some

/-- One of a fixed set of words: the word itself, or a table in which the word
stands before nothing. -/
def word? (dialect : Dialect) : Datum → Option String
  | text s => some s
  | table [(s, d)] => if dialect.isNothing d then some s else none
  | _ => none

/-! ## §2. Reading records. -/

/-- The fields of a record with the given names: what stands under a name, or
at its place.  There are none if the datum is no record, has a known name twice,
or has more in it than the format allows.  A moment is a record without any
known name. -/
def record? (dialect : Dialect) (names : List String) : Datum → Option (String → Option Datum)
  | list items =>
    if dialect.surplus ∨ items.length ≤ names.length then
      some fun name => (names.zip items).lookup name
    else none
  | table fields =>
    let known := (fields.map (·.1)).filter names.contains
    let unknown := fields.filter fun field => !names.contains field.1
    if known.eraseDups.length = known.length ∧ (dialect.thorough → haveReadable unknown) then
      some fun name => fields.lookup name
    else none
  | moment _ => some fun _ => none
  | _ => none

/-- A field that has a value of its own if it is not given. -/
def orElse {α : Type} (standard : α) (read : Datum → Option α) (field : Option Datum) : Option α :=
  match field with
  | none => some standard
  | some d => read d

end Datum

end TransitRouting
