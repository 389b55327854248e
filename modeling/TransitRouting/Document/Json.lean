/-
  TransitRouting.Document.Json
  ────────────────────────────
  Reading JSON text.

  The reader accepts the grammar of JSON and nothing else: no comments and no
  trailing commas.  Every reader of a part takes the text that is left and
  gives what it has read and the text after it.

  Some values follow the grammar, but no type holds them: a number that is too
  great, a text with an unpaired surrogate, and a table in which such a text is
  a name.  They do no harm where nobody reads them.

  A number without fraction and exponent is a whole number if it fits into 64
  bits, and minus zero is not whole.  The digits of any other number are taken
  as a whole number of 64 bits, as far as they fit; it is rounded and then
  scaled by a power of ten, which rounds once more.
-/
import TransitRouting.Document
import TransitRouting.Number.Digits

namespace TransitRouting

namespace Json

/-! ## §1. Numbers. -/

/-- The greatest whole number of 64 bits. -/
def greatestWhole : Nat := 18446744073709551615

/-- Takes in digits as long as they fit into 64 bits.  Gives the number and the
digits that are left. -/
def takeDigits : Nat → List Nat → Nat × List Nat
  | n, [] => (n, [])
  | n, d :: rest =>
    if n * 10 + d ≤ greatestWhole then takeDigits (n * 10 + d) rest else (n, d :: rest)

/-- The number `n · 10 ^ exponent`, unless it is too great. -/
def scale? (n : Nat) (exponent : Int) : Option Float :=
  let x := Float.ofNat n
  let power (k : Nat) : Float := Float.ofScientific 1 false k
  if 0 ≤ exponent then
    if n = 0 then some x
    else if 308 < exponent then none
    else
      let y := x * power exponent.toNat
      if y.isFinite then some y else none
  else if -308 ≤ exponent then some (x / power (-exponent).toNat)
  -- The power itself would be too great, but two steps get there.
  else if -616 ≤ exponent then some (x / power 308 / power (-exponent - 308).toNat)
  else some 0.0

/-- The parts of a number as written. -/
structure Numeral where
  /-- There is a minus sign. -/
  negative : Bool
  /-- Digits before the point. -/
  whole : List Nat
  /-- Digits after the point; none if there is no point. -/
  fraction : Option (List Nat)
  /-- The exponent, if there is one. -/
  exponent : Option Int

namespace Numeral

/-- The number with a fraction or an exponent. -/
def toFloat (m : Numeral) : Datum :=
  let (n, left) := takeDigits 0 m.whole
  let (n, unread) := takeDigits n (m.fraction.getD [])
  -- Digits left over before the point scale up, those taken in after it scale down.
  let places := (m.fraction.getD []).length - unread.length
  match scale? n ((left.length : Int) - (places : Int) + m.exponent.getD 0) with
  | some x => .float (if m.negative then -x else x)
  | none => .unreadable

/-- The number. -/
def toDatum (m : Numeral) : Datum :=
  match m.fraction, m.exponent with
  | none, none =>
    let n := Digits.number 10 m.whole
    if m.negative then
      -- The least whole number of 64 bits has no positive counterpart.
      if 1 ≤ n ∧ n ≤ 9223372036854775808 then .int (-(n : Int)) else m.toFloat
    else if n ≤ greatestWhole then .int n
    else m.toFloat
  | _, _ => m.toFloat

end Numeral

/-- A point and the digits after it, if there is a point. -/
def readFraction : List Char → Option (Option (List Nat) × List Char)
  | '.' :: rest =>
    match Digits.span rest with
    | ([], _) => none
    | (digits, rest) => some (some digits, rest)
  | rest => some (none, rest)

/-- The digits of an exponent. -/
def readExponentDigits (negative : Bool) (cs : List Char) : Option (Option Int × List Char) :=
  match Digits.span cs with
  | ([], _) => none
  | (digits, rest) =>
    let n : Int := Digits.number 10 digits
    some (some (if negative then -n else n), rest)

/-- An exponent, if there is one. -/
def readExponent : List Char → Option (Option Int × List Char)
  | c :: rest =>
    if c = 'e' ∨ c = 'E' then
      match rest with
      | '+' :: rest => readExponentDigits false rest
      | '-' :: rest => readExponentDigits true rest
      | rest => readExponentDigits false rest
    else some (none, c :: rest)
  | [] => some (none, [])

/-- A number.  Its whole part has no leading zeros. -/
def readNumber (cs : List Char) : Option (Datum × List Char) := do
  let (negative, cs) := match cs with
    | '-' :: rest => (true, rest)
    | _ => (false, cs)
  let (whole, cs) := Digits.span cs
  if whole.isEmpty ∨ (whole.head? = some 0 ∧ 1 < whole.length) then none
  else
    let (fraction, cs) ← readFraction cs
    let (exponent, cs) ← readExponent cs
    return ((Numeral.mk negative whole fraction exponent).toDatum, cs)

/-! ## §2. Texts. -/

/-- The character that a letter after a backslash stands for. -/
def escape? : Char → Option Char
  | '"' => some '"'
  | '\\' => some '\\'
  | '/' => some '/'
  | 'b' => some '\x08'
  | 'f' => some '\x0c'
  | 'n' => some '\n'
  | 'r' => some '\r'
  | 't' => some '\t'
  | _ => none

/-- The character with a given code, or with the codes of two surrogates. -/
def surrogates? (high low : Nat) : Option Char :=
  if 0xD800 ≤ high ∧ high ≤ 0xDBFF ∧ 0xDC00 ≤ low ∧ low ≤ 0xDFFF then
    some (Char.ofNat (0x10000 + (high - 0xD800) * 0x400 + (low - 0xDC00)))
  else none

/-- The rest of a text, up to its closing quote.  The text is missing if a
surrogate in it is not paired.  Each step takes characters from the front;
`fuel` is at least their number. -/
def readText : Nat → Option (List Char) → List Char → Option (Option String × List Char)
  | 0, _, _ => none
  | _, _, [] => none
  | _, done, '"' :: rest => some (done.map fun cs => String.ofList cs.reverse, rest)
  | fuel + 1, done, '\\' :: 'u' :: rest =>
    match Digits.hex? 4 0 rest with
    | none => none
    | some (code, rest) =>
      if 0xD800 ≤ code ∧ code ≤ 0xDFFF then
        match readLowSurrogate code rest with
        -- A pair of surrogates is one character.
        | some (c, rest) => readText fuel (done.map (c :: ·)) rest
        | none => readText fuel none rest
      else readText fuel (done.map (Char.ofNat code :: ·)) rest
  | fuel + 1, done, '\\' :: c :: rest =>
    match escape? c with
    | some c => readText fuel (done.map (c :: ·)) rest
    | none => none
  | fuel + 1, done, c :: rest =>
    if c = '\\' ∨ c.toNat < 0x20 then none else readText fuel (done.map (c :: ·)) rest
where
  /-- The second half of a pair of surrogates. -/
  readLowSurrogate (high : Nat) : List Char → Option (Char × List Char)
    | '\\' :: 'u' :: rest =>
      match Digits.hex? 4 0 rest with
      | none => none
      | some (low, rest) => (surrogates? high low).map fun c => (c, rest)
    | _ => none

/-! ## §3. Values. -/

/-- The text without the blanks at its front. -/
def skipBlanks (cs : List Char) : List Char :=
  cs.dropWhile fun c => c = ' ' || c = '\n' || c = '\t' || c = '\r'

/-- The rest after a given beginning. -/
def skip? : List Char → List Char → Option (List Char)
  | [], cs => some cs
  | p :: ps, c :: cs => if p = c then skip? ps cs else none
  | _ :: _, [] => none

mutual

/-- A value.  A character opens at most one value and one list, so `fuel` that
starts above twice the number of characters stays above it. -/
def readValue : Nat → List Char → Option (Datum × List Char)
  | 0, _ => none
  | fuel + 1, cs =>
    match skipBlanks cs with
    | 'n' :: rest => (skip? ['u', 'l', 'l'] rest).map fun rest => (.null, rest)
    | 't' :: rest => (skip? ['r', 'u', 'e'] rest).map fun rest => (.bool true, rest)
    | 'f' :: rest => (skip? ['a', 'l', 's', 'e'] rest).map fun rest => (.bool false, rest)
    | '"' :: rest =>
      (readText fuel (some []) rest).map fun (s, rest) =>
        ((s.map Datum.text).getD .unreadable, rest)
    | '[' :: rest =>
      match skipBlanks rest with
      | ']' :: rest => some (.list [], rest)
      | rest => (readItems fuel [] rest).map fun (items, rest) => (.list items, rest)
    | '\x7b' :: rest =>
      match skipBlanks rest with
      | '\x7d' :: rest => some (.table [], rest)
      | rest =>
        (readFields fuel (some []) rest).map fun (fields, rest) =>
          ((fields.map Datum.table).getD .unreadable, rest)
    | rest => readNumber rest

/-- The items of a list, up to its closing bracket. -/
def readItems : Nat → List Datum → List Char → Option (List Datum × List Char)
  | 0, _, _ => none
  | fuel + 1, done, cs =>
    match readValue fuel cs with
    | none => none
    | some (item, rest) =>
      match skipBlanks rest with
      | ',' :: rest => readItems fuel (item :: done) rest
      | ']' :: rest => some ((item :: done).reverse, rest)
      | _ => none

/-- The fields of a table, up to its closing brace.  They are missing if a name
is. -/
def readFields : Nat → Option (List (String × Datum)) → List Char →
    Option (Option (List (String × Datum)) × List Char)
  | 0, _, _ => none
  | fuel + 1, done, cs =>
    match skipBlanks cs with
    | '"' :: rest =>
      match readText fuel (some []) rest with
      | none => none
      | some (name, rest) =>
        match skipBlanks rest with
        | ':' :: rest =>
          match readValue fuel rest with
          | none => none
          | some (value, rest) =>
            let done := name.bind fun name => done.map ((name, value) :: ·)
            match skipBlanks rest with
            | ',' :: rest => readFields fuel done rest
            | '\x7d' :: rest => some (done.map List.reverse, rest)
            | _ => none
        | _ => none
    | _ => none

end

/-- A list has no more items than a record has fields, nobody reads what stands
under unknown names, and a word may stand before null. -/
def dialect : Dialect :=
  { surplus := false
    thorough := false
    isNothing := fun d => match d with
      | .null => true
      | _ => false }

/-- The value that a text spells. -/
def parse? (s : String) : Option Datum :=
  let cs := s.toList
  match readValue (2 * cs.length + 2) cs with
  | some (d, rest) => if (skipBlanks rest).isEmpty then some d else none
  | none => none

end Json

end TransitRouting
