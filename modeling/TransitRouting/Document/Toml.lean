/-
  TransitRouting.Document.Toml
  ────────────────────────────
  Reading TOML text.

  A text is a list of statements: headers of tables, and keys with their values.
  Every reader of a part takes the text that is left and gives what it has read
  and the text after it.

  Lists and tables that are written out within one another, and the names of a
  key, may go 80 deep.
-/
import TransitRouting.Document.Toml.Moment
import TransitRouting.Document.Toml.Numeral
import TransitRouting.Document.Toml.Outline
import TransitRouting.Document.Toml.Text

namespace TransitRouting

namespace Toml

/-- How deep lists and tables may be nested, and how many names a key may
have. -/
def depthLimit : Nat := 80

/-! ## §1. Keys. -/

/-- The character may stand in a name without quotes. -/
def isBare (c : Char) : Bool :=
  ('a' ≤ c && c ≤ 'z') || ('A' ≤ c && c ≤ 'Z') || ('0' ≤ c && c ≤ '9') || c = '_' || c = '-'

/-- A name: a text of one line, or characters without quotes. -/
def readName (cs : List Char) : Option (String × List Char) :=
  let name := cs.takeWhile isBare
  if name.isEmpty then readLine cs else some (String.ofList name, cs.dropWhile isBare)

/-- A key: at most `count` names with points between them. -/
def readNames : Nat → List String → List Char → Option (Key × List Char)
  | 0, _, _ => none
  | count + 1, path, cs =>
    match readName (skipBlanks cs) with
    | none => none
    | some (name, rest) =>
      match skipBlanks rest with
      | '.' :: rest => readNames count (name :: path) rest
      | rest => some (⟨path.reverse, name⟩, rest)

/-- A key. -/
def readKey (cs : List Char) : Option (Key × List Char) := readNames depthLimit [] cs

/-! ## §2. Values. -/

/-- A value without parts: a truth value, a text, a moment or a number. -/
def readScalar : List Char → Option (Datum × List Char)
  | 't' :: 'r' :: 'u' :: 'e' :: rest => some (.bool true, rest)
  | 'f' :: 'a' :: 'l' :: 's' :: 'e' :: rest => some (.bool false, rest)
  | cs =>
    ((readText cs).map fun (s, rest) => (.text s, rest)).or <|
      ((readMoment cs).map fun (s, rest) => (.moment s, rest)).or (readNumber cs)

mutual

/-- A value in which lists and tables are nested at most `depth` deep.  A
character opens at most one value, one list and one key, so `fuel` of three
times the number of characters is enough. -/
def readValue : Nat → Nat → List Char → Option (Datum × List Char)
  | 0, _, _ => none
  | fuel + 1, depth + 1, '[' :: rest =>
    (readItems fuel depth [] rest).map fun (items, rest) => (.list items, rest)
  | fuel + 1, depth + 1, '\x7b' :: rest =>
    match readEntries fuel depth [] rest with
    | none => none
    | some (entries, rest) => (Fields.ofAssignments? entries).map fun d => (d, rest)
  | _, _, cs => readScalar cs

/-- The items of a list, up to its closing bracket.  A comma may follow the last
of them. -/
def readItems : Nat → Nat → List Datum → List Char → Option (List Datum × List Char)
  | 0, _, _, _ => none
  | fuel + 1, depth, done, cs =>
    match skipLayout false cs with
    | none => none
    | some (']' :: rest) => some (done.reverse, rest)
    | some rest =>
      match readValue fuel depth rest with
      | none => none
      | some (item, rest) =>
        match skipLayout false rest with
        | some (',' :: rest) => readItems fuel depth (item :: done) rest
        | some (']' :: rest) => some ((item :: done).reverse, rest)
        | _ => none

/-- The keys and values of a table that is written out, up to its closing brace.
A comma may follow the last of them. -/
def readEntries : Nat → Nat → List (Key × Datum) → List Char →
    Option (List (Key × Datum) × List Char)
  | 0, _, _, _ => none
  | fuel + 1, depth, done, cs =>
    match skipLayout false cs with
    | none => none
    | some ('\x7d' :: rest) => some (done.reverse, rest)
    | some rest =>
      match readEntry fuel depth rest with
      | none => none
      | some (entry, rest) =>
        match skipLayout false rest with
        | some (',' :: rest) => readEntries fuel depth (entry :: done) rest
        | some ('\x7d' :: rest) => some ((entry :: done).reverse, rest)
        | _ => none

/-- A key and its value in a table that is written out.  There may be comments
and line ends on either side of the equals sign. -/
def readEntry : Nat → Nat → List Char → Option ((Key × Datum) × List Char)
  | 0, _, _ => none
  | fuel + 1, depth, cs => do
    let (key, rest) ← readKey cs
    match ← skipLayout false rest with
    | '=' :: rest =>
      let (d, rest) ← readValue fuel depth (← skipLayout false rest)
      return ((key, d), rest)
    | _ => none

end

/-! ## §3. Statements. -/

/-- A key and its value as a statement.  The equals sign and the beginning of the
value stand on the line of the key. -/
def readAssignment (cs : List Char) : Option (Statement × List Char) :=
  match readKey cs with
  | some (key, '=' :: rest) =>
    (readValue (3 * rest.length + 3) depthLimit (skipBlanks rest)).map fun (d, rest) =>
      (.assignment key d, rest)
  | _ => none

/-- A header up to its closing brackets. -/
def readHeader (closing : List Char) (cs : List Char) : Option (Key × List Char) :=
  match readKey cs with
  | some (key, rest) =>
    if closing.isPrefixOf rest then some (key, rest.drop closing.length) else none
  | none => none

/-- A statement. -/
def readStatement : List Char → Option (Statement × List Char)
  | '[' :: '[' :: rest =>
    (readHeader [']', ']'] rest).map fun (key, rest) => (.item key, rest)
  | '[' :: rest => (readHeader [']'] rest).map fun (key, rest) => (.table key, rest)
  | cs => readAssignment cs

/-- The statements of a text, each on lines of its own.  Each step takes a
statement from the front; `fuel` is greater than their number. -/
def readStatements : Nat → List Char → Option (List Statement)
  | 0, _ => none
  | fuel + 1, cs =>
    match skipLayout false cs with
    | none => none
    | some [] => some []
    | some rest => do
      let (statement, rest) ← readStatement rest
      let rest ← endLine rest
      let others ← readStatements fuel rest
      return statement :: others

/-- A list may hold more than a record has fields; all else has to be readable;
and a word may stand before an empty list or table. -/
def dialect : Dialect :=
  { surplus := true
    thorough := true
    isNothing := fun d => match d with
      | .list [] | .table [] => true
      | _ => false }

/-- The table that a text spells.  A byte order mark before it is no part of
it. -/
def parse? (s : String) : Option Datum :=
  let cs := match s.toList with
    | '\uFEFF' :: rest => rest
    | cs => cs
  (readStatements (cs.length + 1) cs).bind tableOf?

end Toml

end TransitRouting
