/-
  TransitRouting.Document.JsonText
  ────────────────────────────────
  Writing data as JSON text, laid out over several lines.

  Every item of a list and every field of a table has a line of its own, two
  blanks further in than the brackets around it.  A list or a table without
  content is a pair of brackets.
-/
import TransitRouting.Document
import TransitRouting.Number.Decimal

namespace TransitRouting

namespace JsonText

/-- The digit of a value below sixteen. -/
def hexDigit (n : Nat) : Char :=
  if n < 10 then Char.ofNat ('0'.toNat + n) else Char.ofNat ('a'.toNat + n - 10)

/-- A character as it stands in a text. -/
def escape (c : Char) : List Char :=
  if c = '"' then ['\\', '"']
  else if c = '\\' then ['\\', '\\']
  else if c = '\x08' then ['\\', 'b']
  else if c = '\x0c' then ['\\', 'f']
  else if c = '\n' then ['\\', 'n']
  else if c = '\r' then ['\\', 'r']
  else if c = '\t' then ['\\', 't']
  else if c.toNat < 0x20 then
    ['\\', 'u', '0', '0', hexDigit (c.toNat / 16), hexDigit (c.toNat % 16)]
  else [c]

/-- A text in quotes. -/
def quote (s : String) : String := "\"" ++ String.ofList (s.toList.flatMap escape) ++ "\""

/-- A number that is not whole is written with a point. -/
def floatText (x : Float) : String :=
  if x.isFinite then
    let digits := decimalText x
    if digits.toList.contains '.' then digits else digits ++ ".0"
  else "null"

/-- A new line that starts `depth` steps in. -/
def newLine (depth : Nat) : String := "\n" ++ String.ofList (List.replicate (2 * depth) ' ')

/-- Parts between brackets, each on a line of its own. -/
def block (depth : Nat) (first last : String) (parts : List String) : String :=
  if parts.isEmpty then first ++ last
  else
    first ++ newLine (depth + 1) ++ ("," ++ newLine (depth + 1)).intercalate parts ++
      newLine depth ++ last

mutual

/-- The text of a value that stands `depth` steps in. -/
def render (depth : Nat) : Datum → String
  | .null => "null"
  | .bool b => if b then "true" else "false"
  | .int n => toString n
  | .float x => floatText x
  | .unreadable => "null"
  | .text s => quote s
  | .moment s => quote s
  | .list items => block depth "[" "]" (renderItems (depth + 1) items)
  | .table fields => block depth "\x7b" "\x7d" (renderFields (depth + 1) fields)

/-- The texts of the items of a list. -/
def renderItems (depth : Nat) : List Datum → List String
  | [] => []
  | d :: rest => render depth d :: renderItems depth rest

/-- The texts of the fields of a table. -/
def renderFields (depth : Nat) : List (String × Datum) → List String
  | [] => []
  | (name, d) :: rest => (quote name ++ ": " ++ render depth d) :: renderFields depth rest

end

end JsonText

/-- The data as JSON text. -/
def Datum.json (d : Datum) : String := JsonText.render 0 d

end TransitRouting
