/-
  TransitRouting.Document.Toml.Text
  ─────────────────────────────────
  Texts in quotes, as TOML has them.

  A text in double quotes may have escapes in it, one in single quotes stands as
  it is.  Either may be written on several lines between three quotes on each
  side.  A line end right after the first three is no part of the text.  Up to
  two quotes that are part of it may stand right before the last three.
-/
import TransitRouting.Document.Toml.Layout
import TransitRouting.Number.Digits

namespace TransitRouting

namespace Toml

/-! ## §1. Escapes. -/

/-- The character that a letter after a backslash stands for. -/
def escape? : Char → Option Char
  | '"' => some '"'
  | '\\' => some '\\'
  | 'b' => some '\x08'
  | 'e' => some '\x1b'
  | 'f' => some '\x0c'
  | 'n' => some '\n'
  | 'r' => some '\r'
  | 't' => some '\t'
  | _ => none

/-- How many digits of a character's code follow a letter after a backslash. -/
def codeDigits? : Char → Option Nat
  | 'x' => some 2
  | 'u' => some 4
  | 'U' => some 8
  | _ => none

/-- What a backslash and the text after it stand for. -/
def readEscape : List Char → Option (Char × List Char)
  | [] => none
  | c :: rest =>
    match codeDigits? c with
    | none => (escape? c).map fun c => (c, rest)
    | some count =>
      match Digits.hex? count 0 rest with
      | none => none
      | some (code, rest) => if code.isValidChar then some (Char.ofNat code, rest) else none

/-! ## §2. Texts of one line. -/

/-- The rest of a text in double quotes.  Each step takes characters from the
front; `fuel` is at least their number. -/
def readBasic : Nat → List Char → List Char → Option (String × List Char)
  | 0, _, _ => none
  | _, _, [] => none
  | _, done, '"' :: rest => some (String.ofList done.reverse, rest)
  | fuel + 1, done, '\\' :: rest =>
    match readEscape rest with
    | some (c, rest) => readBasic fuel (c :: done) rest
    | none => none
  | fuel + 1, done, c :: rest => if isPlain c then readBasic fuel (c :: done) rest else none

/-- The rest of a text in single quotes. -/
def readLiteral (done : List Char) : List Char → Option (String × List Char)
  | [] => none
  | '\'' :: rest => some (String.ofList done.reverse, rest)
  | c :: rest => if isPlain c then readLiteral (c :: done) rest else none

/-- A text of one line. -/
def readLine : List Char → Option (String × List Char)
  | '"' :: rest => readBasic (rest.length + 1) [] rest
  | '\'' :: rest => readLiteral [] rest
  | _ => none

/-! ## §3. Texts of several lines. -/

/-- Ends a text at three quotes that stand before `rest`.  If up to two more
quotes follow, the text takes in as many, for the last three of all end it. -/
def closeLines (quote : Char) (done rest : List Char) : String × List Char :=
  let quotes := (rest.take 2).takeWhile (· = quote)
  (String.ofList (done.reverse ++ quotes), rest.drop quotes.length)

/-- The rest of a text of several lines in double quotes.  A backslash at the
end of a line joins it to the next line that is not empty.  Each step takes
characters from the front; `fuel` is at least their number. -/
def readBasicLines : Nat → List Char → List Char → Option (String × List Char)
  | 0, _, _ => none
  | _, _, [] => none
  | _, done, '"' :: '"' :: '"' :: rest => some (closeLines '"' done rest)
  | fuel + 1, done, '\\' :: rest =>
    match afterLineEnd? (skipBlanks rest) with
    | some rest => readBasicLines fuel done (skipEmptyLines rest)
    | none =>
      match readEscape rest with
      | some (c, rest) => readBasicLines fuel (c :: done) rest
      | none => none
  | fuel + 1, done, '\r' :: '\n' :: rest => readBasicLines fuel ('\n' :: '\r' :: done) rest
  | fuel + 1, done, c :: rest =>
    if isPlain c ∨ c = '\n' then readBasicLines fuel (c :: done) rest else none

/-- The rest of a text of several lines in single quotes. -/
def readLiteralLines (done : List Char) : List Char → Option (String × List Char)
  | [] => none
  | '\'' :: '\'' :: '\'' :: rest => some (closeLines '\'' done rest)
  | '\r' :: '\n' :: rest => readLiteralLines ('\n' :: '\r' :: done) rest
  | c :: rest => if isPlain c ∨ c = '\n' then readLiteralLines (c :: done) rest else none

/-- A text of one line or of several. -/
def readText : List Char → Option (String × List Char)
  | '"' :: '"' :: '"' :: rest =>
    readBasicLines (rest.length + 1) [] ((afterLineEnd? rest).getD rest)
  | '\'' :: '\'' :: '\'' :: rest => readLiteralLines [] ((afterLineEnd? rest).getD rest)
  | cs => readLine cs

end Toml

end TransitRouting
