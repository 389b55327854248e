/-
  TransitRouting.Document.Toml.Layout
  ───────────────────────────────────
  What stands between the parts of a TOML text: blanks, line ends and comments.

  A line ends with a line feed, before which there may be a carriage return.  A
  carriage return without a line feed after it stands nowhere.
-/

namespace TransitRouting

namespace Toml

/-! ## §1. Characters. -/

/-- The character may stand in comments and texts: it is a tab or no control
character. -/
def isPlain (c : Char) : Bool := c = '\t' || (0x20 ≤ c.toNat && c.toNat ≠ 0x7F)

/-- The character is a blank. -/
def isBlank (c : Char) : Bool := c = ' ' || c = '\t'

/-! ## §2. What is skipped. -/

/-- The text without the blanks at its front. -/
def skipBlanks (cs : List Char) : List Char := cs.dropWhile isBlank

/-- The text after the line end at its front, if there is one. -/
def afterLineEnd? : List Char → Option (List Char)
  | '\n' :: rest => some rest
  | '\r' :: '\n' :: rest => some rest
  | _ => none

/-- The text without the blanks and line ends at its front. -/
def skipEmptyLines : List Char → List Char
  | [] => []
  | '\n' :: rest => skipEmptyLines rest
  | '\r' :: '\n' :: rest => skipEmptyLines rest
  | c :: rest => if isBlank c then skipEmptyLines rest else c :: rest

/-- The text without the blanks, comments and line ends at its front, unless
there is a comment with a character that may not stand there. -/
def skipLayout (inComment : Bool) : List Char → Option (List Char)
  | [] => some []
  | '\n' :: rest => skipLayout false rest
  | '\r' :: '\n' :: rest => skipLayout false rest
  | c :: rest =>
    if inComment then if isPlain c then skipLayout true rest else none
    else if c = '#' then skipLayout true rest
    else if isBlank c then skipLayout false rest
    else some (c :: rest)

/-- The text after the end of the line, up to which there may be blanks and a
comment.  The last line needs no end. -/
def endLine (cs : List Char) : Option (List Char) :=
  let rest := match skipBlanks cs with
    | '#' :: comment => comment.dropWhile isPlain
    | rest => rest
  if rest.isEmpty then some [] else afterLineEnd? rest

end Toml

end TransitRouting
