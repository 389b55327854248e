/-
  TransitRouting.Document.Toml.Moment
  ───────────────────────────────────
  Dates and times of day, as TOML has them.

  A date is a year, a month and a day that the calendar has, with dashes between
  them.  A time of day has colons between its parts; it may leave out seconds,
  and may go on with a fraction of them.  A date and a time may stand together,
  and then an offset may follow.
-/
import TransitRouting.Number.Digits
import TransitRouting.Time.Calendar

namespace TransitRouting

namespace Toml

/-! ## §1. Parts. -/

/-- A number of exactly `count` digits at the front of a text, and the rest. -/
def readFixed (count : Nat) (cs : List Char) : Option (Nat × List Char) :=
  let (digits, rest) := Digits.spanUpTo count cs
  if digits.length = count then some (Digits.number 10 digits, rest) else none

/-- The text after a given character at its front. -/
def after? (c : Char) : List Char → Option (List Char)
  | [] => none
  | d :: rest => if d = c then some rest else none

/-- The text after a number of two digits that is at most `greatest`. -/
def skipUpTo? (greatest : Nat) (cs : List Char) : Option (List Char) :=
  match readFixed 2 cs with
  | some (n, rest) => if n ≤ greatest then some rest else none
  | none => none

/-- The text after a fraction of a second, if there is a point. -/
def skipFraction? : List Char → Option (List Char)
  | '.' :: rest =>
    match Digits.span rest with
    | ([], _) => none
    | (_, rest) => some rest
  | rest => some rest

/-! ## §2. Dates and times. -/

/-- The text after a date. -/
def skipDate? (cs : List Char) : Option (List Char) := do
  let (year, cs) ← readFixed 4 cs
  let (month, cs) ← readFixed 2 (← after? '-' cs)
  let (day, cs) ← readFixed 2 (← after? '-' cs)
  if (Date.ofParts? year month day).isSome then some cs else none

/-- The text after hours and minutes. -/
def skipMinutes? (cs : List Char) : Option (List Char) := do
  skipUpTo? 59 (← after? ':' (← skipUpTo? 23 cs))

/-- The text after a time of day.  A minute may have a leap second. -/
def skipTime? (cs : List Char) : Option (List Char) := do
  match ← skipMinutes? cs with
  | ':' :: rest => skipFraction? (← skipUpTo? 60 rest)
  | rest => return rest

/-- The text after an offset, if there is one. -/
def skipOffset? : List Char → Option (List Char)
  | [] => some []
  | c :: rest =>
    if c = 'Z' ∨ c = 'z' then some rest
    else if c = '+' ∨ c = '-' then skipMinutes? rest
    else some (c :: rest)

/-- The text after what joins a time to a date, if there is a time. -/
def afterJoint? : List Char → Option (List Char)
  | [] => none
  | c :: rest =>
    if c = 'T' ∨ c = 't' then some rest
    -- A blank may also be what follows the value.
    else if c = ' ' ∧ !(Digits.span rest).1.isEmpty then some rest
    else none

/-- The text after a date, a time of day, or both. -/
def skipMoment? (cs : List Char) : Option (List Char) :=
  match skipDate? cs with
  | none => skipTime? cs
  | some rest =>
    match afterJoint? rest with
    | none => some rest
    | some rest => (skipTime? rest).bind skipOffset?

/-- A date, a time of day, or both, as written. -/
def readMoment (cs : List Char) : Option (String × List Char) :=
  (skipMoment? cs).map fun rest => (String.ofList (cs.take (cs.length - rest.length)), rest)

end Toml

end TransitRouting
