/-
  TransitRouting.Time.Clock
  ─────────────────────────
  The clock text of times and the short text of durations.

  A time is written `HH:MM:SS`, with a minus sign before it if it lies before
  midnight and with as many hour digits as it needs.  It is read from `HH:MM`
  or `HH:MM:SS` with an hour of at most 47, for service days rarely run on
  beyond the second midnight.  Length and separators are those of the text's
  UTF-8 bytes.
-/
import TransitRouting.Time

namespace TransitRouting

/-! ## §1. Why a text is no time. -/

/-- The parts of a clock reading. -/
inductive ClockField where
  | hour
  | minute
  | second
deriving DecidableEq, Repr

namespace ClockField

/-- The name of the part. -/
def name : ClockField → String
  | hour => "hour"
  | minute => "minute"
  | second => "second"

/-- The greatest reading of the part. -/
def greatest : ClockField → Nat
  | hour => 47
  | minute => 59
  | second => 59

/-- The byte position of the part's first digit. -/
def position : ClockField → Nat
  | hour => 0
  | minute => 3
  | second => 6

end ClockField

/-- What is wrong with a time or a duration. -/
inductive TimeError where
  /-- The text is neither five nor eight bytes long. -/
  | shape
  /-- The byte before the field is not a colon. -/
  | missingColon (before : ClockField)
  /-- The field is not two decimal digits. -/
  | notDigits (field : ClockField)
  /-- The field's number is too great. -/
  | outOfRange (field : ClockField)
  /-- A duration is below zero. -/
  | negativeDuration
deriving DecidableEq, Repr

namespace TimeError

/-- The reason given to the user. -/
def reason : TimeError → String
  | shape => "expected HH:MM or HH:MM:SS format"
  | missingColon before => "expected colon at position " ++ toString (before.position - 1)
  | notDigits field => "invalid " ++ field.name ++ " digits"
  | outOfRange field => field.name ++ " must be 0-" ++ toString field.greatest
  | negativeDuration => "duration must not be negative"

/-- The whole message. -/
def message (e : TimeError) : String := "invalid time: " ++ e.reason

end TimeError

/-! ## §2. Reading. -/

namespace Clock

/-- The value of a byte that is an ASCII digit. -/
def digit? (b : UInt8) : Option Nat :=
  if 48 ≤ b.toNat ∧ b.toNat ≤ 57 then some (b.toNat - 48) else none

/-- The number that two digits spell. -/
def twoDigits? (tens units : UInt8) : Option Nat := do
  let t ← digit? tens
  let u ← digit? units
  return t * 10 + u

/-- The reading of one field. -/
def readField (field : ClockField) (tens units : UInt8) : Except TimeError Nat :=
  match twoDigits? tens units with
  | none => .error (.notDigits field)
  | some n => if field.greatest < n then .error (.outOfRange field) else .ok n

/-- The byte before `field` is a colon. -/
def expectColon (field : ClockField) (b : UInt8) : Except TimeError Unit :=
  if b = 58 then .ok () else .error (.missingColon field)

/-- Hours and minutes. -/
def readHourMinute (h₁ h₂ colon m₁ m₂ : UInt8) : Except TimeError (Nat × Nat) := do
  expectColon .minute colon
  let hour ← readField .hour h₁ h₂
  let minute ← readField .minute m₁ m₂
  return (hour, minute)

/-- The time that a sequence of bytes spells. -/
def readBytes : List UInt8 → Except TimeError Time
  | [h₁, h₂, c₁, m₁, m₂] => do
    let (hour, minute) ← readHourMinute h₁ h₂ c₁ m₁ m₂
    return Time.ofClock hour minute 0
  | [h₁, h₂, c₁, m₁, m₂, c₂, s₁, s₂] => do
    let (hour, minute) ← readHourMinute h₁ h₂ c₁ m₁ m₂
    expectColon .second c₂
    let second ← readField .second s₁ s₂
    return Time.ofClock hour minute second
  | _ => .error .shape

/-! ## §3. Writing. -/

/-- The number in decimal, with a zero before it if it has one digit. -/
def twoDigits (n : Nat) : String :=
  if n < 10 then "0" ++ toString n else toString n

/-- The clock reading of a number of seconds. -/
def reading (seconds : Nat) : String :=
  twoDigits (seconds / 3600) ++ ":" ++ twoDigits (seconds % 3600 / 60) ++ ":" ++
    twoDigits (seconds % 60)

end Clock

namespace Time

/-- The time that a text in `HH:MM` or `HH:MM:SS` form spells. -/
def ofClockText (s : String) : Except TimeError Time := Clock.readBytes s.toUTF8.toList

/-- The clock text of a time. -/
def clockText (t : Time) : String :=
  (if t.seconds < 0 then "-" else "") ++ Clock.reading t.seconds.natAbs

/-- The text that marks a time as such. -/
def debugText (t : Time) : String := "Time(" ++ t.clockText ++ ")"

end Time

namespace Duration

/-- The span of exactly `n` seconds; a span below zero is refused. -/
def ofSigned (n : Int) : Except TimeError Duration :=
  if n < 0 then .error .negativeDuration else .ok (ofSeconds n)

/-- Minutes, and seconds if there are any left over. -/
def text (d : Duration) : String :=
  toString (d.seconds / 60) ++ "m" ++
    if d.seconds % 60 = 0 then "" else Clock.twoDigits (d.seconds % 60) ++ "s"

/-- The text that marks a duration as such. -/
def debugText (d : Duration) : String := "Duration(" ++ toString d.seconds ++ "s)"

end Duration

end TransitRouting
