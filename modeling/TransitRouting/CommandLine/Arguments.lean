/-
  TransitRouting.CommandLine.Arguments
  ────────────────────────────────────
  The arguments of the command line.

  Every argument is an option.  An option with a value takes it after an equals
  sign or from the next argument, which must not look like an option then.  No
  option may come twice, and of `--depart` and `--arrive-by` exactly one is
  needed.
-/
import TransitRouting.Time.DateText

namespace TransitRouting

/-- The time that a journey is to keep to, as given. -/
inductive TimeGoal where
  /-- It departs at that time or later. -/
  | depart (clock : String)
  /-- It arrives at that time or earlier. -/
  | arriveBy (clock : String)
deriving DecidableEq, Repr

/-- What the command line asks for. -/
structure Arguments where
  /-- Path of the feed. -/
  feed : String
  /-- Path of the settings, if there are any. -/
  settings : Option String
  /-- Name of the stop where journeys start. -/
  origin : String
  /-- Name of the stop where journeys end. -/
  destination : String
  /-- The time to keep to. -/
  time : TimeGoal
  /-- Minutes of the window. -/
  window : Option Int
  /-- Date of the service day. -/
  date : Option Date
  /-- The greatest number of transfers. -/
  maxTransfers : Nat
  /-- Journeys are written as JSON. -/
  json : Bool
deriving DecidableEq, Repr

namespace Arguments

/-! ## §1. Options. -/

/-- Names of the options that have a value. -/
def valueNames : List String :=
  ["snapshot", "from", "to", "depart", "arrive-by", "window", "date", "max-transfers", "config"]

/-- Names of the options that have none. -/
def flagNames : List String := ["json"]

/-- The name of an option, and its value if that follows an equals sign. -/
def splitOption (arg : String) : Option (String × Option String) :=
  match arg.toList with
  | '-' :: '-' :: rest =>
    let name := String.ofList (rest.takeWhile (· ≠ '='))
    match rest.dropWhile (· ≠ '=') with
    | [] => some (name, none)
    | _ :: value => some (name, some (String.ofList value))
  | _ => none

/-- The argument can be the value of the option before it.  A lone dash can. -/
def isValue (arg : String) : Bool := arg = "-" || arg.toList.head? ≠ some '-'

/-- The options with their values, in order; a flag has an empty value.  Two
dashes alone end the options, and nothing may follow them. -/
def readOptions : List String → Option (List (String × String))
  | [] => some []
  | ["--"] => some []
  | arg :: rest =>
    match splitOption arg with
    | none => none
    | some (name, some value) =>
      if valueNames.contains name then
        (readOptions rest).map fun options => (name, value) :: options
      else none
    | some (name, none) =>
      if flagNames.contains name then
        (readOptions rest).map fun options => (name, "") :: options
      else if valueNames.contains name then
        match rest with
        | [] => none
        | value :: rest =>
          if isValue value then
            (readOptions rest).map fun options => (name, value) :: options
          else none
      else none

/-! ## §2. Values. -/

/-- A whole number of 32 bits, with or without a sign. -/
def integer? (s : String) : Option Int :=
  let n? := match s.toList with
    | '-' :: digits => (Digits.number? digits).map fun n => -(n : Int)
    | '+' :: digits => (Digits.number? digits).map Int.ofNat
    | digits => (Digits.number? digits).map Int.ofNat
  n?.filter fun n => -2147483648 ≤ n && n ≤ 2147483647

/-- A number of 64 bits that counts something; a plus may stand before it. -/
def count? (s : String) : Option Nat :=
  let n? := match s.toList with
    | '+' :: digits => Digits.number? digits
    | digits => Digits.number? digits
  n?.filter (· ≤ 18446744073709551615)

/-- The path of a file; it is not empty. -/
def path? (s : String) : Option String := if s.isEmpty then none else some s

/-- A value that may be missing, but not malformed. -/
def optional? {α : Type} (read : String → Option α) : Option String → Option (Option α)
  | none => some none
  | some s => (read s).map some

/-- Exactly one of the two times. -/
def timeGoal? : Option String → Option String → Option TimeGoal
  | some clock, none => some (.depart clock)
  | none, some clock => some (.arriveBy clock)
  | _, _ => none

/-! ## §3. The whole command line. -/

/-- What the arguments ask for, unless there is something wrong with them. -/
def parse? (args : List String) : Option Arguments := do
  let options ← readOptions args
  let names := options.map (·.1)
  -- No option comes twice.
  if names.eraseDups.length ≠ names.length then none
  else
    let value (name : String) : Option String := options.lookup name
    let feed ← (value "snapshot").bind path?
    let settings ← optional? path? (value "config")
    let origin ← value "from"
    let destination ← value "to"
    let time ← timeGoal? (value "depart") (value "arrive-by")
    let window ← optional? integer? (value "window")
    let date ← optional? Date.ofText? (value "date")
    let maxTransfers ← optional? count? (value "max-transfers")
    return { feed, settings, origin, destination, time, window, date
             maxTransfers := maxTransfers.getD 5
             json := (value "json").isSome }

end Arguments

end TransitRouting
