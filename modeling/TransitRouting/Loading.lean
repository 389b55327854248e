/-
  TransitRouting.Loading
  ──────────────────────
  Timetables and settings from files.

  A timetable comes from a feed in JSON, settings come from TOML.  A file is
  given by its path and its content, and has no content if it cannot be read.
  The content has to be UTF-8.
-/
import TransitRouting.Document.Json
import TransitRouting.Document.Records
import TransitRouting.Document.Toml
import TransitRouting.Timetable

namespace TransitRouting

/-- Why a file cannot be loaded. -/
inductive LoadError where
  /-- There is no such file, or it holds no text. -/
  | unreadable (path : String)
  /-- The text spells no feed. -/
  | badFeed (path : String)
  /-- The text spells no settings. -/
  | badSettings (path : String)
  /-- The feed is refused. -/
  | invalidFeed (path : String) (error : FeedError)
deriving DecidableEq, Repr

namespace LoadError

/-- The message for the user. -/
def message : LoadError → String
  | unreadable path => "failed to read " ++ path
  | badFeed path => "failed to parse snapshot " ++ path
  | badSettings path => "failed to parse config " ++ path
  | invalidFeed path e => "invalid snapshot " ++ path ++ ": " ++ e.message

end LoadError

/-- The text of a file. -/
def fileText (path : String) (content : Option ByteArray) : Except LoadError String :=
  match content.bind String.fromUTF8? with
  | some text => .ok text
  | none => .error (.unreadable path)

/-- The timetable of a file. -/
def Timetable.load (path : String) (content : Option ByteArray) : Except LoadError Timetable := do
  let text ← fileText path content
  match (Json.parse? text).bind (Feed.ofDatum? Json.dialect) with
  | none => throw (.badFeed path)
  | some feed => feed.compile.mapError (.invalidFeed path)

/-- The settings of a file. -/
def Settings.load (path : String) (content : Option ByteArray) : Except LoadError Settings := do
  let text ← fileText path content
  match (Toml.parse? text).bind (Settings.ofDatum? Toml.dialect) with
  | none => throw (.badSettings path)
  | some settings => return settings

end TransitRouting
