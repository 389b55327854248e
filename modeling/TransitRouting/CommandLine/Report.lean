/-
  TransitRouting.CommandLine.Report
  ─────────────────────────────────
  The journeys of a response, written for people or as JSON.

  A journey has a line of its own, and below it one for each ride and each
  walk.  The ways from the origin and to the destination are left out.
-/
import TransitRouting.Document.JsonText
import TransitRouting.Document.Records
import TransitRouting.Search
import TransitRouting.Time.Calendar

namespace TransitRouting

/-- A time: on the calendar if the date of its service day is known and the
calendar reaches that far, otherwise on the clock. -/
def Time.report (date : Option Date) (t : Time) : String :=
  match date.bind t.on? with
  | some moment => moment.text
  | none => t.clockText

/-- The line of a leg. -/
def Leg.report (t : Timetable) (date : Option Date) : Leg → Option String
  | ride l =>
    some ("   " ++ l.boardTime.report date ++ " " ++ t.stopName l.boardStop ++ " -> " ++
      l.alightTime.report date ++ " " ++ t.stopName l.alightStop ++
      "  [" ++ t.tripName l.tripId ++ "]")
  | walk l =>
    some ("   walk " ++ t.stopName l.origin ++ " -> " ++ t.stopName l.destination ++
      " (" ++ l.duration.text ++ ")")
  | access _ | egress _ => none

/-- The lines of the journey with the given number. -/
def Journey.report (t : Timetable) (date : Option Date) (number : Nat) (j : Journey) :
    List String :=
  (toString number ++ ". " ++ j.merit.departure.report date ++ " -> " ++
      j.merit.arrival.report date ++ " (" ++ toString j.merit.transfers ++
      " transfers, cost " ++ j.merit.cost.text ++ ")") ::
    j.legs.filterMap (Leg.report t date)

namespace Response

/-- The lines of a response. -/
def reportLines (r : Response) (t : Timetable) (date : Option Date) : List String :=
  if r.isEmpty then ["No journeys found."]
  else
    (r.journeys.zipIdx 1).flatMap (fun (j, number) => j.report t date number) ++
      (if r.isUnfinished then ["(search was cut short; results may be incomplete)"] else []) ++
      ["Next page from " ++ r.laterPage.time.report date]

/-- The text of a response. -/
def report (r : Response) (t : Timetable) (date : Option Date) : String :=
  String.join ((r.reportLines t date).map (· ++ "\n"))

/-- The journeys of a response as JSON. -/
def json (r : Response) : String := (Datum.list (r.journeys.map Journey.toDatum)).json ++ "\n"

end Response

end TransitRouting
