import Quill.Log.Directive
import Quill.Report.TokenTable

/-!
# Log filters and log lines

A filter decides which events of a run are shown. It is a list of directives. Of those that
speak about an event the most specific one decides; if none does, the event is not shown.

A filter is written as directives with commas between them, and cannot be read if one of them
cannot. A filter without directives shows nothing.
-/

set_option autoImplicit false

namespace Quill.Log

/-- Which events are shown. -/
abbrev Filter := List Directive

namespace Filter

/-- Shows warnings and errors from every part. -/
def standard : Filter := [⟨"", .all, some .warn⟩]

/-- A filter as it is written. Nothing needs to stand between two commas. -/
def parse? (text : String) : Option Filter :=
  ((text.splitOn ",").filter (· ≠ "")).mapM Directive.parse?

/-- The filter that a run uses: the one that is written, or the standard one if none is written
or it cannot be read. -/
def ofSetting (setting : Option String) : Filter :=
  (setting.bind parse?).getD standard

/-- The directive that decides about an event: of those that speak about it the one to which the
others yield, and the last of several. -/
def deciding? (filter : Filter) (event : Event) : Option Directive :=
  (filter.filter fun directive => directive.covers event).foldl (fun best directive =>
    match best with
    | some other => if other.yields directive then some directive else best
    | none => some directive) none

/-- Whether an event is shown. -/
def shows (filter : Filter) (event : Event) : Bool :=
  match filter.deciding? event with
  | some directive => directive.lets event.level
  | none => false

end Filter

/-- An event as a line after a time stamp. -/
def Event.line (time : String) (event : Event) : String :=
  time ++ " " ++ Report.padLeft 5 event.level.name ++ " " ++ event.message
    ++ String.join (event.fields.map fun field => " " ++ field.1 ++ "=" ++ field.2.shown)
    ++ "\n"

/-- The lines of the events that a filter shows. -/
def lines (filter : Filter) (time : String) (events : List Event) : String :=
  String.join ((events.filter filter.shows).map (Event.line time))

end Quill.Log
