import FormalCalculus.Error

/-!
# Reports

A report presents an error to the reader of a text: a title, the place it concerns as a line and a
column of a named source, what to say there, and how to mend it.
-/

namespace FormalCalculus

open Text (Location)

/-- The texts of a report. -/
structure Report where
  title : String
  location : String
  label : String
  help : Option String
deriving DecidableEq, Repr

/-- The heading of a report on a cause. -/
def Cause.title (cause : Cause) : String := "Error: " ++ cause.message

/-- **The report on an error** in a text that goes by the name `source`. -/
def Error.report (e : Error) (source text : String) : Report :=
  let place := Location.ofOffset text e.offset
  { title := e.cause.title
    location := source ++ ":" ++ place.line.repr ++ ":" ++ place.column.repr
    label := e.cause.label
    help := e.cause.help }

/-- The lines of a report. -/
def Report.lines (r : Report) : List String :=
  [r.title, "  at " ++ r.location ++ ": " ++ r.label]
    ++ (r.help.map fun help => "  help: " ++ help).toList

end FormalCalculus
