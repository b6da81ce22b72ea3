import Datamodel.Generation
import Datamodel.Report.Check

/-!
# The report on a generated document

The issues first, then the document itself or the path it was written to. A printed document is one
line of the report, however many lines it has.
-/

namespace Datamodel

/-- The lines of a text as one line of a report: the report ends that line, so a line feed at the
end of the text is left out. -/
def withoutFinalLineFeed (text : String) : String :=
  let chars := text.toList
  if chars.getLast? = some '\n' then String.ofList chars.dropLast else text

def Destination.line (className : String) : Destination → ReportLine
  | .printed document => .plain (withoutFinalLineFeed document)
  | .written path => .plain ("✓ wrote " ++ className ++ " to " ++ path)

def Generation.report (generation : Generation) : Report :=
  generation.issues.map Issue.line ++ [generation.destination.line generation.className]

end Datamodel
