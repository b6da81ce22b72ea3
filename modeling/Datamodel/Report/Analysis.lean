import Datamodel.Report.Basic
import Datamodel.Summary.Basic

/-!
# The report on a bundle

The summary of a bundle as a report. Sections without entries are left out.
-/

namespace Datamodel

/-- A section of the report, closed by a blank line. -/
def sectionLines (name : String) (lines : Report) : Report :=
  if lines.isEmpty then [] else .heading name :: lines ++ [.blank]

def ClassSummary.lines (c : ClassSummary) : Report :=
  .item c.name :: c.fields.map fun field => .plain ("        " ++ field.name ++ ": " ++ field.kind)

def ProfileRights.line (p : ProfileRights) : ReportLine :=
  let rights := p.rights.map fun right =>
    right.action ++ "=" ++ if right.allowed then "allow" else "deny"
  .item (p.profile ++ ": " ++ commaJoined rights)

def Summary.report (summary : Summary) (bundle : String) : Report :=
  [.heading summary.name, .entry "version" summary.version, .entry "bundle" bundle,
    .entry "classes"
      (toString summary.classes.length ++ " (" ++ toString summary.fieldCount ++ " fields)"),
    .blank] ++
  sectionLines "Classes" (summary.classes.flatMap ClassSummary.lines) ++
  sectionLines "Menus" (summary.menus.map fun menu =>
    .item (menu.id ++ " (" ++ menu.kind ++ ")")) ++
  sectionLines "User rights" (summary.profiles.map ProfileRights.line) ++
  sectionLines "Module parameters"
    (summary.parameters.map fun parameter => .entry parameter.id parameter.value) ++
  if summary.designs.isEmpty then []
  else
    .heading "Module designs" ::
      summary.designs.map fun design => .item (design.id ++ ": " ++ design.description)

end Datamodel
