/-!
# Reports

A report is a list of lines of a few sorts. How the lines look on a terminal is decided here and
nowhere else: errors and warnings go to standard error and everything else to standard output, so a
printed document stays clean.
-/

namespace Datamodel

inductive ReportLine where
  | heading (name : String)
  | entry (key value : String)
  | item (text : String)
  | error (message : String)
  | warning (message : String)
  /-- Text that is printed as it is. -/
  | plain (text : String)
  | blank
  deriving DecidableEq, Repr

abbrev Report := List ReportLine

/-- What a program prints. -/
structure Printed where
  output : String := ""
  errors : String := ""
  deriving DecidableEq, Repr

/-- One thing printed after another. -/
def Printed.append (first second : Printed) : Printed where
  output := first.output ++ second.output
  errors := first.errors ++ second.errors

namespace ReportLine

/-- A key in a column of twelve characters; a longer key takes the room it needs. -/
def padded (key : String) : String :=
  key ++ String.ofList (List.replicate (12 - key.length) ' ')

def print : ReportLine → Printed
  | .heading name => { output := name ++ ":\n" }
  | .entry key value => { output := "  " ++ padded key ++ value ++ "\n" }
  | .item text => { output := "    - " ++ text ++ "\n" }
  | .error message => { errors := "error: " ++ message ++ "\n" }
  | .warning message => { errors := "warning: " ++ message ++ "\n" }
  | .plain text => { output := text ++ "\n" }
  | .blank => { output := "\n" }

end ReportLine

def Report.print (report : Report) : Printed :=
  (report.map ReportLine.print).foldl Printed.append {}

def plural (count : Nat) : String :=
  if count = 1 then "" else "s"

def commaJoined (words : List String) : String :=
  ", ".intercalate words

end Datamodel
