import Datamodel.Json

/-!
# Summaries

What a bundle adds to the platform, in short: its name and version, its classes with their fields,
its menus, the rights it grants, its parameters and its module designs. A section that the document
does not have is empty.
-/

namespace Datamodel

structure FieldSummary where
  name : String
  kind : String
  deriving DecidableEq, Repr

structure ClassSummary where
  name : String
  fields : List FieldSummary
  deriving DecidableEq, Repr

structure MenuSummary where
  id : String
  kind : String
  deriving DecidableEq, Repr

structure ActionRight where
  action : String
  allowed : Bool
  deriving DecidableEq, Repr

structure ProfileRights where
  profile : String
  rights : List ActionRight
  deriving DecidableEq, Repr

/-- A module parameter, its value as text. -/
structure ModuleParameter where
  id : String
  value : String
  deriving DecidableEq, Repr

structure ModuleDesign where
  id : String
  description : String
  deriving DecidableEq, Repr

structure Summary where
  name : String
  version : String
  classes : List ClassSummary := []
  menus : List MenuSummary := []
  profiles : List ProfileRights := []
  parameters : List ModuleParameter := []
  designs : List ModuleDesign := []
  deriving DecidableEq, Repr

namespace Summary

def fieldCount (summary : Summary) : Nat :=
  (summary.classes.flatMap (·.fields)).length

def toJson (summary : Summary) : Json :=
  let classJson (c : ClassSummary) : Json :=
    .obj [("name", .str c.name),
      ("fields", .arr (c.fields.map fun f => .obj [("name", .str f.name), ("kind", .str f.kind)]))]
  let profileJson (p : ProfileRights) : Json :=
    .obj [("profile", .str p.profile),
      ("rights", .arr (p.rights.map fun r =>
        .obj [("action", .str r.action), ("allowed", .bool r.allowed)]))]
  .obj [("name", .str summary.name), ("version", .str summary.version),
    ("classes", .arr (summary.classes.map classJson)),
    ("menus", .arr (summary.menus.map fun m => .obj [("id", .str m.id), ("kind", .str m.kind)])),
    ("user_rights", .arr (summary.profiles.map profileJson)),
    ("module_parameters", .arr (summary.parameters.map fun p =>
      .obj [("id", .str p.id), ("value", .str p.value)])),
    ("module_designs", .arr (summary.designs.map fun d =>
      .obj [("id", .str d.id), ("description", .str d.description)]))]

end Summary

end Datamodel
