import Datamodel.Proofs.Definition.Recovery
import Datamodel.Proofs.Text.Pattern
import Datamodel.Summary.Document

/-!
# The summary of a generated document

The summary is read off the tree by paths, so what it says of a generated document can be said of
the definition alone: the fields with their types, the menu, and the rights of every profile. An
action comes back as it was also if its own name starts like the mark in front of it, for only one
mark is taken off.
-/

namespace Datamodel

open Xml (Element)

def ClassDefinition.summary (definition : ClassDefinition) (descriptor : ModuleDescriptor) :
    Summary where
  name := descriptor.name
  version := descriptor.version
  classes := [⟨definition.name, definition.fields.map fun field => ⟨field.name, field.type.name⟩⟩]
  menus := definition.menu.toList.map fun menu => ⟨definition.name ++ "_menu", menu.kind.name⟩
  profiles := definition.profiles.map fun profile =>
    ⟨profile.name, profile.rights.map fun (action, right) => ⟨action, right.isAllowed⟩⟩
  parameters := []
  designs := []

theorem Right.trimmed_name (right : Right) :
    (Text.trimmed right.name == "allow") = right.isAllowed := by
  cases right with
  | allow => rfl
  | deny => rfl

theorem actionRight_tree (action : String) (right : Right) :
    actionRight (Markup.ofText "action" [("id", "action:" ++ action)] right.name) =
      ⟨action, right.isAllowed⟩ := by
  have hid : (Markup.ofText "action" [("id", "action:" ++ action)] right.name).id.toList =
      actionMark ++ action.toList :=
    String.toList_append
  have htext : (Markup.ofText "action" [("id", "action:" ++ action)] right.name).text =
      right.name :=
    outerTrimmed_of_ends right.trimBlanks_name
  rw [actionRight, hid, htext, Text.afterMark?_append, Right.trimmed_name, Option.getD_some,
    String.ofList_toList]

theorem profileRights_tree (profile : Profile) (className : String) :
    profileRights (profile.tree className) =
      ⟨profile.name, profile.rights.map fun (action, right) => ⟨action, right.isAllowed⟩⟩ := by
  have hactions : (profile.tree className).select ["groups", "group", "actions", "action"] =
      profile.rights.map fun (action, right) =>
        Markup.ofText "action" [("id", "action:" ++ action)] right.name := by
    simp [Profile.tree, withName_map]
  rw [profileRights, hactions, List.map_map]
  refine congrArg (ProfileRights.mk profile.name) (List.map_congr_left fun entry _ => ?_)
  exact actionRight_tree entry.1 entry.2

namespace ClassDefinition

theorem classSummaries_tree (definition : ClassDefinition) (descriptor : ModuleDescriptor) :
    classSummaries definition.tree = (definition.summary descriptor).classes := by
  have hclasses : definition.tree.select ["classes", "class"] = [definition.classTree] := by
    simp [tree, menuTrees, profileTrees]
  have hfields : definition.classTree.select ["fields", "field"] =
      definition.fields.map Field.tree := by
    simp [classTree]
  rw [classSummaries, hclasses, List.map_singleton, fieldSummaries, hfields, List.map_map]
  rfl

theorem menuSummaries_tree (definition : ClassDefinition) (descriptor : ModuleDescriptor) :
    menuSummaries definition.tree = (definition.summary descriptor).menus := by
  have hmenus : definition.tree.select ["menus", "menu"] =
      definition.menu.toList.map fun menu => menu.tree (definition.name ++ "_menu") := by
    simp [tree, menuTrees, profileTrees]
  rw [menuSummaries, hmenus, List.map_map]
  rfl

theorem profileSummaries_tree (definition : ClassDefinition) (descriptor : ModuleDescriptor) :
    profileSummaries definition.tree = (definition.summary descriptor).profiles := by
  have hprofiles : definition.tree.select ["user_rights", "profiles", "profile"] =
      definition.profiles.map (·.tree definition.name) := by
    simp [tree, menuTrees, profileTrees]
  rw [profileSummaries, hprofiles, List.map_map]
  exact List.map_congr_left fun profile _ => profileRights_tree profile definition.name

/-- What is summarised of a definition's tree is the summary of the definition. -/
theorem ofDocument_tree (definition : ClassDefinition) (descriptor : ModuleDescriptor) :
    Summary.ofDocument definition.tree descriptor = definition.summary descriptor := by
  have hparameters : parameterSummaries definition.tree = [] := by
    simp [parameterSummaries, tree, menuTrees, profileTrees]
  have hdesigns : designSummaries definition.tree = [] := by
    simp [designSummaries, tree, menuTrees, profileTrees]
  have hname : definition.tree.name = "itop_design" := rfl
  rw [Summary.ofDocument, if_pos hname, classSummaries_tree definition descriptor,
    menuSummaries_tree definition descriptor, profileSummaries_tree definition descriptor,
    hparameters, hdesigns]
  rfl

/-- A generated document can be read, and its summary is that of the definition. -/
theorem summary_of_document (definition : ClassDefinition) (indent : Markup.Indent)
    (descriptor : ModuleDescriptor) :
    ∃ root, Xml.parse (definition.document ⟨.markup, indent⟩).toList = .ok root ∧
      Summary.ofDocument root descriptor = definition.summary descriptor :=
  ⟨definition.tree, definition.parse_escaped indent, definition.ofDocument_tree descriptor⟩

end ClassDefinition

end Datamodel
