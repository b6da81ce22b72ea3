import Datamodel.Proofs.Definition.Document
import Datamodel.Proofs.Definition.Words
import Mathlib.Data.List.Forall2

/-!
# What the escaped document gives back

What is recovered of a definition is said by following paths from an element: which groups of
children it has and when, which attributes stand there and which texts. None of it mentions how the
document was written. Attribute values, codes and fixed words come back unchanged, all other texts
without the white space at their ends, and the values of an enumeration as they are trimmed when
they are written.
-/

namespace Datamodel.Xml.Element

/-- The names of the children, each once, in the order of first appearance. -/
def groupNames (element : Element) : List String :=
  element.children.map (·.1)

def textsAt (element : Element) (path : List String) : List String :=
  (element.select path).map (·.text)

def attributesAt (element : Element) (path : List String) : List (List (String × String)) :=
  (element.select path).map (·.attributes)

end Datamodel.Xml.Element

namespace Datamodel

open Xml (Element)
open Xml.Element (ofContent)
open Markup (ofText)

/-- A value without the white space of a document at its ends. -/
def outerTrimmed (value : String) : String :=
  String.ofList (Xml.trimBlanks value.toList)

/-- A tag that is present under a condition. -/
def tagIf (condition : Prop) [Decidable condition] (tag : String) : List String :=
  if condition then [tag] else []

/-! ### Elements that show a part of a definition -/

structure Properties.ShownBy (properties : Properties) (element : Element) : Prop where
  groups : element.groupNames = (properties.entries.filter (·.2 ≠ "")).map (·.1)
  texts : ∀ entry ∈ properties.entries,
    element.textsAt [entry.1] = if entry.2 = "" then [] else [outerTrimmed entry.2]

structure Field.ShownBy (field : Field) (element : Element) : Prop where
  attributes : element.attributes = [("id", field.name), ("xsi:type", field.type.name)]
  groups : element.groupNames = ["sql", "default_value", "is_null_allowed"] ++
    (tagIf (field.kind.values ≠ []) "values" ++ tagIf (field.kind.target ≠ "") "target_class")
  column : element.textsAt ["sql"] = [outerTrimmed field.column]
  defaultValue : element.textsAt ["default_value"] = [outerTrimmed field.defaultValue]
  nullable : element.textsAt ["is_null_allowed"] = [boolText field.nullable]
  values : element.textsAt ["values", "value"] = field.kind.values.map Text.trimmed
  places : element.attributesAt ["values", "value"] =
    field.kind.values.zipIdx.map fun entry => [("id", toString entry.2)]
  target : element.textsAt ["target_class"] =
    if field.kind.target = "" then [] else [outerTrimmed field.kind.target]

structure State.ShownBy (state : State) (element : Element) : Prop where
  attributes : element.attributes = [("id", state.name)]
  groups : element.groupNames = ["flags", "highlight"]
  flagNames : (element.select ["flags"]).map Element.groupNames =
    [((state.flags.map (·.1)).filter fun flag => Markup.isTagName flag).eraseDups]
  flags : ∀ flag, element.textsAt ["flags", flag] =
    if Markup.isTagName flag
      then (state.flags.filter (·.1 = flag)).map fun entry => boolText entry.2 else []
  highlight : element.textsAt ["highlight"] = [outerTrimmed state.highlight]

structure Transition.ShownBy (transition : Transition) (element : Element) : Prop where
  attributes : element.attributes = [("id", transition.stimulus)]
  groups : element.groupNames = ["target", "actions"]
  target : element.textsAt ["target"] = [outerTrimmed transition.target]
  actions : (element.select ["actions", "action"]).map (·.textsAt ["verb"]) =
    transition.actions.map fun verb => [outerTrimmed verb]

structure Lifecycle.ShownBy (lifecycle : Lifecycle) (element : Element) : Prop where
  groups : element.groupNames = ["attribute", "states", "transitions"]
  driver : element.textsAt ["attribute"] = [outerTrimmed lifecycle.driver]
  states : List.Forall₂ State.ShownBy lifecycle.states (element.select ["states", "state"])
  transitions : List.Forall₂ Transition.ShownBy lifecycle.transitions
    (element.select ["transitions", "transition"])

structure Method.ShownBy (method : Method) (element : Element) : Prop where
  attributes : element.attributes = [("id", method.name)]
  groups : element.groupNames = ["static", "access", "type", "code"]
  words : element.textsAt ["static"] = ["false"] ∧ element.textsAt ["access"] = ["public"]
  kind : element.textsAt ["type"] = [method.kind.name]
  code : element.textsAt ["code"] = [method.code]

structure Index.ShownBy (index : Index) (element : Element) : Prop where
  attributes : element.attributes = [("id", index.name)]
  groups : element.groupNames = ["attributes"]
  fields : element.attributesAt ["attributes", "attribute"] = index.fields.map fun field =>
    [("id", field)]

structure Relation.ShownBy (relation : Relation) (element : Element) : Prop where
  attributes : element.attributes = [("id", relation.kind.name)]
  groups : element.groupNames = ["neighbours"]
  neighbour : element.attributesAt ["neighbours", "neighbour"] = [[("id", relation.neighbour)]]
  queryDown : element.textsAt ["neighbours", "neighbour", "query_down"] =
    [outerTrimmed relation.queryDown]
  queryUp : element.textsAt ["neighbours", "neighbour", "query_up"] =
    [outerTrimmed relation.queryUp]

structure MenuEntry.ShownBy (className : String) (menu : MenuEntry) (element : Element) : Prop where
  attributes : element.attributes = [("id", className ++ "_menu"), ("xsi:type", menu.kind.name)]
  groups : element.groupNames = ["rank", "parent"] ++ tagIf (menu.kind = .query) "oql"
  rank : element.textsAt ["rank"] = [toString menu.rank]
  parent : element.textsAt ["parent"] = [outerTrimmed menu.parent]
  query : element.textsAt ["oql"] = if menu.kind = .query then [outerTrimmed menu.query] else []

structure Profile.ShownBy (className : String) (profile : Profile) (element : Element) : Prop where
  attributes : element.attributes = [("id", profile.name)]
  groups : element.groupNames = ["groups"]
  className : element.attributesAt ["groups", "group"] = [[("id", className)]]
  actions : element.attributesAt ["groups", "group", "actions", "action"] =
    profile.rights.map fun right => [("id", "action:" ++ right.1)]
  rights : element.textsAt ["groups", "group", "actions", "action"] =
    profile.rights.map fun right => right.2.name

structure Branding.ShownBy (branding : Branding) (element : Element) : Prop where
  groups : element.groupNames = ["main_logo", "main_color", "complementary_color"]
  logo : element.textsAt ["main_logo"] = [outerTrimmed branding.logo]
  mainColor : element.textsAt ["main_color"] = [outerTrimmed branding.mainColor]
  complementaryColor : element.textsAt ["complementary_color"] =
    [outerTrimmed branding.complementaryColor]

namespace ClassDefinition

/-- The class element shows a definition but for what stands beside the class. -/
structure ClassShownBy (definition : ClassDefinition) (element : Element) : Prop where
  attributes : element.attributes = [("id", definition.name)]
  groups : element.groupNames = ["parent", "properties", "fields"] ++
    (tagIf (definition.writtenLifecycle ≠ []) "lifecycle" ++
      (tagIf (definition.methods ≠ []) "methods" ++
      (tagIf (definition.indexes ≠ []) "indexes" ++ tagIf (definition.relations ≠ []) "relations")))
  parent : element.textsAt ["parent"] = [outerTrimmed definition.parent]
  properties : List.Forall₂ Properties.ShownBy [definition.properties]
    (element.select ["properties"])
  fields : List.Forall₂ Field.ShownBy definition.fields (element.select ["fields", "field"])
  lifecycle : List.Forall₂ Lifecycle.ShownBy definition.writtenLifecycle
    (element.select ["lifecycle"])
  methods : List.Forall₂ Method.ShownBy definition.methods (element.select ["methods", "method"])
  indexes : List.Forall₂ Index.ShownBy definition.indexes (element.select ["indexes", "index"])
  relations : List.Forall₂ Relation.ShownBy definition.relations
    (element.select ["relations", "relation"])

/-- The root of a document shows a definition. -/
structure ShownBy (definition : ClassDefinition) (root : Element) : Prop where
  name : root.name = "itop_design"
  attributes : root.attributes = [("xmlns:xsi", "http://www.w3.org/2001/XMLSchema-instance"),
    ("version", "3.0")]
  groups : root.groupNames = ["classes"] ++ (tagIf (definition.menu ≠ none) "menus" ++
    (tagIf (definition.profiles ≠ []) "user_rights" ++
      tagIf (definition.writtenBranding ≠ []) "branding"))
  classes : List.Forall₂ ClassShownBy [definition] (root.select ["classes", "class"])
  menus : List.Forall₂ (MenuEntry.ShownBy definition.name) definition.menu.toList
    (root.select ["menus", "menu"])
  profiles : List.Forall₂ (Profile.ShownBy definition.name) definition.profiles
    (root.select ["user_rights", "profiles", "profile"])
  branding : List.Forall₂ Branding.ShownBy definition.writtenBranding (root.select ["branding"])

end ClassDefinition

/-! ### Following a path in a tree -/

section paths

variable {tag name value : String} {attributes : List (String × String)} {elements : List Element}
  {path : List String} {condition : Prop} [Decidable condition]

@[simp] theorem name_ofContent : (ofContent tag attributes elements).name = tag :=
  rfl

@[simp] theorem name_ofText : (ofText tag attributes value).name = tag :=
  rfl

@[simp] theorem attributes_ofContent :
    (ofContent tag attributes elements).attributes = attributes :=
  rfl

@[simp] theorem attributes_ofText : (ofText tag attributes value).attributes = attributes :=
  rfl

@[simp] theorem text_ofText : (ofText tag attributes value).text = outerTrimmed value :=
  rfl

@[simp] theorem withName_cons (element : Element) :
    Element.withName (element :: elements) name =
      if element.name = name then element :: Element.withName elements name
        else Element.withName elements name := by
  rw [Element.withName, List.filter_cons]
  simp [Element.withName]

theorem enclosed_cons (element : Element) :
    enclosed tag (element :: elements) = [ofContent tag [] (element :: elements)] :=
  rfl

@[simp] theorem withName_enclosed :
    Element.withName (enclosed tag elements) name =
      if tag = name then enclosed tag elements else [] := by
  cases elements with
  | nil => rw [enclosed, Element.withName_nil, ite_self]
  | cons element elements => rw [enclosed_cons, withName_cons, name_ofContent, Element.withName_nil]

@[simp] theorem withName_textIf :
    Element.withName (textIf condition tag value) name =
      if tag = name then textIf condition tag value else [] := by
  by_cases h : condition
  · rw [textIf, if_pos h, withName_cons, name_ofText, Element.withName_nil]
  · rw [textIf, if_neg h, Element.withName_nil, ite_self]

theorem withName_map {α : Type} {tree : α → Element} (h : ∀ item, (tree item).name = tag)
    (items : List α) :
    Element.withName (items.map tree) name = if tag = name then items.map tree else [] := by
  induction items with
  | nil => rw [List.map_nil, Element.withName_nil, ite_self]
  | cons item items ih =>
    rw [List.map_cons, withName_cons, ih, h]
    split
    · rfl
    · rfl

/-- A way to show items as elements, all of one name. -/
class HasName {α : Type} (tree : α → Element) (name : outParam String) : Prop where
  name_eq : ∀ item, (tree item).name = name

@[simp] theorem withName_trees {α : Type} {tree : α → Element} [HasName tree tag] (items : List α) :
    Element.withName (items.map tree) name = if tag = name then items.map tree else [] :=
  withName_map HasName.name_eq items

@[simp] theorem textsAt_ofContent : (ofContent tag attributes elements).textsAt (name :: path) =
    ((Element.withName elements name).flatMap (Element.select path)).map (·.text) := by
  rw [Element.textsAt, Element.select_ofContent]

@[simp] theorem attributesAt_ofContent :
    (ofContent tag attributes elements).attributesAt (name :: path) =
      ((Element.withName elements name).flatMap (Element.select path)).map (·.attributes) := by
  rw [Element.attributesAt, Element.select_ofContent]

@[simp] theorem select_end : elements.flatMap (Element.select []) = elements :=
  List.flatMap_singleton' _

@[simp] theorem select_enclosed :
    (enclosed tag elements).flatMap (Element.select (name :: path)) =
      (Element.withName elements name).flatMap (Element.select path) := by
  cases elements with
  | nil => rfl
  | cons element elements => rw [enclosed_cons, List.flatMap_singleton, Element.select_ofContent]

theorem map_name_enclosed : (enclosed tag elements).map (·.name) = tagIf (elements ≠ []) tag := by
  cases elements with
  | nil => rfl
  | cons element elements => rfl

@[simp] theorem enclosed_eq_nil : enclosed tag elements = [] ↔ elements = [] := by
  cases elements with
  | nil => simp [enclosed]
  | cons element elements => simp [enclosed_cons]

/-- What is given at most once is present or not. -/
theorem map_name_filter {α : Type} {tree : α → Element} (h : ∀ item, (tree item).name = tag)
    (given : Option α) (p : α → Bool) :
    ((given.toList.filter p).map tree).map (·.name) = tagIf (given.toList.filter p ≠ []) tag := by
  cases given with
  | none => rfl
  | some item =>
    rw [Option.toList_some, List.filter_singleton]
    by_cases hitem : p item = true
    · simp [hitem, tagIf, h]
    · simp [hitem, tagIf]

theorem map_name_textIf : (textIf condition tag value).map (·.name) = tagIf condition tag := by
  rw [textIf, tagIf]
  split
  · rfl
  · rfl

theorem map_text_textIf :
    (textIf condition tag value).map (·.text) = if condition then [outerTrimmed value] else [] := by
  rw [textIf]
  split
  · rfl
  · rfl

theorem tagIf_sublist (condition : Prop) [Decidable condition] (tag : String) :
    (tagIf condition tag).Sublist [tag] := by
  rw [tagIf]
  split
  · exact List.Sublist.refl _
  · exact List.nil_sublist _

/-- Children with different names make one group each. -/
theorem groupNames_distinct {names : List String} (h : elements.map (·.name) = names)
    (hdistinct : names.Nodup) : (ofContent tag attributes elements).groupNames = names := by
  rw [Element.groupNames, Element.groupNames_ofContent, Element.names, h,
    Element.eraseDups_of_nodup hdistinct]

theorem outerTrimmed_of_ends {value : String} (h : Xml.trimBlanks value.toList = value.toList) :
    outerTrimmed value = value := by
  rw [outerTrimmed, h, String.ofList_toList]

end paths

section names

variable {className : String}

@[simp] theorem Properties.name_tree (properties : Properties) :
    properties.tree.name = "properties" :=
  rfl

@[simp] theorem ClassDefinition.name_classTree (definition : ClassDefinition) :
    definition.classTree.name = "class" :=
  rfl

instance : HasName Field.tree "field" := ⟨fun _ => rfl⟩

instance : HasName State.tree "state" := ⟨fun _ => rfl⟩

instance : HasName Transition.tree "transition" := ⟨fun _ => rfl⟩

instance : HasName Lifecycle.tree "lifecycle" := ⟨fun _ => rfl⟩

instance : HasName Method.tree "method" := ⟨fun _ => rfl⟩

instance : HasName Index.tree "index" := ⟨fun _ => rfl⟩

instance : HasName Relation.tree "relation" := ⟨fun _ => rfl⟩

instance : HasName (MenuEntry.tree · className) "menu" := ⟨fun _ => rfl⟩

instance : HasName (Profile.tree · className) "profile" := ⟨fun _ => rfl⟩

instance : HasName Branding.tree "branding" := ⟨fun _ => rfl⟩

end names

/-! ### Each tree shows its section -/

section entries

variable {α : Type} (text : α → String) (entries : List (String × α)) (tag : String)

/-- Children named by the keys of entries make one group for each key. -/
theorem groupNames_entries :
    (ofContent tag [] (entries.map fun entry => ofText entry.1 [] (text entry.2))).groupNames =
      (entries.map (·.1)).eraseDups := by
  rw [Element.groupNames, Element.groupNames_ofContent, Element.names, List.map_map]
  rfl

theorem textsAt_entries (name : String) :
    (ofContent tag [] (entries.map fun entry => ofText entry.1 [] (text entry.2))).textsAt [name] =
      (entries.filter (·.1 = name)).map fun entry => outerTrimmed (text entry.2) := by
  rw [textsAt_ofContent, select_end, Element.withName, List.filter_map, List.map_map]
  rfl

end entries

theorem filter_key {entries : List (String × String)} (hdistinct : (entries.map (·.1)).Nodup)
    {entry : String × String} (h : entry ∈ entries) : entries.filter (·.1 = entry.1) = [entry] := by
  induction entries with
  | nil => contradiction
  | cons first entries ih =>
    rw [List.map_cons, List.nodup_cons] at hdistinct
    rw [List.filter_cons]
    obtain rfl | h := List.mem_cons.1 h
    · have hnone : entries.filter (·.1 = entry.1) = [] := by
        refine List.filter_eq_nil_iff.2 fun other hother hsame => hdistinct.1 ?_
        rw [← of_decide_eq_true hsame]
        exact List.mem_map_of_mem hother
      rw [if_pos (by simp), hnone]
    · have hne : first.1 ≠ entry.1 := fun hsame => hdistinct.1 (hsame ▸ List.mem_map_of_mem h)
      rw [if_neg (by simpa using hne), ih hdistinct.2 h]

theorem Properties.tree_shows (properties : Properties) : properties.ShownBy properties.tree where
  groups := by
    refine (groupNames_entries id _ "properties").trans (Element.eraseDups_of_nodup ?_)
    refine List.Sublist.nodup (List.filter_sublist.map _) ?_
    rw [map_entries]
    decide
  texts := by
    intro entry hentry
    have hkey : properties.entries.filter (·.1 = entry.1) = [entry] := by
      refine filter_key ?_ hentry
      rw [map_entries]
      decide
    refine (textsAt_entries id _ "properties" entry.1).trans ?_
    rw [List.filter_comm, hkey, List.filter_singleton]
    by_cases h : entry.2 = ""
    · simp [h]
    · simp [h]

theorem Field.tree_shows (field : Field) : field.ShownBy field.tree where
  attributes := rfl
  groups := by
    refine groupNames_distinct ?_ ?_
    · simp [FieldKind.content, map_name_enclosed, map_name_textIf]
    · have hdistinct : (["sql", "default_value", "is_null_allowed"] ++
          (["values"] ++ ["target_class"])).Nodup := by
        decide
      refine hdistinct.sublist ((List.Sublist.refl _).append ?_)
      exact (tagIf_sublist _ _).append (tagIf_sublist _ _)
  column := by simp [Field.tree, FieldKind.content]
  defaultValue := by simp [Field.tree, FieldKind.content]
  nullable := by
    simp [Field.tree, FieldKind.content, outerTrimmed_of_ends (trimBlanks_boolText field.nullable)]
  values := by
    have htrimmed : (field.kind.values.zipIdx.map (·.1)).map Text.trimmed =
        field.kind.values.map Text.trimmed := by
      rw [List.zipIdx_map_fst]
    rw [List.map_map] at htrimmed
    simp [Field.tree, FieldKind.content, withName_map, ← htrimmed]
  places := by simp [Field.tree, FieldKind.content, withName_map]
  target := by simp [Field.tree, FieldKind.content, map_text_textIf]

theorem State.tree_shows (state : State) : state.ShownBy state.tree where
  attributes := rfl
  groups := groupNames_distinct rfl (by decide)
  flagNames := by
    have hnames := groupNames_entries boolText (state.flags.filter (Markup.isTagName ·.1)) "flags"
    rw [State.tree, Element.select_ofContent, withName_cons, State.flagTree, name_ofContent,
      if_pos rfl]
    simp [hnames, List.filter_map, Function.comp_def]
  flags := by
    intro flag
    have hpath : state.tree.textsAt ["flags", flag] = state.flagTree.textsAt [flag] := by
      simp [State.tree, State.flagTree]
    have htexts := textsAt_entries boolText (state.flags.filter (Markup.isTagName ·.1)) "flags" flag
    rw [hpath, State.flagTree, htexts, List.filter_filter]
    by_cases h : Markup.isTagName flag = true
    · have hkept : ∀ entry ∈ state.flags,
          (decide (entry.1 = flag) && Markup.isTagName entry.1) = decide (entry.1 = flag) := by
        intro entry _
        by_cases hname : entry.1 = flag
        · rw [hname, h, Bool.and_true]
        · rw [decide_eq_false hname, Bool.false_and]
      rw [List.filter_congr hkept, if_pos h]
      exact List.map_congr_left fun entry _ => outerTrimmed_of_ends (trimBlanks_boolText entry.2)
    · have hnone : ∀ entry ∈ state.flags, ¬(decide (entry.1 = flag) && Markup.isTagName entry.1) =
          true := by
        intro entry _ hentry
        rw [Bool.and_eq_true, decide_eq_true_iff] at hentry
        exact h (hentry.1 ▸ hentry.2)
      rw [List.filter_eq_nil_iff.2 hnone, if_neg h, List.map_nil]
  highlight := by simp [State.tree, State.flagTree]

theorem Transition.tree_shows (transition : Transition) : transition.ShownBy transition.tree where
  attributes := rfl
  groups := groupNames_distinct rfl (by decide)
  target := by simp [Transition.tree]
  actions := by simp [Transition.tree, withName_map]

theorem Lifecycle.tree_shows (lifecycle : Lifecycle) : lifecycle.ShownBy lifecycle.tree where
  groups := groupNames_distinct rfl (by decide)
  driver := by simp [Lifecycle.tree]
  states := by simp [Lifecycle.tree, State.tree_shows]
  transitions := by simp [Lifecycle.tree, Transition.tree_shows]

theorem Method.tree_shows (method : Method) : method.ShownBy method.tree where
  attributes := rfl
  groups := groupNames_distinct rfl (by decide)
  words := ⟨rfl, rfl⟩
  kind := by simp [Method.tree, outerTrimmed_of_ends method.kind.trimBlanks_name]
  code := by simp [Method.tree]

theorem Index.tree_shows (index : Index) : index.ShownBy index.tree where
  attributes := rfl
  groups := groupNames_distinct rfl (by decide)
  fields := by simp [Index.tree, withName_map]

theorem Relation.tree_shows (relation : Relation) : relation.ShownBy relation.tree where
  attributes := rfl
  groups := groupNames_distinct rfl (by decide)
  neighbour := by simp [Relation.tree]
  queryDown := by simp [Relation.tree]
  queryUp := by simp [Relation.tree]

theorem MenuEntry.tree_shows (menu : MenuEntry) (className : String) :
    menu.ShownBy className (menu.tree (className ++ "_menu")) where
  attributes := rfl
  groups := by
    refine groupNames_distinct ?_ ?_
    · simp [map_name_textIf]
    · exact ((List.Sublist.refl ["rank", "parent"]).append (tagIf_sublist _ "oql")).nodup
        (by decide)
  rank := by
    have hrank := outerTrimmed_of_ends (trimBlanks_int menu.rank)
    simpa [MenuEntry.tree] using hrank
  parent := by simp [MenuEntry.tree]
  query := by simp [MenuEntry.tree, map_text_textIf]

theorem Profile.tree_shows (profile : Profile) (className : String) :
    profile.ShownBy className (profile.tree className) where
  attributes := rfl
  groups := groupNames_distinct rfl (by decide)
  className := by simp [Profile.tree]
  actions := by simp [Profile.tree, withName_map]
  rights := by simp [Profile.tree, withName_map, outerTrimmed_of_ends (Right.trimBlanks_name _)]

theorem Branding.tree_shows (branding : Branding) : branding.ShownBy branding.tree where
  groups := groupNames_distinct rfl (by decide)
  logo := by simp [Branding.tree]
  mainColor := by simp [Branding.tree]
  complementaryColor := by simp [Branding.tree]

namespace ClassDefinition

theorem classTree_shows (definition : ClassDefinition) :
    definition.ClassShownBy definition.classTree where
  attributes := rfl
  groups := by
    refine groupNames_distinct ?_ ?_
    · have hlifecycle : (definition.writtenLifecycle.map Lifecycle.tree).map (·.name) =
          tagIf (definition.writtenLifecycle ≠ []) "lifecycle" :=
        map_name_filter (by intro item; rfl) definition.lifecycle _
      simpa [map_name_enclosed] using hlifecycle
    · have hdistinct : (["parent", "properties", "fields"] ++
          (["lifecycle"] ++ (["methods"] ++ (["indexes"] ++ ["relations"])))).Nodup := by
        decide
      refine hdistinct.sublist ((List.Sublist.refl _).append ((tagIf_sublist _ _).append ?_))
      exact (tagIf_sublist _ _).append ((tagIf_sublist _ _).append (tagIf_sublist _ _))
  parent := by simp [classTree]
  properties := by simp [classTree, Properties.tree_shows]
  fields := by simp [classTree, Field.tree_shows]
  lifecycle := by simp [classTree, Lifecycle.tree_shows]
  methods := by simp [classTree, Method.tree_shows]
  indexes := by simp [classTree, Index.tree_shows]
  relations := by simp [classTree, Relation.tree_shows]

theorem tree_shows (definition : ClassDefinition) : definition.ShownBy definition.tree where
  name := rfl
  attributes := rfl
  groups := by
    refine groupNames_distinct ?_ ?_
    · have hbranding : (definition.writtenBranding.map Branding.tree).map (·.name) =
          tagIf (definition.writtenBranding ≠ []) "branding" :=
        map_name_filter (by intro item; rfl) definition.branding _
      simpa [map_name_enclosed, menuTrees, profileTrees] using hbranding
    · have hdistinct : (["classes"] ++ (["menus"] ++ (["user_rights"] ++ ["branding"]))).Nodup := by
        decide
      refine hdistinct.sublist ((List.Sublist.refl _).append ?_)
      exact (tagIf_sublist _ _).append ((tagIf_sublist _ _).append (tagIf_sublist _ _))
  classes := by
    simp [tree, menuTrees, profileTrees, classTree_shows]
  menus := by
    simp [tree, menuTrees, profileTrees, MenuEntry.tree_shows]
  profiles := by
    simp [tree, menuTrees, profileTrees, Profile.tree_shows]
  branding := by
    simp [tree, menuTrees, profileTrees, Branding.tree_shows]

/-- The escaped document of a definition is read as one tree, whatever the indentation, and this
tree shows the whole definition. -/
theorem escaped_document_shows (definition : ClassDefinition) :
    (∀ indent, Xml.parse (definition.document ⟨.markup, indent⟩).toList = .ok definition.tree) ∧
      definition.ShownBy definition.tree :=
  ⟨definition.parse_escaped, definition.tree_shows⟩

end ClassDefinition

end Datamodel
