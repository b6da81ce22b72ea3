import Datamodel.Lint.Linter
import Datamodel.Proofs.Definition.Normal
import Datamodel.Proofs.Definition.Recovery
import Datamodel.Proofs.Text.Space

/-!
# Fields without issues

Three ways to treat white space meet in a field. The fields lint compares values and default without
any white space at their ends, the writer removes it from the values alone, and a reader of the
document removes from every text what is white space in a document. So a field without issues is
consistent when it is read back but for the white space that one of them leaves and another removes.
-/

namespace Datamodel

open Xml (Element)

/-! ### White space that is left -/

theorem trimmed_outerTrimmed (value : String) :
    Text.trimmed (outerTrimmed value) = Text.trimmed value := by
  obtain ⟨front, back, hvalue, hfront, hback⟩ := Text.exists_padding Xml.isBlank value.toList
  have hpadded := Text.trim_padded (fun c hc => isSpace_of_isBlank (hfront c hc))
    (fun c hc => isSpace_of_isBlank (hback c hc)) (Xml.trimBlanks value.toList)
  rw [Xml.trimBlanks, ← hvalue] at hpadded
  rw [Text.trimmed, Text.trimmed, outerTrimmed, String.toList_ofList, Xml.trimBlanks, ← hpadded]

theorem outerTrimmed_eq_empty_iff {value : String} :
    outerTrimmed value = "" ↔ ∀ c ∈ value.toList, Xml.isBlank c = true := by
  have hempty : outerTrimmed value = "" ↔ Xml.trimBlanks value.toList = [] := by
    rw [outerTrimmed, String.ofList_eq_empty_iff]
  rw [hempty, Xml.trimBlanks_eq_nil_iff, List.dropWhile_eq_nil_iff]

/-! ### Fields that the lint accepts -/

namespace Field

variable {field : Field} {values : List String}

theorem valueIssues_eq_nil_iff : field.valueIssues values = [] ↔
    (∀ value ∈ values, Text.trimmed value ≠ "") ∧
      (Text.trimmed field.defaultValue = "" ∨
        ∃ value ∈ values, Text.trimmed value = Text.trimmed field.defaultValue) := by
  rw [valueIssues, List.append_eq_nil_iff, List.map_eq_nil_iff, List.filter_eq_nil_iff]
  refine and_congr ?_ ?_
  · conv_rhs => rw [← List.zipIdx_map_fst 0 values, List.forall_mem_map]
    simp
  · simp [or_iff_not_imp_left]

theorem issues_of_enumeration (hkind : field.kind = .enumeration values) :
    field.issues = [] ↔ values ≠ [] ∧ field.valueIssues values = [] := by
  rw [issues, hkind]
  cases values with
  | nil => simp
  | cons value values => simp

theorem issues_of_externalKey {target : String} (hkind : field.kind = .externalKey target) :
    field.issues = [] ↔ target ≠ "" := by
  rw [issues, hkind]
  simp

/-- How the element of a field without issues is made up. A default with other white space at its
ends is none of the values, and a target class of white space is empty. -/
structure ConsistentIn (field : Field) (element : Element) : Prop where
  attributes : element.attributes = [("id", field.name), ("xsi:type", field.type.name)]
  values : ∀ values, field.kind = .enumeration values → (element.select ["values"]).length = 1 ∧
    element.textsAt ["values", "value"] ≠ [] ∧
    ∀ text ∈ element.textsAt ["values", "value"], text ≠ ""
  default : ∀ values, field.kind = .enumeration values →
    ∃ text, element.textsAt ["default_value"] = [text] ∧
      (Text.trimmed text = "" ∨ Text.trimmed text ∈ element.textsAt ["values", "value"]) ∧
      (text ≠ "" → (text ∈ element.textsAt ["values", "value"] ↔ Text.trimmed text = text))
  target : ∀ target, field.kind = .externalKey target →
    ∃ text, element.textsAt ["target_class"] = [text] ∧
      (text = "" ↔ ∀ c ∈ target.toList, Xml.isBlank c = true)
  noValues : (∀ values, field.kind ≠ .enumeration values) → element.select ["values"] = []
  noTarget : (∀ target, field.kind ≠ .externalKey target) → element.select ["target_class"] = []

theorem values_eq_nil (h : ∀ values, field.kind ≠ .enumeration values) :
    field.kind.values = [] := by
  cases hkind : field.kind with
  | enumeration values => exact (h values hkind).elim
  | string | integer | externalKey | linkedSet | tagSet | customFields => rfl

theorem target_eq_empty (h : ∀ target, field.kind ≠ .externalKey target) :
    field.kind.target = "" := by
  cases hkind : field.kind with
  | externalKey target => exact (h target hkind).elim
  | string | integer | enumeration | linkedSet | tagSet | customFields => rfl

theorem names_values (field : Field) :
    (field.tree.select ["values"]).map (·.name) = tagIf (field.kind.values ≠ []) "values" := by
  simp [Field.tree, FieldKind.content, map_name_enclosed]

theorem tree_consistent (h : field.issues = []) : field.ConsistentIn field.tree where
  attributes := field.tree_shows.attributes
  values := by
    intro values hkind
    obtain ⟨hsome, hvalues⟩ := (issues_of_enumeration hkind).1 h
    have hblock := congrArg List.length field.names_values
    rw [hkind, FieldKind.values, tagIf, if_pos hsome, List.length_map] at hblock
    rw [field.tree_shows.values, hkind, FieldKind.values]
    refine ⟨hblock, by simpa using hsome, ?_⟩
    exact List.forall_mem_map.2 (valueIssues_eq_nil_iff.1 hvalues).1
  default := by
    intro values hkind
    have hdefault := (valueIssues_eq_nil_iff.1 ((issues_of_enumeration hkind).1 h).2).2
    rw [← trimmed_outerTrimmed, ← List.mem_map] at hdefault
    refine ⟨outerTrimmed field.defaultValue, field.tree_shows.defaultValue, ?_⟩
    rw [field.tree_shows.values, hkind, FieldKind.values]
    refine ⟨hdefault, fun hne => ⟨?_, ?_⟩⟩
    · intro htext
      obtain ⟨value, -, hvalue⟩ := List.mem_map.1 htext
      rw [← hvalue, trimmed_trimmed]
    · intro hsame
      rw [hsame] at hdefault
      exact hdefault.resolve_left hne
  target := by
    intro target hkind
    refine ⟨outerTrimmed target, ?_, outerTrimmed_eq_empty_iff⟩
    rw [field.tree_shows.target, hkind]
    exact if_neg ((issues_of_externalKey hkind).1 h)
  noValues := by
    intro hnone
    have hnames := field.names_values
    rw [values_eq_nil hnone] at hnames
    exact List.map_eq_nil_iff.1 hnames
  noTarget := by
    intro hnone
    have htexts := field.tree_shows.target
    rw [target_eq_empty hnone, if_pos rfl] at htexts
    exact List.map_eq_nil_iff.1 htexts

end Field

/-- Where the fields lint is silent, the fields of the document are consistent as far as white space
allows. -/
theorem ClassDefinition.fields_consistent {definition : ClassDefinition}
    (h : definition.fieldIssues = []) (indent : Markup.Indent) :
    ∃ root, Xml.parse (definition.document ⟨.markup, indent⟩).toList = .ok root ∧
      List.Forall₂ Field.ConsistentIn definition.fields
        (root.select ["classes", "class", "fields", "field"]) := by
  have hclass : definition.tree.select ["classes", "class", "fields", "field"] =
      definition.fields.map Field.tree := by
    simp [tree, menuTrees, profileTrees, classTree]
  refine ⟨definition.tree, definition.parse_escaped indent, ?_⟩
  rw [hclass, List.forall₂_map_right_iff, List.forall₂_same]
  intro field hfield
  exact Field.tree_consistent (List.flatMap_eq_nil_iff.1 h field hfield)

/-- A class with a target of white space and with a default that is one of the values but for white
space. -/
def padded : ClassDefinition where
  name := "Server"
  fields := [{ name := "org", kind := .externalKey " " },
    { name := "status", kind := .enumeration ["on", " off"], defaultValue := "\u00a0off" }]

theorem fields_consistent_padded :
    padded.fieldIssues = [] ∧
      ∃ root, Xml.parse (padded.document ⟨.markup, .standard⟩).toList = .ok root ∧
        List.Forall₂ Field.ConsistentIn padded.fields
          (root.select ["classes", "class", "fields", "field"]) := by
  have hsilent : padded.fieldIssues = [] := by decide +kernel
  exact ⟨hsilent, ClassDefinition.fields_consistent hsilent .standard⟩

/-- The lint is silent, and still there is an empty target class and a default that is none of the
values. -/
theorem fieldIssues_padded :
    padded.fieldIssues = [] ∧
      ∃ root, Xml.parse (padded.document ⟨.markup, .standard⟩).toList = .ok root ∧
        root.textsAt ["classes", "class", "fields", "field", "target_class"] = [""] ∧
        root.textsAt ["classes", "class", "fields", "field", "default_value"] = ["", "\u00a0off"] ∧
        root.textsAt ["classes", "class", "fields", "field", "values", "value"] =
          ["on", "off"] := by
  refine ⟨by decide +kernel, padded.tree, padded.parse_escaped .standard, ?_, ?_, ?_⟩
  all_goals decide +kernel

end Datamodel
