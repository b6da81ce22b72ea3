import Datamodel.Proofs.Definition.Document
import Datamodel.Proofs.Definition.Words

/-!
# The markup lint guards verbatim output

The lint keeps a list of embedded values beside the writers of the sections, and nothing in either
refers to the other. Section by section, every value that is written turns out to be on the list, to
be a code the lint looks into, or to be a fixed word or a number. So where the lint reports nothing
every value is carried even when it is written as it is, and the verbatim document is read as the
same tree as the escaped one.
-/

namespace Datamodel

open Escaping (Plain)
open Markup (Node Attributes Indent)

/-- Texts that can be written under any escaping. -/
def AllPlain (texts : List Located) : Prop :=
  ∀ located ∈ texts, Plain located.2.toList

theorem AllPlain.flatMap {α : Type} {items : List α} {embedded : α → List Located}
    (h : AllPlain (items.flatMap embedded)) {item : α} (hitem : item ∈ items) :
    AllPlain (embedded item) :=
  fun located hlocated => h located (List.mem_flatMap_of_mem hitem hlocated)

variable {escaping : Escaping}

/-! ### Nodes whose values are plain -/

theorem no_attributes_carried : Attributes.Carried escaping [] :=
  fun _ hnamed => by contradiction

theorem id_carried {id : String} (h : Plain id.toList) :
    Attributes.Carried escaping [("id", id)] := by
  intro named hnamed
  obtain rfl := List.mem_singleton.1 hnamed
  exact .inr h

theorem typed_carried {id kind : String} (hid : Plain id.toList) (hkind : Plain kind.toList) :
    Attributes.Carried escaping [("id", id), ("xsi:type", kind)] := by
  simp only [Attributes.Carried, List.forall_mem_cons]
  exact ⟨.inr hid, .inr hkind, by simp⟩

theorem textNode_carried (tag : String) {value : String} (h : Plain value.toList) :
    (textNode tag value).Carried escaping :=
  ⟨no_attributes_carried, .inr h⟩

theorem element_carried (tag : String) {attributes : Attributes} {content : List Node}
    (hattributes : Attributes.Carried escaping attributes)
    (hcontent : ∀ node ∈ content, node.Carried escaping) :
    (Node.element tag attributes content).Carried escaping :=
  ⟨hattributes, Node.allCarried_iff.2 hcontent⟩

theorem elementIf_carried (condition : Bool) (tag : String) {content : List Node}
    (hcontent : ∀ node ∈ content, node.Carried escaping) :
    ∀ node ∈ elementIf condition tag content, node.Carried escaping := by
  intro node hnode
  rw [eq_of_mem_elementIf hnode]
  exact element_carried tag no_attributes_carried hcontent

theorem map_carried {α : Type} {items : List α} {node : α → Node}
    (h : ∀ item ∈ items, (node item).Carried escaping) :
    ∀ found ∈ items.map node, found.Carried escaping := by
  intro found hfound
  obtain ⟨item, hitem, rfl⟩ := List.mem_map.1 hfound
  exact h item hitem

/-! ### Sections -/

theorem Properties.node_carried {properties : Properties} (h : AllPlain properties.embedded) :
    properties.node.Carried escaping := by
  simp only [AllPlain, embedded, List.forall_mem_cons] at h
  obtain ⟨hcategory, hkeyType, htable, hkeyColumn, hfinalClassColumn, hnamingFormat, -⟩ := h
  have hentries : ∀ entry ∈ properties.entries, Plain entry.2.toList := by
    simp only [entries, List.forall_mem_cons]
    exact ⟨hcategory, plain_boolText _, hkeyType, htable, hkeyColumn, hfinalClassColumn,
      plain_boolText _, hnamingFormat, by simp⟩
  refine element_carried _ no_attributes_carried (map_carried fun entry hentry => ?_)
  exact textNode_carried entry.1 (hentries entry (List.mem_filter.1 hentry).1)

theorem plain_trimmed {value : String} (h : Plain value.toList) :
    Plain (Text.trimmed value).toList := by
  intro c hc
  rw [Text.trimmed, String.toList_ofList] at hc
  refine h c ?_
  exact (List.dropWhile_suffix Text.isSpace).mem ((List.rdropWhile_prefix Text.isSpace _).mem hc)

theorem FieldKind.nodes_carried {kind : FieldKind} {location : String}
    (h : AllPlain (kind.embedded location)) : ∀ node ∈ kind.nodes, node.Carried escaping := by
  intro node hnode
  obtain ⟨values, rfl, rfl⟩ | ⟨target, rfl, rfl⟩ := FieldKind.eq_of_mem_nodes hnode
  · refine element_carried _ no_attributes_carried (map_carried fun entry hentry => ?_)
    have hvalue : entry.1 ∈ values := List.fst_mem_of_mem_zipIdx hentry
    have hplain := h (location ++ ".values", entry.1) (List.mem_map_of_mem hvalue)
    exact ⟨id_carried (plain_nat entry.2), .inr (plain_trimmed hplain)⟩
  · exact textNode_carried _ (h _ (List.mem_singleton_self _))

theorem Field.node_carried {field : Field} (h : AllPlain field.embedded) :
    field.node.Carried escaping := by
  simp only [AllPlain, embedded, List.forall_mem_append, List.forall_mem_cons] at h
  obtain ⟨⟨hname, hcolumn, hdefault, -⟩, hkind⟩ := h
  refine element_carried _ (typed_carried hname field.type.plain_name) ?_
  simp only [List.forall_mem_append, List.forall_mem_cons]
  exact ⟨⟨textNode_carried _ hcolumn, textNode_carried _ hdefault,
    textNode_carried _ (plain_boolText _), by simp⟩, FieldKind.nodes_carried hkind⟩

theorem State.node_carried {state : State} (h : AllPlain state.embedded) :
    state.node.Carried escaping := by
  simp only [AllPlain, embedded, List.forall_mem_cons] at h
  obtain ⟨hname, hhighlight, -⟩ := h
  refine element_carried _ (id_carried hname) ?_
  simp only [List.forall_mem_cons]
  refine ⟨?_, textNode_carried _ hhighlight, by simp⟩
  exact element_carried _ no_attributes_carried (map_carried fun entry _ =>
    textNode_carried _ (plain_boolText entry.2))

theorem Transition.node_carried {transition : Transition} (h : AllPlain transition.embedded) :
    transition.node.Carried escaping := by
  simp only [AllPlain, embedded, List.forall_mem_append, List.forall_mem_cons,
    List.forall_mem_map] at h
  obtain ⟨⟨hstimulus, htarget, -⟩, hactions⟩ := h
  refine element_carried _ (id_carried hstimulus) ?_
  simp only [List.forall_mem_cons]
  refine ⟨textNode_carried _ htarget, ?_, by simp⟩
  refine element_carried _ no_attributes_carried (map_carried fun verb hverb => ?_)
  simpa using element_carried _ no_attributes_carried
    (by simpa using textNode_carried _ (hactions verb hverb))

theorem Lifecycle.node_carried {lifecycle : Lifecycle} (h : AllPlain lifecycle.embedded) :
    lifecycle.node.Carried escaping := by
  simp only [AllPlain, embedded, List.forall_mem_append, List.forall_mem_cons,
    List.cons_append] at h
  obtain ⟨hdriver, hstates, htransitions⟩ := h
  refine element_carried _ no_attributes_carried ?_
  simp only [List.forall_mem_cons]
  refine ⟨textNode_carried _ hdriver, ?_, ?_, by simp⟩
  · exact element_carried _ no_attributes_carried (map_carried fun state hstate =>
      State.node_carried (AllPlain.flatMap hstates hstate))
  · exact element_carried _ no_attributes_carried (map_carried fun transition htransition =>
      Transition.node_carried (AllPlain.flatMap htransitions htransition))

/-- A method is carried if its name is plain and its code does not hold the closing mark of a
literal block. -/
theorem Method.node_carried {method : Method} (h : AllPlain method.embedded)
    (hcode : Text.contains Escaping.literalClose method.code.toList = false) :
    method.node.Carried escaping := by
  simp only [AllPlain, embedded, List.forall_mem_cons] at h
  refine element_carried _ (id_carried h.1) ?_
  simp only [List.forall_mem_cons]
  have hfalse : Plain "false".toList := plain_boolText false
  have hpublic : Plain "public".toList := plain_iff.2 rfl
  exact ⟨textNode_carried _ hfalse, textNode_carried _ hpublic,
    textNode_carried _ method.kind.plain_name, .inr hcode,
    by simp⟩

theorem Index.node_carried {index : Index} (h : AllPlain index.embedded) :
    index.node.Carried escaping := by
  simp only [AllPlain, embedded, List.forall_mem_cons, List.forall_mem_map] at h
  refine element_carried _ (id_carried h.1) ?_
  rw [List.forall_mem_singleton]
  exact element_carried _ no_attributes_carried (map_carried fun field hfield =>
    id_carried (h.2 field hfield))

theorem Relation.node_carried {relation : Relation} (h : AllPlain relation.embedded) :
    relation.node.Carried escaping := by
  simp only [AllPlain, embedded, List.forall_mem_cons] at h
  obtain ⟨hneighbour, hqueryDown, hqueryUp, -⟩ := h
  refine element_carried _ (id_carried relation.kind.plain_name) ?_
  rw [List.forall_mem_singleton]
  refine element_carried _ no_attributes_carried ?_
  rw [List.forall_mem_singleton]
  refine element_carried _ (id_carried hneighbour) ?_
  simp only [List.forall_mem_cons]
  exact ⟨textNode_carried _ hqueryDown, textNode_carried _ hqueryUp, by simp⟩

theorem MenuEntry.node_carried {menu : MenuEntry} {id : String} (hid : Plain id.toList)
    (h : AllPlain menu.embedded) : (menu.node id).Carried escaping := by
  simp only [AllPlain, embedded, List.forall_mem_cons] at h
  refine element_carried _ (typed_carried hid menu.kind.plain_name) ?_
  simp only [List.forall_mem_append, List.forall_mem_cons]
  refine ⟨⟨textNode_carried _ (plain_int menu.rank), textNode_carried _ h.1, by simp⟩, ?_⟩
  intro node hnode
  obtain ⟨hquery, rfl⟩ := MenuEntry.eq_of_mem_query hnode
  rw [if_pos hquery] at h
  exact textNode_carried _ (h.2 _ (List.mem_singleton_self _))

theorem plain_append {front back : String} (hfront : Plain front.toList)
    (hback : Plain back.toList) : Plain (front ++ back).toList := by
  rw [String.toList_append]
  intro c hc
  exact (List.mem_append.1 hc).elim (hfront c) (hback c)

theorem Profile.node_carried {profile : Profile} {className : String}
    (hclass : Plain className.toList) (h : AllPlain profile.embedded) :
    (profile.node className).Carried escaping := by
  simp only [AllPlain, embedded, List.forall_mem_cons, List.forall_mem_map] at h
  have hmark : Plain "action:".toList := plain_iff.2 rfl
  refine element_carried _ (id_carried h.1) ?_
  rw [List.forall_mem_singleton]
  refine element_carried _ no_attributes_carried ?_
  rw [List.forall_mem_singleton]
  refine element_carried _ (id_carried hclass) ?_
  rw [List.forall_mem_singleton]
  refine element_carried _ no_attributes_carried (map_carried fun entry hentry => ?_)
  exact ⟨id_carried (plain_append hmark (h.2 entry hentry)), .inr entry.2.plain_name⟩

theorem Branding.node_carried {branding : Branding} (h : AllPlain branding.embedded) :
    branding.node.Carried escaping := by
  simp only [AllPlain, embedded, List.forall_mem_cons] at h
  refine element_carried _ no_attributes_carried ?_
  simp only [List.forall_mem_cons]
  exact ⟨textNode_carried _ h.1, textNode_carried _ h.2.1, textNode_carried _ h.2.2.1, by simp⟩

/-! ### The document -/

namespace ClassDefinition

/-- What the silence of the lint says: the listed texts are plain and the codes can be literal
blocks. -/
theorem markupIssues_eq_nil_iff {lintEscaping : Escaping} {definition : ClassDefinition} :
    definition.markupIssues lintEscaping = [] ↔
      AllPlain definition.embedded ∧
        ∀ method ∈ definition.methods, Text.contains Escaping.literalClose method.code.toList =
          false := by
  rw [markupIssues, List.append_eq_nil_iff, List.map_eq_nil_iff, List.map_eq_nil_iff,
    List.filter_eq_nil_iff, List.filter_eq_nil_iff]
  simp only [AllPlain, plain_iff, Bool.not_eq_true]

theorem classNode_carried {definition : ClassDefinition} (h : AllPlain definition.embedded)
    (hcode : ∀ method ∈ definition.methods,
      Text.contains Escaping.literalClose method.code.toList = false) :
    definition.classNode.Carried escaping := by
  simp only [AllPlain, embedded, List.forall_mem_append, List.forall_mem_cons] at h
  obtain ⟨⟨⟨⟨⟨⟨⟨⟨⟨⟨hname, hparent, -⟩, hproperties⟩, hfields⟩, hlifecycle⟩, hmethods⟩, hindexes⟩,
    hrelations⟩, -⟩, -⟩, -⟩ := h
  refine element_carried _ (id_carried hname) ?_
  simp only [List.forall_mem_append, List.forall_mem_cons]
  refine ⟨⟨⟨⟨⟨textNode_carried _ hparent, Properties.node_carried hproperties, ?_, by simp⟩, ?_⟩,
    ?_⟩, ?_⟩, ?_⟩
  · exact element_carried _ no_attributes_carried (map_carried fun field hfield =>
      Field.node_carried (AllPlain.flatMap hfields hfield))
  · rw [Option.toList_map]
    exact map_carried fun lifecycle hactive =>
      Lifecycle.node_carried (AllPlain.flatMap hlifecycle hactive)
  · exact elementIf_carried _ _ (map_carried fun method hmethod =>
      Method.node_carried (AllPlain.flatMap hmethods hmethod) (hcode method hmethod))
  · exact elementIf_carried _ _ (map_carried fun index hindex =>
      Index.node_carried (AllPlain.flatMap hindexes hindex))
  · exact elementIf_carried _ _ (map_carried fun relation hrelation =>
      Relation.node_carried (AllPlain.flatMap hrelations hrelation))

/-- Where the lint reports nothing, every escaping carries the document. -/
theorem rootNode_carried {lintEscaping : Escaping} {definition : ClassDefinition}
    (h : definition.markupIssues lintEscaping = []) : definition.rootNode.Carried escaping := by
  obtain ⟨hplain, hcode⟩ := markupIssues_eq_nil_iff.1 h
  have hclass : definition.classNode.Carried escaping := classNode_carried hplain hcode
  simp only [AllPlain, embedded, List.forall_mem_append, List.forall_mem_cons] at hplain
  obtain ⟨⟨⟨⟨⟨⟨⟨⟨⟨⟨hname, -⟩, -⟩, -⟩, -⟩, -⟩, -⟩, -⟩, hmenu⟩, hprofiles⟩, hbranding⟩ := hplain
  have hroot : Attributes.Carried escaping
      [("xmlns:xsi", "http://www.w3.org/2001/XMLSchema-instance"), ("version", "3.0")] := by
    simp only [Attributes.Carried, List.forall_mem_cons]
    exact ⟨.inr (plain_iff.2 rfl), .inr (plain_iff.2 rfl), by simp⟩
  refine element_carried _ hroot ?_
  simp only [List.forall_mem_append, List.forall_mem_singleton]
  refine ⟨⟨⟨?_, ?_⟩, ?_⟩, ?_⟩
  · exact element_carried _ no_attributes_carried (by simpa using hclass)
  · intro node hnode
    obtain ⟨menu, hsome, rfl⟩ := eq_of_mem_menuNodes hnode
    have hmenus : menu ∈ definition.menu.toList := by simp [hsome]
    have hmark : Plain "_menu".toList := plain_iff.2 rfl
    refine element_carried _ no_attributes_carried ?_
    rw [List.forall_mem_singleton]
    exact MenuEntry.node_carried (plain_append hname hmark) (AllPlain.flatMap hmenu hmenus)
  · refine elementIf_carried _ _ ?_
    rw [List.forall_mem_singleton]
    exact element_carried _ no_attributes_carried (map_carried fun profile hprofile =>
      Profile.node_carried hname (AllPlain.flatMap hprofiles hprofile))
  · rw [Option.toList_map]
    exact map_carried fun branding hactive =>
      Branding.node_carried (AllPlain.flatMap hbranding hactive)

/-- A definition without markup issues can be written verbatim: the document is read as the same
tree as the escaped one. -/
theorem verbatim_document_eq {lintEscaping : Escaping} {definition : ClassDefinition}
    (h : Lint.issues lintEscaping definition .markup = []) (indent : Indent) :
    ∃ root, Xml.parse (definition.document ⟨.verbatim, indent⟩).toList = .ok root ∧
      Xml.parse (definition.document ⟨.markup, indent⟩).toList = .ok root := by
  refine ⟨definition.tree, ?_, definition.parse_escaped indent⟩
  rw [toList_document]
  exact parse_documentChars (rootNode_carried h)

/-- A definition with a quote in a text and with reserved characters in a code, which the lint lets
pass. -/
def guarded : ClassDefinition where
  name := "Server"
  fields := [{ name := "note", defaultValue := "it's empty" }]
  methods := [{ name := "Check", code := "return $a < $b && true;" }]

theorem verbatim_document_eq_guarded :
    Lint.issues .verbatim guarded .markup = [] ∧
      ∃ root, Xml.parse (guarded.document ⟨.verbatim, .tab⟩).toList = .ok root ∧
        Xml.parse (guarded.document ⟨.markup, .tab⟩).toList = .ok root := by
  have hissues : Lint.issues .verbatim guarded .markup = [] := by decide
  exact ⟨hissues, verbatim_document_eq hissues .tab⟩

end ClassDefinition

end Datamodel
