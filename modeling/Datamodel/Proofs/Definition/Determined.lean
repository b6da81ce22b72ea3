import Datamodel.Proofs.Definition.Document
import Datamodel.Proofs.Definition.Normal
import Datamodel.Proofs.Definition.Places
import Datamodel.Proofs.Definition.Shape
import Mathlib

/-!
# The document determines the definition

Two definitions have one document exactly if they have one normal form. The characters of a document
determine its root node, since a document has one form, and a node determines the normal form of
what it was made from, section by section.
-/

namespace Datamodel

open Markup (Node Indent)

/-! ### Words and numbers determine what they stand for -/

theorem boolText_inj {value other : Bool} (h : boolText value = boolText other) :
    value = other := by
  cases value with
  | true => cases other with
    | true => rfl
    | false => contradiction
  | false => cases other with
    | true => contradiction
    | false => rfl

theorem inj_of_read {α : Type} {name : α → String} {read : String → Option α}
    (hread : ∀ item, read (name item) = some item) {item other : α} (h : name item = name other) :
    item = other := by
  have hsome := hread item
  rw [h, hread other] at hsome
  exact (Option.some.inj hsome).symm

theorem FieldType.ofName?_name (type : FieldType) : ofName? type.name = some type := by
  cases type with
  | string | integer | enumeration | externalKey | linkedSet | tagSet | customFields => rfl

theorem MethodKind.ofName?_name (kind : MethodKind) : ofName? kind.name = some kind := by
  cases kind with
  | overload | lifecycleAction | custom => rfl

theorem RelationKind.ofName?_name (kind : RelationKind) : ofName? kind.name = some kind := by
  cases kind with
  | impacts | dependsOn => rfl

theorem MenuKind.ofName?_name (kind : MenuKind) : ofName? kind.name = some kind := by
  cases kind with
  | query | newObject | search => rfl

theorem Right.ofName?_name (right : Right) : ofName? right.name = some right := by
  cases right with
  | allow | deny => rfl

/-! ### Nodes determine the normal form -/

/-- What each item determines, a list of items determines item by item. -/
theorem map_eq_of_map_eq {α β γ : Type} {node : α → β} {normal : α → γ}
    (h : ∀ item other, node item = node other → normal item = normal other) {items others : List α}
    (heq : items.map node = others.map node) : items.map normal = others.map normal := by
  induction items generalizing others with
  | nil =>
    cases others with
    | nil => rfl
    | cons other others => contradiction
  | cons item items ih =>
    cases others with
    | nil => contradiction
    | cons other others =>
      obtain ⟨hfirst, hrest⟩ := List.cons.inj heq
      rw [List.map_cons, List.map_cons, h item other hfirst, ih hrest]

theorem map_inj {α β : Type} {node : α → β}
    (h : ∀ item other, node item = node other → item = other) {items others : List α}
    (heq : items.map node = others.map node) : items = others :=
  List.map_injective_iff.2 h heq

theorem elementIf_inj {tag : String} {content others : List Node}
    (h : elementIf (!content.isEmpty) tag content = elementIf (!others.isEmpty) tag others) :
    content = others := by
  cases content with
  | nil =>
    cases others with
    | nil => rfl
    | cons other others => contradiction
  | cons node content =>
    cases others with
    | nil => contradiction
    | cons other others =>
      rw [elementIf_cons, elementIf_cons, List.singleton_inj, Node.element.injEq] at h
      exact h.2.2

@[simp] theorem textNode_inj {tag name value other : String} :
    textNode tag value = textNode name other ↔ tag = name ∧ value = other := by
  simp [textNode]

/-- Entries under one list of different keys are told apart by those that are not empty. -/
theorem entries_inj {entries others : List (String × String)}
    (hkeys : entries.map (·.1) = others.map (·.1)) (hdistinct : (entries.map (·.1)).Nodup)
    (h : entries.filter (·.2 ≠ "") = others.filter (·.2 ≠ "")) : entries = others := by
  induction entries generalizing others with
  | nil =>
    rw [List.map_nil, eq_comm, List.map_eq_nil_iff] at hkeys
    exact hkeys.symm
  | cons entry entries ih =>
    cases others with
    | nil => contradiction
    | cons other others =>
      obtain ⟨hkey, hkeys⟩ := List.cons.inj hkeys
      obtain ⟨hnew, hdistinct⟩ := List.nodup_cons.1 hdistinct
      have hfirst : ∀ {found : String × String} {rest : List (String × String)},
          found.1 = entry.1 → found ∈ rest → rest.map (·.1) = entries.map (·.1) → False := by
        intro found rest hfound hmem hrest
        have hkey : found.1 ∈ rest.map (·.1) := List.mem_map_of_mem hmem
        rw [hrest, hfound] at hkey
        exact hnew hkey
      by_cases hempty : entry.2 = ""
      · by_cases hother : other.2 = ""
        · rw [List.filter_cons_of_neg (by simpa using hempty),
            List.filter_cons_of_neg (by simpa using hother)] at h
          rw [ih hkeys hdistinct h, Prod.ext hkey (hempty.trans hother.symm)]
        · rw [List.filter_cons_of_neg (by simpa using hempty),
            List.filter_cons_of_pos (by simpa using hother)] at h
          have hmem : other ∈ entries.filter (·.2 ≠ "") := h ▸ List.mem_cons_self
          exact (hfirst hkey.symm (List.mem_filter.1 hmem).1 rfl).elim
      · by_cases hother : other.2 = ""
        · rw [List.filter_cons_of_pos (by simpa using hempty),
            List.filter_cons_of_neg (by simpa using hother)] at h
          have hmem : entry ∈ others.filter (·.2 ≠ "") := h ▸ List.mem_cons_self
          exact (hfirst rfl (List.mem_filter.1 hmem).1 hkeys.symm).elim
        · rw [List.filter_cons_of_pos (by simpa using hempty),
            List.filter_cons_of_pos (by simpa using hother)] at h
          obtain ⟨hsame, hrest⟩ := List.cons.inj h
          rw [hsame, ih hkeys hdistinct hrest]

theorem Properties.node_inj {properties other : Properties} (h : properties.node = other.node) :
    properties = other := by
  have hfilter (properties : Properties) :
      properties.nonEmpty = properties.entries.filter (·.2 ≠ "") :=
    List.filter_congr fun entry _ => not_isEmpty entry.2
  have hnonEmpty : properties.nonEmpty = other.nonEmpty := by
    have hcontent : properties.nonEmpty.map (fun entry => textNode entry.1 entry.2) =
        other.nonEmpty.map fun entry => textNode entry.1 entry.2 := (Node.element.inj h).2.2
    refine map_inj (fun entry other hsame => ?_) hcontent
    obtain ⟨htag, hvalue⟩ := textNode_inj.1 hsame
    exact Prod.ext htag hvalue
  rw [hfilter, hfilter] at hnonEmpty
  have hentries : properties.entries = other.entries := by
    refine entries_inj rfl ?_ hnonEmpty
    rw [map_entries]
    decide
  simp only [entries, List.cons.injEq, Prod.mk.injEq, true_and, and_true] at hentries
  obtain ⟨hcategory, habstract, hkeyType, htable, hkeyColumn, hfinalClassColumn, hlink,
      hnamingFormat⟩ := hentries
  cases properties
  cases other
  rw [Properties.mk.injEq]
  exact ⟨hcategory, boolText_inj habstract, hkeyType, htable, hkeyColumn, hfinalClassColumn,
    boolText_inj hlink, hnamingFormat⟩

theorem FieldKind.normal_eq {kind other : FieldKind} (htype : kind.type = other.type)
    (h : kind.nodes = other.nodes) : kind.normal = other.normal := by
  cases kind with
  | enumeration values =>
    cases other with
    | string | integer | externalKey | linkedSet | tagSet | customFields => contradiction
    | enumeration others =>
      have hempty : ∀ values : List String,
          values.isEmpty = (values.zipIdx.map fun entry : String × Nat => Node.leaf
            (.text "value" [("id", toString entry.2)] (Text.trimmed entry.1))).isEmpty := by
        intro values
        cases values with
        | nil => rfl
        | cons value values => rfl
      have hvalue : ∀ values : List String,
          (values.zipIdx.map fun entry => Text.trimmed entry.1) = values.map Text.trimmed := by
        intro values
        conv_rhs => rw [← List.zipIdx_map_fst 0 values, List.map_map]
        rfl
      rw [nodes, nodes, hempty values, hempty others] at h
      have htrimmed : (values.zipIdx.map fun entry => Text.trimmed entry.1) =
          others.zipIdx.map fun entry => Text.trimmed entry.1 := by
        refine map_eq_of_map_eq (fun entry other hsame => ?_) (elementIf_inj h)
        rw [Node.leaf.injEq, Markup.Leaf.text.injEq] at hsame
        exact hsame.2.2
      rw [normal, normal, ← hvalue, ← hvalue, htrimmed]
  | externalKey target =>
    cases other with
    | string | integer | enumeration | linkedSet | tagSet | customFields => contradiction
    | externalKey other =>
      rw [nodes, nodes] at h
      by_cases hempty : target = ""
      · by_cases hother : other = ""
        · rw [hempty, hother]
        · simp [hempty, hother] at h
      · by_cases hother : other = ""
        · simp [hempty, hother] at h
        · have hsame : target = other := by simpa [hempty, hother] using h
          rw [hsame]
  | string | integer | linkedSet | tagSet | customFields =>
    cases other with
    | string | integer | enumeration | externalKey | linkedSet | tagSet | customFields =>
      first | rfl | contradiction

theorem Field.normal_eq {field other : Field} (h : field.node = other.node) :
    field.normal = other.normal := by
  obtain ⟨⟨hname, htype⟩, hcolumn, hdefault, hnullable, hnodes⟩ :
      (field.name = other.name ∧ field.type.name = other.type.name) ∧ field.column = other.column ∧
        field.defaultValue = other.defaultValue ∧
          boolText field.nullable = boolText other.nullable ∧
          field.kind.nodes = other.kind.nodes := by
    simpa [Field.node] using h
  have hkind := FieldKind.normal_eq (inj_of_read FieldType.ofName?_name htype) hnodes
  rw [normal, normal, hname, hcolumn, hdefault, boolText_inj hnullable, hkind]

theorem State.normal_eq {state other : State} (h : state.node = other.node) :
    state.normal = other.normal := by
  obtain ⟨hname, hflags, hhighlight⟩ : state.name = other.name ∧
      state.normal.flags.map (fun flag => textNode flag.1 (boolText flag.2)) =
        other.normal.flags.map (fun flag => textNode flag.1 (boolText flag.2)) ∧
      state.highlight = other.highlight := by
    simpa [State.node, State.normal] using h
  have hkept : state.normal.flags = other.normal.flags := by
    refine map_inj (fun flag other hsame => ?_) hflags
    obtain ⟨hflag, hvalue⟩ := textNode_inj.1 hsame
    exact Prod.ext hflag (boolText_inj hvalue)
  cases state
  cases other
  rw [State.normal, State.normal, State.mk.injEq]
  exact ⟨hname, hkept, hhighlight⟩

theorem Transition.node_inj {transition other : Transition} (h : transition.node = other.node) :
    transition = other := by
  obtain ⟨hstimulus, htarget, hactions⟩ : transition.stimulus = other.stimulus ∧
      transition.target = other.target ∧
      transition.actions.map (fun verb => Node.element "action" [] [textNode "verb" verb]) =
        other.actions.map fun verb => Node.element "action" [] [textNode "verb" verb] := by
    simpa [Transition.node] using h
  have hverbs : transition.actions = other.actions :=
    map_inj (fun verb other hsame => by simpa using hsame) hactions
  cases transition
  cases other
  rw [Transition.mk.injEq]
  exact ⟨hstimulus, htarget, hverbs⟩

theorem Lifecycle.normal_eq {lifecycle other : Lifecycle} (h : lifecycle.node = other.node) :
    lifecycle.normal = other.normal := by
  obtain ⟨hdriver, hstates, htransitions⟩ : lifecycle.driver = other.driver ∧
      lifecycle.states.map State.node = other.states.map State.node ∧
        lifecycle.transitions.map Transition.node = other.transitions.map Transition.node := by
    simpa [Lifecycle.node] using h
  rw [normal, normal, hdriver, map_eq_of_map_eq (fun _ _ => State.normal_eq) hstates,
    map_inj (fun _ _ => Transition.node_inj) htransitions]

theorem Method.node_inj {method other : Method} (h : method.node = other.node) :
    method = other := by
  obtain ⟨hname, hkind, hcode⟩ : method.name = other.name ∧ method.kind.name = other.kind.name ∧
      method.code = other.code := by
    simpa [Method.node] using h
  cases method
  cases other
  rw [Method.mk.injEq]
  exact ⟨hname, inj_of_read MethodKind.ofName?_name hkind, hcode⟩

theorem Index.node_inj {index other : Index} (h : index.node = other.node) : index = other := by
  obtain ⟨hname, hfields⟩ : index.name = other.name ∧
      index.fields.map (fun field => Node.leaf (.empty "attribute" [("id", field)])) =
        other.fields.map fun field => Node.leaf (.empty "attribute" [("id", field)]) := by
    simpa [Index.node] using h
  cases index
  cases other
  rw [Index.mk.injEq]
  exact ⟨hname, map_inj (fun field other hsame => by simpa using hsame) hfields⟩

theorem Relation.node_inj {relation other : Relation} (h : relation.node = other.node) :
    relation = other := by
  obtain ⟨hkind, hneighbour, hqueryDown, hqueryUp⟩ : relation.kind.name = other.kind.name ∧
      relation.neighbour = other.neighbour ∧ relation.queryDown = other.queryDown ∧
        relation.queryUp = other.queryUp := by
    simpa [Relation.node] using h
  cases relation
  cases other
  rw [Relation.mk.injEq]
  exact ⟨inj_of_read RelationKind.ofName?_name hkind, hneighbour, hqueryDown, hqueryUp⟩

theorem MenuEntry.normal_eq {menu other : MenuEntry} {id id' : String}
    (h : menu.node id = other.node id') : menu.normal = other.normal := by
  obtain ⟨-, hkind, hrank, hparent, hquery⟩ : id = id' ∧ menu.kind.name = other.kind.name ∧
      menu.rank.repr = other.rank.repr ∧ menu.parent = other.parent ∧
      (if menu.hasQuery = true then [textNode "oql" menu.query] else []) =
        if other.hasQuery = true then [textNode "oql" other.query] else [] := by
    simpa [MenuEntry.node, and_assoc] using h
  have hsame : menu.kind = other.kind := inj_of_read MenuKind.ofName?_name hkind
  have hkept : (if menu.kind = .query then menu.query else "") = if other.kind = .query
      then other.query else "" := by
    rw [hasQuery, hasQuery, hsame] at hquery
    rw [hsame]
    by_cases hused : other.kind = .query
    · simpa [hused] using hquery
    · rw [if_neg hused, if_neg hused]
  rw [normal, normal, hkept, hsame, hparent, Int.repr_injective hrank]

theorem Profile.node_inj {profile other : Profile} {className className' : String}
    (h : profile.node className = other.node className') : profile = other := by
  obtain ⟨hname, -, hrights⟩ : profile.name = other.name ∧ className = className' ∧
      profile.rights.map (fun right =>
        Node.leaf (.text "action" [("id", "action:" ++ right.1)] right.2.name)) =
        other.rights.map fun right =>
          Node.leaf (.text "action" [("id", "action:" ++ right.1)] right.2.name) := by
    simpa [Profile.node] using h
  cases profile
  cases other
  rw [Profile.mk.injEq]
  refine ⟨hname, map_inj (fun right other hsame => ?_) hrights⟩
  obtain ⟨haction, hright⟩ : right.1 = other.1 ∧ right.2.name = other.2.name := by
    simpa using hsame
  exact Prod.ext haction (inj_of_read Right.ofName?_name hright)

theorem Branding.node_inj {branding other : Branding} (h : branding.node = other.node) :
    branding = other := by
  obtain ⟨hlogo, hmainColor, hcomplementaryColor⟩ : branding.logo = other.logo ∧
      branding.mainColor = other.mainColor ∧
      branding.complementaryColor = other.complementaryColor := by
    simpa [Branding.node] using h
  cases branding
  cases other
  rw [Branding.mk.injEq]
  exact ⟨hlogo, hmainColor, hcomplementaryColor⟩

/-! ### The document -/

/-- Nodes of one tag in front of nodes of other tags. -/
theorem append_inj_of_tag {tag : String} {front front' back back' : List Node}
    (hfront : ∀ node ∈ front, node.tag = tag) (hfront' : ∀ node ∈ front', node.tag = tag)
    (hback : ∀ node ∈ back, node.tag ≠ tag) (hback' : ∀ node ∈ back', node.tag ≠ tag)
    (h : front ++ back = front' ++ back') : front = front' ∧ back = back' := by
  have hcut : ∀ {front back : List Node}, (∀ node ∈ front, node.tag = tag) →
      (∀ node ∈ back, node.tag ≠ tag) →
      (front ++ back).filter (·.tag = tag) = front ∧
      (front ++ back).filter (·.tag ≠ tag) = back := by
    intro front back hfront hback
    have hkept : front.filter (·.tag = tag) = front :=
      List.filter_eq_self.2 fun node hnode => by simpa using hfront node hnode
    have hother : front.filter (·.tag ≠ tag) = [] :=
      List.filter_eq_nil_iff.2 fun node hnode => by simpa using hfront node hnode
    have hnone : back.filter (·.tag = tag) = [] :=
      List.filter_eq_nil_iff.2 fun node hnode => by simpa using hback node hnode
    have hrest : back.filter (·.tag ≠ tag) = back :=
      List.filter_eq_self.2 fun node hnode => by simpa using hback node hnode
    rw [List.filter_append, List.filter_append, hkept, hother, hnone, hrest, List.append_nil,
      List.nil_append]
    exact ⟨rfl, rfl⟩
  have hfronts := congrArg (List.filter (·.tag = tag)) h
  have hbacks := congrArg (List.filter (·.tag ≠ tag)) h
  rw [(hcut hfront hback).1, (hcut hfront' hback').1] at hfronts
  rw [(hcut hfront hback).2, (hcut hfront' hback').2] at hbacks
  exact ⟨hfronts, hbacks⟩

theorem tag_ne {nodes : List Node} {tag other : String} (h : ∀ node ∈ nodes, node.tag = tag)
    (hne : tag ≠ other) : ∀ node ∈ nodes, node.tag ≠ other :=
  fun node hnode => (h node hnode).trans_ne hne

theorem toList_map_inj {α γ : Type} {node : α → Node} {normal : α → γ}
    (h : ∀ item other, node item = node other → normal item = normal other) {given other : Option α}
    (heq : (given.map node).toList = (other.map node).toList) :
    given.map normal = other.map normal := by
  cases given with
  | none =>
    cases other with
    | none => rfl
    | some other => contradiction
  | some item =>
    cases other with
    | none => contradiction
    | some other =>
      rw [Option.map_some, Option.map_some, Option.toList_some, Option.toList_some,
        List.singleton_inj] at heq
      rw [Option.map_some, Option.map_some, h item other heq]

namespace ClassDefinition

variable {definition other : ClassDefinition}

theorem menu_normal_eq (h : definition.menuNodes = other.menuNodes) :
    definition.menu.map MenuEntry.normal = other.menu.map MenuEntry.normal := by
  rw [menuNodes, menuNodes] at h
  cases hmenu : definition.menu with
  | none =>
    cases hother : other.menu with
    | none => rfl
    | some entry =>
      rw [hmenu, hother] at h
      contradiction
  | some menu =>
    cases hother : other.menu with
    | none =>
      rw [hmenu, hother] at h
      contradiction
    | some entry =>
      rw [hmenu, hother, List.singleton_inj, Node.element.injEq, List.singleton_inj] at h
      rw [Option.map_some, Option.map_some, MenuEntry.normal_eq h.2.2]

theorem profiles_eq (h : definition.profileNodes = other.profileNodes)
    (hname : definition.name = other.name) : definition.profiles = other.profiles := by
  rw [profileNodes, profileNodes, hname] at h
  cases hprofiles : definition.profiles with
  | nil =>
    cases hothers : other.profiles with
    | nil => rfl
    | cons profile profiles =>
      rw [hprofiles, hothers] at h
      contradiction
  | cons profile profiles =>
    cases hothers : other.profiles with
    | nil =>
      rw [hprofiles, hothers] at h
      contradiction
    | cons profile' profiles' =>
      rw [hprofiles, hothers, elementIf_cons, elementIf_cons, List.singleton_inj,
        Node.element.injEq, List.singleton_inj, Node.element.injEq] at h
      exact map_inj (fun _ _ => Profile.node_inj) h.2.2.2.2

theorem normal_lifecycle (definition : ClassDefinition) :
    definition.normal.lifecycle = definition.activeLifecycle.map Lifecycle.normal := by
  rw [activeLifecycle_eq, normal]

theorem normal_branding (definition : ClassDefinition) :
    definition.normal.branding = definition.activeBranding := by
  rw [activeBranding_eq, normal]

theorem normal_eq_of_classNode (h : definition.classNode = other.classNode) :
    definition.name = other.name ∧ definition.parent = other.parent ∧
      definition.properties = other.properties ∧
      definition.fields.map Field.normal = other.fields.map Field.normal ∧
      definition.normal.lifecycle = other.normal.lifecycle ∧ definition.methods = other.methods ∧
      definition.indexes = other.indexes ∧ definition.relations = other.relations := by
  rw [classNode, classNode, Node.element.injEq] at h
  simp only [List.append_assoc, List.cons_append, List.nil_append, List.cons.injEq, Prod.mk.injEq,
    true_and, and_true, textNode_inj, Node.element.injEq] at h
  obtain ⟨hname, hparent, hproperties, hfields, hrest⟩ := h
  have hlast : ∀ (definition : ClassDefinition) {tag : String}, "indexes" ≠ tag →
      "relations" ≠ tag → ∀ node ∈
      elementIf (!definition.indexes.isEmpty) "indexes" (definition.indexes.map Index.node) ++
        elementIf (!definition.relations.isEmpty) "relations"
          (definition.relations.map Relation.node),
      node.tag ≠ tag := fun _ _ hindexes hrelations =>
    List.forall_mem_append.2 ⟨tag_ne tag_elementIf hindexes, tag_ne tag_elementIf hrelations⟩
  obtain ⟨hlifecycle, hrest⟩ := append_inj_of_tag Node.tag_toList Node.tag_toList
    (List.forall_mem_append.2 ⟨tag_ne tag_elementIf (by decide),
      hlast definition (by decide) (by decide)⟩)
    (List.forall_mem_append.2 ⟨tag_ne tag_elementIf (by decide),
      hlast other (by decide) (by decide)⟩) hrest
  obtain ⟨hmethods, hrest⟩ := append_inj_of_tag tag_elementIf tag_elementIf
    (hlast definition (by decide) (by decide)) (hlast other (by decide) (by decide)) hrest
  obtain ⟨hindexes, hrelations⟩ := append_inj_of_tag tag_elementIf tag_elementIf
    (tag_ne tag_elementIf (by decide)) (tag_ne tag_elementIf (by decide)) hrest
  rw [← List.isEmpty_map (f := Method.node), ← List.isEmpty_map (f := Method.node)] at hmethods
  rw [← List.isEmpty_map (f := Index.node), ← List.isEmpty_map (f := Index.node)] at hindexes
  rw [← List.isEmpty_map (f := Relation.node),
    ← List.isEmpty_map (f := Relation.node)] at hrelations
  rw [normal_lifecycle, normal_lifecycle]
  exact ⟨hname, hparent, Properties.node_inj hproperties,
    map_eq_of_map_eq (fun _ _ => Field.normal_eq) hfields,
    toList_map_inj (fun _ _ => Lifecycle.normal_eq) hlifecycle,
    map_inj (fun _ _ => Method.node_inj) (elementIf_inj hmethods),
    map_inj (fun _ _ => Index.node_inj) (elementIf_inj hindexes),
    map_inj (fun _ _ => Relation.node_inj) (elementIf_inj hrelations)⟩

/-- The root node of a document determines the normal form. -/
theorem normal_eq_of_rootNode (h : definition.rootNode = other.rootNode) :
    definition.normal = other.normal := by
  rw [rootNode, rootNode, Node.element.injEq, List.append_assoc, List.append_assoc,
    List.append_assoc, List.append_assoc] at h
  obtain ⟨hclasses, hrest⟩ := List.cons.inj h.2.2
  rw [Node.element.injEq, List.singleton_inj] at hclasses
  obtain ⟨hname, hparent, hproperties, hfields, hlifecycle, hmethods, hindexes, hrelations⟩ :=
    normal_eq_of_classNode hclasses.2.2
  obtain ⟨hmenus, hrest⟩ := append_inj_of_tag tag_menuNodes tag_menuNodes
    (List.forall_mem_append.2 ⟨tag_ne tag_elementIf (by decide),
      tag_ne Node.tag_toList (by decide)⟩)
    (List.forall_mem_append.2 ⟨tag_ne tag_elementIf (by decide),
      tag_ne Node.tag_toList (by decide)⟩) hrest
  obtain ⟨hprofiles, hbranding⟩ := append_inj_of_tag tag_elementIf tag_elementIf
    (tag_ne Node.tag_toList (by decide)) (tag_ne Node.tag_toList (by decide)) hrest
  have hshown : definition.normal.branding = other.normal.branding := by
    have hmap : definition.activeBranding.map id = other.activeBranding.map id :=
      toList_map_inj (fun _ _ => Branding.node_inj) hbranding
    rwa [Option.map_id, id, id, ← normal_branding, ← normal_branding] at hmap
  have hmenu := menu_normal_eq hmenus
  have hgranted := profiles_eq hprofiles hname
  cases definition
  cases other
  rw [normal, normal, ClassDefinition.mk.injEq]
  exact ⟨hname, hparent, hproperties, hfields, hlifecycle, hmethods, hindexes, hrelations, hmenu,
    hgranted, hshown⟩

/-- Two definitions have one document, in whatever indentation, exactly if they agree up to what a
document shows. -/
theorem document_eq_iff (definition other : ClassDefinition) (indent : Indent) :
    definition.document ⟨.markup, indent⟩ = other.document ⟨.markup, indent⟩ ↔
    definition.normal = other.normal := by
  constructor
  · intro h
    have hchars : definition.documentChars ⟨.markup, indent⟩ =
        other.documentChars ⟨.markup, indent⟩ := by
      rw [← toList_document, ← toList_document, h]
    have hlines := List.append_cancel_left hchars
    rw [← List.append_nil (definition.rootNode.render _ _),
      ← List.append_nil (other.rootNode.render _ _)] at hlines
    exact normal_eq_of_rootNode
      (Node.render_inj definition.rootNode_wellFormed other.rootNode_wellFormed
      definition.rootNode_fits other.rootNode_fits hlines).1
  · intro h
    have hroot : definition.rootNode = other.rootNode := by
      rw [← rootNode_normal definition, ← rootNode_normal other, h]
    rw [document, document, documentChars, documentChars, hroot]

end ClassDefinition

end Datamodel
