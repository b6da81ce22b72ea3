import Datamodel.Proofs.Json.Compact
import Datamodel.Proofs.Json.Members
import Datamodel.Proofs.Xml.Selection
import Datamodel.Xml.Rendering

/-!
# What a rendering tells of an element

The JSON of an element has four forms that overlap in what they look like: a string for a leaf, an
object for anything else, in which attributes and text hide among the children under marked keys,
and an array for a repeated child. As long as no child has a marked name they can be told apart:
what is found in the object under a key is an attribute, the text or a group, by the key alone. So
nothing is lost but the order of attributes and of groups, and that is lost for certain, since an
object is put in the order of its keys.
-/

namespace Datamodel.Xml

/-- Elements by what they hold. -/
theorem Element.induction {motive : Element → Prop}
    (h : ∀ element, (∀ group ∈ element.children, ∀ member ∈ group.2.toList, motive member) →
      motive element)
    (element : Element) : motive element :=
  h element fun _ _ member _ => induction h member
termination_by element
decreasing_by
  rename_i group hgroup hmember
  have hgroup := List.sizeOf_lt_of_mem hgroup
  have hmember := List.sizeOf_lt_of_mem hmember
  obtain ⟨name, attributes, text, children⟩ := element
  obtain ⟨key, _ | _⟩ := group
  · simp [Siblings.toList] at hgroup hmember ⊢
    omega
  · simp [Siblings.toList] at hgroup hmember ⊢
    omega

/-- Groups of one name that are held alike and whose members are related in order. -/
inductive Siblings.SameShape {α : Type} (r : α → α → Prop) :
    String × Siblings α → String × Siblings α → Prop where
  | one {name : String} {element other : α} (member : r element other) :
      SameShape r (name, .one element) (name, .one other)
  | many {name : String} {elements others : List α} (members : List.Forall₂ r elements others) :
      SameShape r (name, .many elements) (name, .many others)

namespace Element

/-- Elements that are equal but for the order of the attributes and of the groups of each
element. -/
inductive Reordered : Element → Element → Prop where
  | intro {name text : String} {attributes others : List (String × String)}
      {children middle groups : List (String × Siblings Element)}
      (attributes_perm : attributes.Perm others)
      (shapes : List.Forall₂ (Siblings.SameShape Reordered) children middle)
      (groups_perm : middle.Perm groups) :
      Reordered ⟨name, attributes, text, children⟩ ⟨name, others, text, groups⟩

/-- What the reader sees to in every element. -/
structure Orderly (element : Element) : Prop where
  attributes : (element.attributes.map (·.1)).Nodup
  groups : (element.children.map (·.1)).Nodup
  alike : ∀ group ∈ element.children, ∀ member ∈ group.2.toList, member.name = group.1

/-- A key that an object uses for attributes or for text. -/
def IsMarked (key : String) : Prop :=
  key.toList.head? = some '@' ∨ key = "#text"

/-- An element whose children do not have marked names. -/
def Unmarked (element : Element) : Prop :=
  ∀ group ∈ element.children, ¬IsMarked group.1

end Element

/-! ### What the reader sees to -/

theorem attributesFrom_distinct {seen : List (List Char × Nat)} {place : Nat} {s : List Char}
    {attributes : List (String × String)} (h : attributesFrom seen place s = .ok attributes) :
    (attributes.map (·.1)).Nodup ∧ ∀ entry ∈ attributes, ∀ known ∈ seen,
      known.1 ≠ entry.1.toList := by
  fun_induction attributesFrom seen place s generalizing attributes
  case case1 =>
    obtain rfl := Except.ok.inj h
    simp
  case case7 seen place s _ _ _ keyPlace key _ _ _ _ _ _ hunseen nextPlace _ rest _ _ value _ ih =>
    cases hrest : attributesFrom ((key, keyPlace) :: seen) nextPlace rest with
    | error cause =>
      rw [hrest] at h
      contradiction
    | ok others =>
      rw [hrest] at h
      obtain rfl := Except.ok.inj h
      obtain ⟨hdistinct, hknown⟩ := ih hrest
      rw [List.map_cons, List.nodup_cons, List.forall_mem_cons]
      refine ⟨⟨?_, hdistinct⟩, ?_, fun entry hentry known hmem =>
        hknown entry hentry known (.tail _ hmem)⟩
      · intro hmem
        obtain ⟨entry, hentry, hname⟩ := List.mem_map.1 hmem
        refine hknown entry hentry (key, keyPlace) List.mem_cons_self ?_
        rw [hname, String.toList_ofList]
      · intro known hmem
        rw [String.toList_ofList]
        simpa using List.find?_eq_none.1 hunseen known hmem
  all_goals contradiction

theorem nodup_attributesOf (tag : List Char) : ((attributesOf tag).map (·.1)).Nodup := by
  rw [attributesOf]
  cases h : tagAttributes tag with
  | error cause => exact List.nodup_nil
  | ok attributes => exact (attributesFrom_distinct h).1

mutual

theorem nodup_of_tree? {piece : Piece} {tree node : Tree} {address : List Nat} {path : List String}
    (htree : piece.tree? = some tree) (hnode : tree.Reaches address path node) :
    (node.toElement.attributes.map (·.1)).Nodup := by
  cases piece with
  | element tag content =>
    obtain rfl := Option.some.inj htree
    cases hnode with
    | here => exact nodup_attributesOf tag
    | child hchild hnode => exact nodup_of_mem_trees (List.mem_of_getElem? hchild) hnode
  | empty tag =>
    obtain rfl := Option.some.inj htree
    cases hnode with
    | here => exact nodup_attributesOf tag
    | child hchild _ => contradiction
  | text | literal | aside => contradiction

theorem nodup_of_mem_trees {pieces : List Piece} {tree node : Tree} {address : List Nat}
    {path : List String} (htree : tree ∈ Piece.trees pieces)
    (hnode : tree.Reaches address path node) : (node.toElement.attributes.map (·.1)).Nodup := by
  cases pieces with
  | nil => contradiction
  | cons piece pieces =>
    rw [Piece.trees, List.mem_append, Option.mem_toList] at htree
    rcases htree with htree | htree
    · exact nodup_of_tree? htree hnode
    · exact nodup_of_mem_trees htree hnode

end

theorem orderly_of_parse {source : List Char} {root element : Element} (h : parse source = .ok root)
    (helement : root.Holds element) : element.Orderly := by
  obtain ⟨tree, ⟨piece, _, htree⟩, rfl⟩ := outlines_of_parse h
  obtain ⟨address, path, node, hnode, rfl⟩ := Tree.holds_toElement_iff.1 helement
  have hgroups := Element.groups_of_grouped node.children_toElement
  exact ⟨nodup_of_tree? htree hnode, hgroups.distinct, hgroups.alike⟩

/-! ### What is found in a rendering -/

def Siblings.toJson : Siblings Element → Json
  | .one element => element.toJson
  | .many elements => .arr (elementsJson elements)

theorem elementsJson_eq_map (elements : List Element) :
    elementsJson elements = elements.map (·.toJson) := by
  induction elements with
  | nil => rfl
  | cons element elements ih => rw [elementsJson, ih, List.map_cons]

theorem groupsJson_eq_map (groups : List (String × Siblings Element)) :
    groupsJson groups = groups.map fun group => (group.1, group.2.toJson) := by
  induction groups with
  | nil => rfl
  | cons group groups ih =>
    obtain ⟨name, element | elements⟩ := group
    · rw [groupsJson, ih]
      rfl
    · rw [groupsJson, ih]
      rfl

namespace Element

variable {element : Element}

def attributeMembers (attributes : List (String × String)) : List (String × Json) :=
  attributes.map fun (name, value) => ("@" ++ name, Json.str value)

def textMembers (text : String) : List (String × Json) :=
  if text.isEmpty then [] else [("#text", Json.str text)]

def members (element : Element) : List (String × Json) :=
  Json.insertAll (textMembers element.text)
    (Json.insertAll (groupsJson element.children)
      (Json.insertAll (attributeMembers element.attributes) []))

theorem toJson_eq (element : Element) :
    element.toJson = if element.isLeaf then .str element.text else .obj element.members := by
  cases element
  rw [toJson]
  rfl

theorem ordered_members (element : Element) : Json.Ordered element.members :=
  ((Json.Ordered.insertAll .nil _).insertAll _).insertAll _

theorem attributeKey_inj {name other : String} (h : "@" ++ name = "@" ++ other) : name = other := by
  have hchars := congrArg String.toList h
  rw [String.toList_append, String.toList_append, List.append_cancel_left_eq] at hchars
  exact String.toList_inj.1 hchars

theorem head?_attributeKey (name : String) : ("@" ++ name).toList.head? = some '@' := by
  rw [String.toList_append]
  rfl

theorem nodup_attributeMembers {attributes : List (String × String)}
    (h : (attributes.map (·.1)).Nodup) : ((attributeMembers attributes).map (·.1)).Nodup := by
  have hkeys : (attributeMembers attributes).map (·.1) = (attributes.map (·.1)).map ("@" ++ ·) := by
    rw [attributeMembers, List.map_map, List.map_map]
    rfl
  rw [hkeys]
  exact h.map fun _ _ => attributeKey_inj

theorem lookup_attributeMembers (attributes : List (String × String)) (name : String) :
    (attributeMembers attributes).lookup ("@" ++ name) = (attributes.lookup name).map .str := by
  induction attributes with
  | nil => rfl
  | cons entry attributes ih =>
    rw [attributeMembers, List.map_cons, lookup_cons, ← attributeMembers, ih, lookup_cons]
    by_cases h : name = entry.1
    · rw [if_pos h, if_pos (congrArg _ h), Option.map_some]
    · rw [if_neg h, if_neg fun hkey => h (attributeKey_inj hkey)]

theorem lookup_attributeMembers_of_head {attributes : List (String × String)} {key : String}
    (h : key.toList.head? ≠ some '@') : (attributeMembers attributes).lookup key = none := by
  rw [lookup_eq_none_iff, attributeMembers, List.map_map, List.mem_map]
  rintro ⟨entry, -, rfl⟩
  exact h (head?_attributeKey entry.1)

theorem lookup_textMembers {text key : String} (h : key ≠ "#text") :
    (textMembers text).lookup key = none := by
  rw [textMembers]
  split
  · rfl
  · rw [lookup_cons, if_neg h]
    rfl

theorem lookup_groupsJson (groups : List (String × Siblings Element)) (key : String) :
    (groupsJson groups).lookup key = (groups.lookup key).map Siblings.toJson := by
  rw [groupsJson_eq_map]
  exact lookup_map_snd _

theorem Unmarked.lookup_eq_none (h : element.Unmarked) {key : String} (hkey : IsMarked key) :
    element.children.lookup key = none := by
  rw [lookup_eq_none_iff, List.mem_map]
  rintro ⟨group, hgroup, rfl⟩
  exact h group hgroup hkey

/-- Text is found before children, and children before attributes. -/
theorem Orderly.lookup_members (h : element.Orderly) (key : String) :
    element.members.lookup key = ((textMembers element.text).lookup key).or
      (((element.children.lookup key).map Siblings.toJson).or
        ((attributeMembers element.attributes).lookup key)) := by
  have htext : ((textMembers element.text).map (·.1)).Nodup := by
    rw [textMembers]
    split
    · exact List.nodup_nil
    · exact List.nodup_singleton _
  have hgroups : ((groupsJson element.children).map (·.1)).Nodup := by
    rw [groupsJson_eq_map, List.map_map]
    exact h.groups
  rw [members, Json.lookup_insertAll htext, Json.lookup_insertAll hgroups,
    Json.lookup_insertAll (nodup_attributeMembers h.attributes), lookup_groupsJson, List.lookup_nil,
    Option.or_none]

theorem Orderly.lookup_attribute (h : element.Orderly) (hnames : element.Unmarked) (name : String) :
    element.members.lookup ("@" ++ name) = (element.attributes.lookup name).map .str := by
  have htext : "@" ++ name ≠ "#text" := by
    intro hsame
    have hhead := head?_attributeKey name
    rw [hsame] at hhead
    exact absurd hhead (by decide)
  rw [h.lookup_members, lookup_textMembers htext,
    hnames.lookup_eq_none (.inl (head?_attributeKey name)), lookup_attributeMembers, Option.none_or,
    Option.map_none, Option.none_or]

theorem Orderly.lookup_text (h : element.Orderly) (hnames : element.Unmarked) :
    element.members.lookup "#text" =
      if element.text.isEmpty then none else some (.str element.text) := by
  rw [h.lookup_members, hnames.lookup_eq_none (.inr rfl),
    lookup_attributeMembers_of_head (by decide), textMembers]
  split <;> rfl

theorem Orderly.lookup_group (h : element.Orderly) {key : String} (hkey : ¬IsMarked key) :
    element.members.lookup key = (element.children.lookup key).map Siblings.toJson := by
  rw [h.lookup_members, lookup_textMembers fun hsame => hkey (.inr hsame),
    lookup_attributeMembers_of_head fun hhead => hkey (.inl hhead), Option.none_or, Option.or_none]

/-! ### From the rendering back to the element -/

/-- A tree as the reader makes it, in which no child has a marked name. -/
def Legible (root : Element) : Prop :=
  ∀ element, root.Holds element → element.Orderly ∧ element.Unmarked

variable {one other : Element}

theorem Legible.orderly (h : one.Legible) : one.Orderly :=
  (h one .root).1

theorem Legible.unmarked (h : one.Legible) : one.Unmarked :=
  (h one .root).2

theorem Legible.member (h : one.Legible) {group : String × Siblings Element}
    (hgroup : group ∈ one.children) {member : Element} (hmember : member ∈ group.2.toList) :
    member.Legible :=
  fun element helement => h element ((Holds.member .root hgroup hmember).trans helement)

theorem Legible.text_eq (hone : one.Legible) (hother : other.Legible)
    (h : one.members = other.members) : one.text = other.text := by
  have htext := hone.orderly.lookup_text hone.unmarked
  rw [h, hother.orderly.lookup_text hother.unmarked] at htext
  split at htext
  · rename_i hempty
    split at htext
    · rename_i hempty'
      rw [String.isEmpty_iff.1 hempty, String.isEmpty_iff.1 hempty']
    · contradiction
  · split at htext
    · contradiction
    · exact (Json.str.inj (Option.some.inj htext)).symm

theorem Legible.attributes_perm (hone : one.Legible) (hother : other.Legible)
    (h : one.members = other.members) : one.attributes.Perm other.attributes := by
  refine perm_of_lookup_eq hone.orderly.attributes hother.orderly.attributes fun name => ?_
  have hvalue := hone.orderly.lookup_attribute hone.unmarked name
  rw [h, hother.orderly.lookup_attribute hother.unmarked] at hvalue
  exact Option.map_injective (fun _ _ => Json.str.inj) hvalue.symm

theorem Legible.lookup_eq (hone : one.Legible) (hother : other.Legible)
    (h : one.members = other.members) (key : String) :
    (one.children.lookup key).map Siblings.toJson =
      (other.children.lookup key).map Siblings.toJson := by
  by_cases hkey : IsMarked key
  · rw [hone.unmarked.lookup_eq_none hkey, hother.unmarked.lookup_eq_none hkey]
  · rw [← hone.orderly.lookup_group hkey, h, hother.orderly.lookup_group hkey]

theorem toJson_ne_arr (element : Element) (values : List Json) : element.toJson ≠ .arr values := by
  rw [toJson_eq]
  split <;> simp

theorem forall₂_of_map_eq {r : Element → Element → Prop} {elements others : List Element}
    (h : elements.map (·.toJson) = others.map (·.toJson))
    (hr : ∀ element ∈ elements, ∀ other ∈ others, element.toJson = other.toJson → r element other) :
    List.Forall₂ r elements others := by
  induction elements generalizing others with
  | nil =>
    obtain rfl := List.map_eq_nil_iff.1 h.symm
    exact .nil
  | cons element elements ih =>
    cases others with
    | nil => contradiction
    | cons other others =>
      obtain ⟨hfirst, hrest⟩ := List.cons.inj h
      refine .cons (hr element List.mem_cons_self other List.mem_cons_self hfirst) (ih hrest ?_)
      exact fun element helement other hother =>
        hr element (List.mem_cons_of_mem _ helement) other (List.mem_cons_of_mem _ hother)

/-- Groups of one name with one rendering are held alike, for only a list is rendered as an
array. -/
theorem sameShape_of_toJson_eq {r : Element → Element → Prop}
    {group other : String × Siblings Element} (hname : group.1 = other.1)
    (h : group.2.toJson = other.2.toJson)
    (hr : ∀ member ∈ group.2.toList, ∀ mate ∈ other.2.toList, member.toJson = mate.toJson →
      r member mate) :
    Siblings.SameShape r group other := by
  obtain ⟨name, held⟩ := group
  obtain ⟨_, held'⟩ := other
  obtain rfl := hname
  cases held with
  | one element =>
    cases held' with
    | one mate => exact .one (hr element List.mem_cons_self mate List.mem_cons_self h)
    | many mates => exact absurd h (toJson_ne_arr element _)
  | many elements =>
    cases held' with
    | one mate => exact absurd h.symm (toJson_ne_arr mate _)
    | many mates =>
      have hlists := Json.arr.inj h
      rw [elementsJson_eq_map, elementsJson_eq_map] at hlists
      exact .many (forall₂_of_map_eq hlists hr)

theorem reordered_of_toJson_eq (hname : one.name = other.name) (hone : one.Legible)
    (hother : other.Legible) (h : one.toJson = other.toJson) : one.Reordered other := by
  induction one using Element.induction generalizing other with
  | h one ih =>
    rw [toJson_eq, toJson_eq] at h
    by_cases hleaf : one.isLeaf = true
    · by_cases hleaf' : other.isLeaf = true
      · rw [if_pos hleaf, if_pos hleaf'] at h
        rw [isLeaf, Bool.and_eq_true, List.isEmpty_iff, List.isEmpty_iff] at hleaf hleaf'
        obtain ⟨name, attributes, text, children⟩ := one
        obtain ⟨name', attributes', text', children'⟩ := other
        obtain ⟨rfl, rfl⟩ := hleaf
        obtain ⟨rfl, rfl⟩ := hleaf'
        obtain rfl := hname
        obtain rfl := Json.str.inj h
        exact .intro .nil .nil .nil
      · rw [if_pos hleaf, if_neg hleaf'] at h
        contradiction
    · by_cases hleaf' : other.isLeaf = true
      · rw [if_neg hleaf, if_pos hleaf'] at h
        contradiction
      · rw [if_neg hleaf, if_neg hleaf'] at h
        have hmembers := Json.obj.inj h
        have hgroups : ∀ group ∈ one.children, ∀ mate ∈ other.children, group.1 = mate.1 →
            group.2.toJson = mate.2.toJson → Siblings.SameShape Reordered group mate := by
          intro group hgroup mate hmate hsame hjson
          refine sameShape_of_toJson_eq hsame hjson fun member hmember partner hpartner hequal => ?_
          refine ih group hgroup member hmember ?_ (hone.member hgroup hmember)
            (hother.member hmate hpartner) hequal
          rw [hone.orderly.alike group hgroup member hmember,
            hother.orderly.alike mate hmate partner hpartner, hsame]
        obtain ⟨middle, hshapes, hperm⟩ :=
          exists_forall₂_perm hone.orderly.groups hother.orderly.groups
          (hone.lookup_eq hother hmembers) hgroups
        have hattributes := hone.attributes_perm hother hmembers
        have htext := hone.text_eq hother hmembers
        obtain ⟨name, attributes, text, children⟩ := one
        obtain ⟨name', attributes', text', children'⟩ := other
        obtain rfl := hname
        obtain rfl := htext
        exact .intro hattributes hshapes hperm

/-! ### The order that a rendering does not show -/

theorem groupsJson_eq_of_shapes {r : Element → Element → Prop}
    {groups others : List (String × Siblings Element)}
    (h : List.Forall₂ (Siblings.SameShape r) groups others)
    (hr : ∀ group ∈ groups, ∀ member ∈ group.2.toList, ∀ other ∈ others, ∀ mate ∈ other.2.toList,
      r member mate → member.toJson = mate.toJson) : groupsJson groups = groupsJson others := by
  induction h with
  | nil => rfl
  | @cons group other groups others hfirst _ ih =>
    have hrest := ih fun group hgroup member hmember other hother =>
      hr group (List.mem_cons_of_mem _ hgroup) member hmember other (List.mem_cons_of_mem _ hother)
    have hfirst' := hr group List.mem_cons_self
    cases hfirst with
    | one member =>
      rw [groupsJson, groupsJson, hrest,
        hfirst' _ List.mem_cons_self _ List.mem_cons_self _ List.mem_cons_self member]
    | @many name elements mates members =>
      have hmates : List.Forall₂ (fun member mate => member.toJson = mate.toJson) elements
          mates := by
        rw [List.forall₂_iff_zip] at members ⊢
        refine ⟨members.1, fun {member mate} hzip => ?_⟩
        obtain ⟨hmember, hmate⟩ := List.of_mem_zip hzip
        exact hfirst' member hmember _ List.mem_cons_self mate hmate (members.2 hzip)
      have hrendered : elements.map (·.toJson) = mates.map (·.toJson) := by
        rwa [← List.forall₂_eq_eq_eq, List.forall₂_map_left_iff, List.forall₂_map_right_iff]
      rw [groupsJson, groupsJson, hrest, elementsJson_eq_map, elementsJson_eq_map, hrendered]

theorem toJson_eq_of_reordered (hone : one.Legible) (hother : other.Legible)
    (h : one.Reordered other) : one.toJson = other.toJson := by
  induction one using Element.induction generalizing other with
  | h one ih =>
    obtain @⟨name, text, attributes, others, children, middle, groups, hattributes, hshapes,
        hperm⟩ := h
    have hrendered : groupsJson children = groupsJson middle := by
      refine groupsJson_eq_of_shapes hshapes
        fun group hgroup member hmember mate hmate partner hpartner hsame => ?_
      exact ih group hgroup member hmember (hone.member hgroup hmember)
        (hother.member (hperm.mem_iff.1 hmate) hpartner) hsame
    have hgroups : ∀ key, (children.lookup key).map Siblings.toJson =
        (groups.lookup key).map Siblings.toJson := by
      intro key
      have hmiddle : (groupsJson middle).Perm (groupsJson groups) := by
        rw [groupsJson_eq_map, groupsJson_eq_map]
        exact hperm.map _
      have hdistinct : ((groupsJson middle).map (·.1)).Nodup := by
        rw [← hrendered, groupsJson_eq_map, List.map_map]
        exact hone.orderly.groups
      rw [← lookup_groupsJson, ← lookup_groupsJson, hrendered, lookup_perm hmiddle hdistinct]
    have hmembers : members ⟨name, attributes, text, children⟩ =
        members ⟨name, others, text, groups⟩ := by
      refine Json.eq_of_lookup_eq (ordered_members _) (ordered_members _) fun key => ?_
      have hnamed : (attributeMembers attributes).lookup key =
          (attributeMembers others).lookup key :=
        lookup_perm (hattributes.map _) (nodup_attributeMembers hone.orderly.attributes)
      rw [hone.orderly.lookup_members, hother.orderly.lookup_members, hnamed, hgroups]
    have hleaf : isLeaf ⟨name, attributes, text, children⟩ =
        isLeaf ⟨name, others, text, groups⟩ := by
      have hlength := hshapes.length_eq.trans hperm.length_eq
      rw [Bool.eq_iff_iff, isLeaf, isLeaf, Bool.and_eq_true, Bool.and_eq_true,
        List.isEmpty_iff_length_eq_zero, List.isEmpty_iff_length_eq_zero,
        List.isEmpty_iff_length_eq_zero, List.isEmpty_iff_length_eq_zero, hlength,
        hattributes.length_eq]
    rw [toJson_eq, toJson_eq, hleaf, hmembers]

/-- Whatever is read is a tree in which only marked names can be in the way. Two trees of one name
without marked names have one rendering exactly where they differ in order only, and the same holds
of the text of the rendering. -/
theorem rendering_eq_iff :
    (∀ (source : List Char) (root : Element), parse source = .ok root →
      (∀ element, root.Holds element → element.Unmarked) → root.Legible) ∧
    ∀ one other : Element, one.name = other.name → one.Legible → other.Legible →
      (one.toJson = other.toJson ↔ one.Reordered other) ∧
        (one.toJson.compact = other.toJson.compact ↔ one.Reordered other) := by
  refine ⟨fun source root hparse hnames element helement =>
    ⟨orderly_of_parse hparse helement, hnames element helement⟩,
    fun one other hname hone hother => ?_⟩
  have hjson : one.toJson = other.toJson ↔ one.Reordered other :=
    ⟨reordered_of_toJson_eq hname hone hother, toJson_eq_of_reordered hone hother⟩
  have htext : one.toJson.compact = other.toJson.compact ↔ one.toJson = other.toJson :=
    ⟨Json.compact_inj, congrArg Json.compact⟩
  exact ⟨hjson, htext.trans hjson⟩

theorem legible_iff : one.Legible ↔ one.Orderly ∧ one.Unmarked ∧
    ∀ group ∈ one.children, ∀ member ∈ group.2.toList, member.Legible := by
  constructor
  · exact fun h => ⟨h.orderly, h.unmarked, fun group hgroup member hmember =>
      h.member hgroup hmember⟩
  · rintro ⟨horderly, hunmarked, hmembers⟩ element helement
    have hinside : element = one ∨ ∃ group ∈ one.children, ∃ member ∈ group.2.toList,
        member.Holds element := by
      induction helement with
      | root => exact .inl rfl
      | member _ hgroup hmember ih =>
        right
        rcases ih with rfl | ⟨group, hfirst, member, hinner, hholds⟩
        · exact ⟨_, hgroup, _, hmember, .root⟩
        · exact ⟨group, hfirst, member, hinner, .member hholds hgroup hmember⟩
    rcases hinside with rfl | ⟨group, hgroup, member, hmember, hholds⟩
    · exact ⟨horderly, hunmarked⟩
    · exact hmembers group hgroup member hmember element hholds

/-- Parameters with a limit and two hosts, their children and attributes in one order and in the
other. -/
def limitFirst : Element where
  name := "server"
  attributes := [("id", "a"), ("mode", "strict")]
  text := "x"
  children := [("limit", .one { name := "limit", text := "10" }),
    ("host", .many [{ name := "host", text := "b" },
      { name := "host", attributes := [("port", "80")] }])]

def hostsFirst : Element where
  name := "server"
  attributes := [("mode", "strict"), ("id", "a")]
  text := "x"
  children :=
    [("host", .many [{ name := "host", text := "b" },
      { name := "host", attributes := [("port", "80")] }]),
    ("limit", .one { name := "limit", text := "10" })]

theorem rendering_eq_iff_hosts :
    limitFirst.Legible ∧ hostsFirst.Legible ∧ limitFirst.toJson = hostsFirst.toJson ∧
      (limitFirst.toJson = hostsFirst.toJson ↔ limitFirst.Reordered hostsFirst) ∧
      (limitFirst.toJson.compact = hostsFirst.toJson.compact ↔
        limitFirst.Reordered hostsFirst) := by
  have hchildless (element : Element) (hattributes : (element.attributes.map (·.1)).Nodup)
      (hchildren : element.children = []) : element.Legible := by
    refine legible_iff.2 ⟨⟨hattributes, ?_, ?_⟩, ?_, ?_⟩
    · rw [hchildren]
      exact List.nodup_nil
    all_goals simp [Unmarked, hchildren]
  have hlimit : limitFirst.Legible := by
    refine legible_iff.2 ⟨⟨by decide, by decide, ?_⟩, ?_, ?_⟩
    · simp [limitFirst, Siblings.toList]
    · simp [limitFirst, Unmarked, IsMarked]
    · simp only [limitFirst, Siblings.toList, List.forall_mem_cons]
      simp [hchildless]
  have hhosts : hostsFirst.Legible := by
    refine legible_iff.2 ⟨⟨by decide, by decide, ?_⟩, ?_, ?_⟩
    · simp [hostsFirst, Siblings.toList]
    · simp [hostsFirst, Unmarked, IsMarked]
    · simp only [hostsFirst, Siblings.toList, List.forall_mem_cons]
      simp [hchildless]
  exact ⟨hlimit, hhosts, by cbv, rendering_eq_iff.2 limitFirst hostsFirst rfl hlimit hhosts⟩

end Element

end Datamodel.Xml
