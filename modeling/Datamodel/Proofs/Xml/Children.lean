import Datamodel.Xml.Element
import Mathlib.Data.List.Induction
import Mathlib.Data.List.Nodup

/-!
# What grouping keeps of the children

Children are put into their groups one after the other. The groups can be said without that order of
work: there is one for each name, in the order of first appearance, and it holds the children of
that name in document order. So nothing is lost by grouping but the order between children of
different names.
-/

namespace Datamodel.Xml

/-- The group of some elements: a single one stands for itself. -/
def Siblings.ofList {α : Type} : List α → Siblings α
  | [element] => .one element
  | elements => .many elements

@[simp] theorem Siblings.toList_ofList {α : Type} (elements : List α) :
    (ofList elements).toList = elements := by
  unfold ofList
  split <;> rfl

theorem Siblings.push_ofList {α : Type} {elements : List α} (h : elements ≠ []) (element : α) :
    (ofList elements).push element = ofList (elements ++ [element]) := by
  match elements with
  | [_] => rfl
  | _ :: _ :: _ => rfl

theorem Siblings.exists_one_iff {α : Type} {elements : List α} :
    (∃ element, ofList elements = .one element) ↔ elements.length = 1 := by
  rcases elements with _ | ⟨first, _ | ⟨second, rest⟩⟩
  · simp [ofList]
  · simp [ofList]
  · simp [ofList]

theorem Siblings.exists_many_iff {α : Type} {elements : List α} (h : elements ≠ []) :
    (∃ members, ofList elements = .many members) ↔ 2 ≤ elements.length := by
  rcases elements with _ | ⟨first, _ | ⟨second, rest⟩⟩
  · exact (h rfl).elim
  · simp [ofList]
  · simp [ofList]

namespace Element

/-- The names of elements, each once, in the order of first appearance. -/
def names (elements : List Element) : List String :=
  (elements.map (·.name)).eraseDups

def withName (elements : List Element) (name : String) : List Element :=
  elements.filter (·.name == name)

def grouped (elements : List Element) : List (String × Siblings Element) :=
  (names elements).map fun name => (name, .ofList (withName elements name))

theorem nodup_eraseDups (l : List String) : l.eraseDups.Nodup := by
  match l with
  | [] => exact List.nodup_nil
  | name :: rest =>
    have : (rest.filter fun other => !other == name).length < rest.length + 1 :=
      Nat.lt_succ_of_le (List.length_filter_le _ rest)
    rw [List.eraseDups_cons, List.nodup_cons]
    refine ⟨?_, nodup_eraseDups _⟩
    rw [List.mem_eraseDups]
    simp
termination_by l.length

theorem eraseDups_of_nodup {l : List String} (h : l.Nodup) : l.eraseDups = l := by
  induction l with
  | nil => rfl
  | cons name rest ih =>
    obtain ⟨hnew, hrest⟩ := List.nodup_cons.1 h
    have hkept : (rest.filter fun other => !other == name) = rest := by
      refine List.filter_eq_self.2 fun other hother => ?_
      have hne : other ≠ name := ne_of_mem_of_not_mem hother hnew
      simpa using hne
    rw [List.eraseDups_cons, hkept, ih hrest]

theorem nodup_names (elements : List Element) : (names elements).Nodup :=
  nodup_eraseDups _

theorem mem_names {elements : List Element} {name : String} :
    name ∈ names elements ↔ ∃ element ∈ elements, element.name = name := by
  rw [names, List.mem_eraseDups, List.mem_map]

theorem withName_ne_nil {name : String} (h : name ∈ names elements) :
    withName elements name ≠ [] := by
  obtain ⟨element, helement, hname⟩ := mem_names.1 h
  apply List.ne_nil_of_mem (a := element)
  exact List.mem_filter.2 ⟨helement, by simpa using hname⟩

theorem names_concat_of_mem {elements : List Element} {child : Element}
    (h : child.name ∈ names elements) : names (elements ++ [child]) = names elements := by
  rw [names, List.mem_eraseDups] at h
  have hknown : ([child].map (·.name)).removeAll (elements.map (·.name)) = [] := by
    simpa [List.removeAll] using h
  rw [names, List.map_append, List.eraseDups_append, hknown, List.eraseDups_nil,
    List.append_nil, names]

theorem names_concat_of_not_mem {elements : List Element} {child : Element}
    (h : child.name ∉ names elements) :
    names (elements ++ [child]) = names elements ++ [child.name] := by
  rw [names, List.mem_eraseDups] at h
  have hnew : ([child].map (·.name)).removeAll (elements.map (·.name)) = [child.name] := by
    simpa [List.removeAll] using h
  rw [names, List.map_append, List.eraseDups_append, hnew]
  rfl

theorem withName_concat (elements : List Element) (child : Element) (name : String) :
    withName (elements ++ [child]) name =
      if child.name = name then withName elements name ++ [child] else withName elements name := by
  rw [withName, List.filter_append]
  split
  · rename_i h
    simp [h, withName]
  · rename_i h
    simp [h, withName]

theorem insertChild_of_not_mem (child : Element) (group : String → Siblings Element)
    {known : List String} (h : child.name ∉ known) :
    insertChild child (known.map fun name => (name, group name)) =
      known.map (fun name => (name, group name)) ++ [(child.name, .one child)] := by
  induction known with
  | nil => rfl
  | cons name known ih =>
    rw [List.mem_cons, not_or] at h
    rw [List.map_cons, insertChild, if_neg (Ne.symm h.1), ih h.2, List.cons_append]

theorem insertChild_of_mem (child : Element) (group : String → Siblings Element)
    {known : List String} (hdistinct : known.Nodup) (h : child.name ∈ known) :
    insertChild child (known.map fun name => (name, group name)) =
      known.map fun name => (name, if child.name = name then (group name).push child
        else group name) := by
  induction known with
  | nil => contradiction
  | cons name known ih =>
    obtain ⟨hnew, hdistinct⟩ := List.nodup_cons.1 hdistinct
    rw [List.map_cons, List.map_cons, insertChild]
    by_cases hname : child.name = name
    · rw [if_pos hname.symm, if_pos hname]
      congr 1
      refine List.map_congr_left fun other hother => ?_
      rw [if_neg]
      rintro hsame
      exact hnew (hname ▸ hsame ▸ hother)
    · rw [if_neg (Ne.symm hname), if_neg hname, ih hdistinct]
      exact (List.mem_cons.1 h).resolve_left hname

/-- Putting one more child into the groups gives the groups of one more child. -/
theorem insertChild_grouped (elements : List Element) (child : Element) :
    insertChild child (grouped elements) = grouped (elements ++ [child]) := by
  by_cases h : child.name ∈ names elements
  · rw [grouped, insertChild_of_mem child _ (nodup_names elements) h, grouped,
      names_concat_of_mem h]
    refine List.map_congr_left fun name hname => ?_
    rw [withName_concat]
    split
    · rw [Siblings.push_ofList (withName_ne_nil hname)]
    · rfl
  · rw [grouped, insertChild_of_not_mem child _ h, grouped, names_concat_of_not_mem h,
      List.map_append]
    congr 1
    · refine List.map_congr_left fun name hname => ?_
      rw [withName_concat, if_neg]
      rintro rfl
      exact h hname
    · have hnone : withName elements child.name = [] := by
        rw [withName, List.filter_eq_nil_iff]
        intro element helement hsame
        exact h (mem_names.2 ⟨element, helement, by simpa using hsame⟩)
      rw [List.map_singleton, withName_concat, if_pos rfl, hnone]
      rfl

/-- Adding children one after the other to an element without any groups them. -/
theorem foldl_addChild (element : Element) (h : element.children = []) (elements : List Element) :
    elements.foldl addChild element = { element with children := grouped elements } := by
  induction elements using List.reverseRecOn with
  | nil =>
    cases element
    cases h
    rfl
  | append_singleton elements child ih =>
    rw [List.foldl_concat, ih, addChild, insertChild_grouped]

/-! ### Reading groups -/

theorem map_fst_grouped (elements : List Element) :
    (grouped elements).map (·.1) = names elements := by
  rw [grouped, List.map_map]
  exact List.map_id _

theorem find?_grouped (elements : List Element) (name : String) :
    (grouped elements).find? (·.1 == name) =
      if name ∈ names elements then some (name, .ofList (withName elements name)) else none := by
  rw [grouped]
  induction names elements with
  | nil => rfl
  | cons first known ih =>
    rw [List.map_cons, List.find?_cons]
    by_cases h : first = name
    · subst h
      simp
    · have hne : (first == name) = false := by simpa using h
      simp only [hne, ih, List.mem_cons, Ne.symm h, false_or]

/-- An element that holds other elements. -/
def ofContent (name : String) (attributes : List (String × String)) (content : List Element) :
    Element where
  name := name
  attributes := attributes
  children := grouped content

/-- The children of a name are found in document order. -/
theorem named_of_grouped {element : Element} {elements : List Element}
    (h : element.children = grouped elements) (name : String) :
    element.named name = withName elements name := by
  rw [named, group?, h, find?_grouped]
  by_cases hname : name ∈ names elements
  · rw [if_pos hname]
    exact Siblings.toList_ofList _
  · rw [if_neg hname]
    refine (List.filter_eq_nil_iff.2 fun child hchild hsame => hname ?_).symm
    exact mem_names.2 ⟨child, hchild, by simpa using hsame⟩

theorem named_ofContent (tag : String) (attributes : List (String × String))
    (elements : List Element) (name : String) :
    (ofContent tag attributes elements).named name = withName elements name :=
  named_of_grouped rfl name

theorem groupNames_ofContent (tag : String) (attributes : List (String × String))
    (elements : List Element) :
    (ofContent tag attributes elements).children.map (·.1) = names elements :=
  map_fst_grouped elements

/-! ### Elements of a name -/

@[simp] theorem withName_nil (name : String) : withName [] name = [] :=
  rfl

@[simp] theorem withName_append (front back : List Element) (name : String) :
    withName (front ++ back) name = withName front name ++ withName back name :=
  List.filter_append front back

theorem flatMap_withName {α : Type} (elements : List Element) (name : String)
    (next : Element → List α) : (withName elements name).flatMap next =
      elements.flatMap fun element => if element.name = name then next element else [] := by
  induction elements with
  | nil => rfl
  | cons element elements ih =>
    rw [List.flatMap_cons, ← ih, withName, List.filter_cons]
    by_cases h : element.name = name
    · rw [if_pos (by simpa using h), if_pos h, List.flatMap_cons, withName]
    · rw [if_neg (by simpa using h), if_neg h, List.nil_append, withName]

/-! ### Following a path -/

private theorem foldl_flatMap (path : List String) (elements : List Element) :
    path.foldl (fun reached name => reached.flatMap (·.named name)) elements =
      elements.flatMap (select path) := by
  induction path generalizing elements with
  | nil =>
    change elements = elements.flatMap fun element => [element]
    rw [List.flatMap_singleton']
  | cons name path ih =>
    rw [List.foldl_cons, ih, List.flatMap_assoc]
    congr 1
    funext element
    rw [select, List.foldl_cons, ih, List.flatMap_singleton]

@[simp] theorem select_nil (element : Element) : element.select [] = [element] :=
  rfl

/-- A path is followed from every child that its first name leads to. -/
theorem select_cons (name : String) (path : List String) (element : Element) :
    element.select (name :: path) = (element.named name).flatMap (select path) := by
  rw [select, List.foldl_cons, foldl_flatMap, List.flatMap_singleton]

@[simp] theorem select_ofContent (tag : String) (attributes : List (String × String))
    (elements : List Element) (name : String) (path : List String) :
    (ofContent tag attributes elements).select (name :: path) =
      (withName elements name).flatMap (select path) := by
  rw [select_cons, named_ofContent]

end Element

end Datamodel.Xml
