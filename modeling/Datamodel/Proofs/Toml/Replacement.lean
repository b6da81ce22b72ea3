import Datamodel.Toml.Shape
import Mathlib

/-!
# Replacing a value inside another

A value deep inside a document is replaced along the path that leads to it, through members of
sections and items of arrays. What a section says of its members then changes at one place only,
whether it is written as a table or as an array of its members.
-/

namespace Datamodel.Toml

variable {R : Value → Value → Prop} {value other : Value}

/-- One item of an array is replaced. -/
inductive InArray (R : Value → Value → Prop) : Value → Value → Prop where
  | item (front back : List Value) {value other : Value} (h : R value other) :
      InArray R (.array (front ++ value :: back)) (.array (front ++ other :: back))

/-- The place of the first member that a key means. -/
def SectionForm.placeOf (form : SectionForm) (key : String) : Nat :=
  form.members.findIdx (·.matches key)

/-- A key means one member and no other. -/
structure SectionForm.Names (form : SectionForm) (key : String) : Prop where
  known : form.placeOf key < form.members.length
  only : ∀ other ∈ form.members.eraseIdx (form.placeOf key), other.matches key = false

theorem SectionForm.Names.exists_member {form : SectionForm} {key : String} (h : form.Names key) :
    ∃ member, form.members[form.placeOf key]? = some member ∧ member.matches key = true :=
  ⟨_, List.getElem?_eq_getElem h.known, List.findIdx_getElem (w := h.known)⟩

/-- The member that a key means is replaced, in a table or in an array of all members. -/
inductive InSection (form : SectionForm) (key : String) (R : Value → Value → Prop) :
    Value → Value → Prop where
  | table (hkey : form.Names key) (front back : List (String × Value)) {value other : Value}
      (h : R value other) :
      InSection form key R (.table (front ++ (key, value) :: back))
        (.table (front ++ (key, other) :: back))
  | array (hkey : form.Names key) (front back : List Value)
      (hplace : front.length = form.placeOf key) {value other : Value} (h : R value other) :
      InSection form key R (.array (front ++ value :: back)) (.array (front ++ other :: back))

/-! ### Reading one thing after the other -/

section reading

variable {α β γ : Type} {read read' : α → Option β} {items : List α}

theorem mapM_map_right (f : β → γ) :
    (items.mapM read).map (List.map f) = items.mapM fun item => (read item).map f := by
  induction items with
  | nil => rfl
  | cons item items ih =>
    rw [List.mapM_cons, List.mapM_cons, ← ih]
    cases read item with
    | none => rfl
    | some said => cases items.mapM read <;> rfl

theorem length_of_mapM {said : List β} (h : items.mapM read = some said) :
    said.length = items.length := by
  induction items generalizing said with
  | nil =>
    obtain rfl := Option.some.inj h
    rfl
  | cons item items ih =>
    simp only [List.mapM_cons, Option.bind_eq_bind, Option.bind_eq_some_iff] at h
    obtain ⟨first, -, rest, hrest, h⟩ := h
    obtain rfl := Option.some.inj h
    exact congrArg (· + 1) (ih hrest)

theorem getElem?_of_mapM {said : List β} (h : items.mapM read = some said) (place : Nat) :
    said[place]? = items[place]?.bind read := by
  induction items generalizing said place with
  | nil =>
    obtain rfl := Option.some.inj h
    rfl
  | cons first items ih =>
    simp only [List.mapM_cons, Option.bind_eq_bind, Option.bind_eq_some_iff] at h
    obtain ⟨saidFirst, hfirst, rest, hrest, h⟩ := h
    obtain rfl := Option.some.inj h
    cases place with
    | zero => exact hfirst.symm
    | succ place => exact ih hrest place

theorem mapM_congr (h : ∀ item ∈ items, read' item = read item) :
    items.mapM read' = items.mapM read := by
  induction items with
  | nil => rfl
  | cons item items ih =>
    rw [List.forall_mem_cons] at h
    rw [List.mapM_cons, List.mapM_cons, h.1, ih h.2]

/-- Where one item is read as something else, the result differs in its place. -/
theorem mapM_set {place : Nat} {item : α} {instead : β} (hitem : items[place]? = some item)
    (hinstead : read' item = (read item).map fun _ => instead)
    (hothers : ∀ i other, items[i]? = some other → i ≠ place → read' other = read other) :
    items.mapM read' = (items.mapM read).map (·.set place instead) := by
  induction items generalizing place with
  | nil => contradiction
  | cons first items ih =>
    rw [List.mapM_cons, List.mapM_cons]
    cases place with
    | zero =>
      obtain rfl := Option.some.inj hitem
      have hrest : items.mapM read' = items.mapM read := by
        refine mapM_congr fun other hother => ?_
        obtain ⟨i, hi⟩ := List.mem_iff_getElem?.1 hother
        exact hothers (i + 1) other hi (Nat.succ_ne_zero i)
      rw [hinstead, hrest]
      cases read first with
      | none => rfl
      | some said => cases items.mapM read <;> rfl
    | succ place =>
      have hfirst := hothers 0 first rfl (Nat.succ_ne_zero place).symm
      rw [hfirst, ih hitem fun i other hother hne => hothers (i + 1) other hother (by omega)]
      cases read first with
      | none => rfl
      | some said => cases items.mapM read <;> rfl

end reading

theorem Value.map_list? {α β : Type} (item : Value → Option α) (f : α → β) (value : Value) :
    (value.list? item).map (List.map f) = value.list? fun value => (item value).map f := by
  cases value with
  | array values => exact mapM_map_right f
  | string | integer | misspelt | float | boolean | moment | table => rfl

theorem InArray.list? {α : Type} {item : Value → Option α} (h : InArray R value other)
    (hitem : ∀ value other, R value other → item value = item other) :
    value.list? item = other.list? item := by
  cases h with
  | item front back hR =>
    rw [Value.list?, Value.list?, List.mapM_append, List.mapM_append, List.mapM_cons,
      List.mapM_cons, hitem _ _ hR]

/-! ### What is said of the members -/

theorem Value.length_section? {form : SectionForm} {said : List (Option Value)}
    (h : value.section? form = some said) : said.length = form.members.length := by
  cases value with
  | table entries =>
    simp only [section?, Option.bind_eq_bind, Option.bind_eq_some_iff] at h
    obtain ⟨-, -, h⟩ := h
    exact length_of_mapM h
  | moment =>
    rw [section?] at h
    split at h
    · contradiction
    · rw [← Option.some.inj h, List.length_map]
  | array values =>
    rw [section?] at h
    split at h
    · contradiction
    · rw [← Option.some.inj h, List.length_map, List.length_range]
  | string | integer | misspelt | float | boolean => contradiction

theorem Value.member?_of_matches {member : Member} {key : String} (h : member.matches key = true)
    (value : Value) (front back : List (String × Value)) :
    member? (front ++ (key, value) :: back) member =
      if ((front ++ back).filter (member.matches ·.1)).isEmpty then some (some value)
        else none := by
  have hkept : ((key, value) :: back).filter (member.matches ·.1) =
      (key, value) :: back.filter (member.matches ·.1) :=
    List.filter_cons_of_pos h
  rw [member?, List.filter_append, List.filter_append, hkept]
  cases front.filter (member.matches ·.1) with
  | nil => cases back.filter (member.matches ·.1) <;> rfl
  | cons first rest => cases rest <;> rfl

theorem Value.member?_of_not_matches {member : Member} {key : String}
    (h : member.matches key = false) (value : Value) (front back : List (String × Value)) :
    member? (front ++ (key, value) :: back) member = member? (front ++ back) member := by
  rw [member?, member?, List.filter_append, List.filter_append, List.filter_cons_of_neg]
  simp [h]

/-- Replacing a member replaces what the section says of it, and nothing else. -/
theorem InSection.section? {form : SectionForm} {key : String}
    (h : InSection form key R value other) :
    ∃ said instead, R said instead ∧
      other.section? form = (value.section? form).map (·.set (form.placeOf key) (some instead)) ∧
      ∀ all, value.section? form = some all → all[form.placeOf key]? = some (some said) := by
  cases h with
  | array hkey front back hfront hR =>
    rename_i said instead
    have hplace := hkey.known
    refine ⟨said, instead, hR, ?_, ?_⟩
    · have hlength : (front ++ instead :: back).length = (front ++ said :: back).length := by simp
      have hset : front ++ instead :: back =
          (front ++ said :: back).set (form.placeOf key) instead := by
        rw [← hfront, List.set_append_right front.length instead (Nat.le_refl _), Nat.sub_self,
          List.set_cons_zero]
      have hplaces :
          ((List.range form.members.length).map fun i => (front ++ instead :: back)[i]?) =
          ((List.range form.members.length).map fun i => (front ++ said :: back)[i]?).set
            (form.placeOf key) (some instead) := by
        refine List.ext_getElem? fun i => ?_
        rw [List.getElem?_set, List.getElem?_map, List.getElem?_map, List.length_map,
          List.length_range, hset]
        by_cases hi : form.placeOf key = i
        · have hinside : form.placeOf key < (front ++ said :: back).length := by simp [← hfront]
          rw [← hi, if_pos rfl, if_pos hplace, List.getElem?_range hplace, Option.map_some,
            List.getElem?_set_self hinside]
        · rw [if_neg hi]
          cases hrange : (List.range form.members.length)[i]? with
          | none => rfl
          | some j =>
            obtain ⟨-, rfl⟩ := List.getElem?_eq_some_iff.1 hrange
            rw [Option.map_some, Option.map_some, List.getElem_range, List.getElem?_set_ne hi]
      rw [Value.section?, Value.section?, hlength, hplaces]
      split <;> rfl
    · intro all hall
      rw [Value.section?] at hall
      split at hall
      · contradiction
      · rw [← Option.some.inj hall, List.getElem?_map, List.getElem?_range hplace, ← hfront]
        simp
  | table hkey front back hR =>
    rename_i said instead
    obtain ⟨member, hmember, hmatches⟩ := hkey.exists_member
    have hknown (value : Value) :
        (front ++ (key, value) :: back).filter
            (fun entry => !form.members.any (·.matches entry.1)) =
          (front ++ back).filter (fun entry => !form.members.any (·.matches entry.1)) := by
      have hany : form.members.any (·.matches key) = true :=
        List.any_eq_true.2 ⟨member, List.mem_of_getElem? hmember, hmatches⟩
      rw [List.filter_append, List.filter_append, List.filter_cons_of_neg]
      simp [hany]
    refine ⟨said, instead, hR, ?_, ?_⟩
    · have hmembers : form.members.mapM (Value.member? (front ++ (key, instead) :: back)) =
          (form.members.mapM (Value.member? (front ++ (key, said) :: back))).map
            (·.set (form.placeOf key) (some instead)) := by
        refine mapM_set hmember ?_ fun i other hother hne => ?_
        · rw [Value.member?_of_matches hmatches, Value.member?_of_matches hmatches]
          split <;> rfl
        · have hnot := hkey.only other (List.mem_eraseIdx_iff_getElem?.2 ⟨i, hne, hother⟩)
          rw [Value.member?_of_not_matches hnot, Value.member?_of_not_matches hnot]
      simp only [Value.section?, hknown, hmembers, Option.bind_eq_bind, Option.map_bind]
      rfl
    · intro all hall
      simp only [Value.section?, Option.bind_eq_bind, Option.bind_eq_some_iff] at hall
      obtain ⟨-, -, hall⟩ := hall
      have hlength := length_of_mapM hall
      have hsaid := getElem?_of_mapM hall (form.placeOf key)
      rw [hmember, Option.bind_some, Value.member?_of_matches hmatches] at hsaid
      split at hsaid
      · exact hsaid
      · have hplace := hkey.known
        rw [List.getElem?_eq_none_iff] at hsaid
        omega

end Datamodel.Toml
