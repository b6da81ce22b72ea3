import Datamodel.Definition.Validation
import Datamodel.Proofs.Definition.Normal
import Datamodel.Proofs.Text.Space
import Datamodel.Proofs.Toml.Replacement

/-!
# The two ways to write a listing

A list of texts without commas can be written as an array or joined by commas, and either way the
same entries are read, unless it has a single blank entry. A draft is put into a common form where
all listings are arrays of trimmed entries: this form is all that reading a rewritten listing leaves
to tell apart, and checking a draft does not look at more.
-/

namespace Datamodel

open Toml (Value SectionForm InArray InSection)

namespace Text

theorem splitOn_eq (separator : Char) (s : List Char) :
    splitOn separator s = s.splitOn separator := by
  induction s with
  | nil => rfl
  | cons c s ih =>
    rw [splitOn, ih, List.splitOn_cons_eq_if_modifyHead]
    obtain ⟨piece, pieces, hpieces⟩ := List.exists_cons_of_ne_nil (List.splitOn_ne_nil separator s)
    rw [hpieces]
    simp

end Text

namespace Listing

/-- Texts that can be told apart when they are joined by commas: none holds a comma, and they are
not a single blank one. -/
structure Separable (items : List String) : Prop where
  commaFree : ∀ item ∈ items, ',' ∉ item.toList
  clear : items = [] ∨ 2 ≤ items.length ∨ ∃ item, items = [item] ∧ Text.trimmed item ≠ ""

section joined

variable {items : List String} (h : Separable items)

include h

theorem splitOn_joined (hnone : items ≠ []) :
    Text.splitOn ',' (",".intercalate items).toList = items.map String.toList := by
  rw [String.toList_intercalate, Text.splitOn_eq]
  refine List.splitOn_intercalate ',' ?_ (by simpa using hnone)
  exact List.forall_mem_map.2 h.commaFree

theorem trim_joined_ne_nil (hnone : items ≠ []) :
    Text.trim (",".intercalate items).toList ≠ [] := by
  rw [ne_eq, Text.trim_eq_nil_iff, String.toList_intercalate]
  intro hblank
  obtain hempty | hmany | ⟨item, rfl, hitem⟩ := h.clear
  · exact hnone hempty
  · obtain ⟨first, rest, rfl⟩ := List.exists_cons_of_ne_nil hnone
    have hrest : rest ≠ [] := List.ne_nil_of_length_pos (Nat.lt_of_succ_lt_succ hmany)
    obtain ⟨second, rest, rfl⟩ := List.exists_cons_of_ne_nil hrest
    exact absurd (hblank ',' (by simp)) (by decide)
  · refine hitem ?_
    rw [Text.trimmed, Text.trim_eq_nil_iff.2 (by simpa using hblank)]

theorem entries_joined : (joined (",".intercalate items)).entries = items.map Text.trimmed := by
  by_cases hnone : items = []
  · rw [hnone]
    rfl
  · have hclear : (Text.trim (",".intercalate items).toList).isEmpty = false :=
      List.isEmpty_eq_false_iff.2 (trim_joined_ne_nil h hnone)
    rw [entries, hclear, splitOn_joined h hnone, List.map_map]
    rfl

end joined

inductive Forms : Value → Value → Prop where
  | mk {items : List String} (h : Separable items) :
      Forms (.array (items.map .string)) (.string (",".intercalate items))

theorem ofValue?_array (items : List String) :
    ofValue? (.array (items.map .string)) = some (.items items) := by
  have hread : (items.map Value.string).mapM Value.string? = some items := by
    induction items with
    | nil => rfl
    | cons item items ih =>
      rw [List.map_cons, List.mapM_cons, ih]
      rfl
  rw [ofValue?, Value.list?, hread]
  · rfl
  · intro text htext
    contradiction

/-- Both forms of a list give its texts without the white space around them. -/
theorem entries_of_forms {items : List String} (h : Separable items) :
    (ofValue? (.array (items.map .string))).map entries = some (items.map Text.trimmed) ∧
      (ofValue? (.string (",".intercalate items))).map entries = some (items.map Text.trimmed) := by
  constructor
  · rw [ofValue?_array]
    rfl
  · rw [ofValue?, Option.map_some, entries_joined h]

theorem Forms.entries_eq {value other : Value} (h : Forms value other) :
    ∃ listing listing', ofValue? value = some listing ∧ ofValue? other = some listing' ∧
      listing.entries = listing'.entries := by
  obtain ⟨h⟩ := h
  exact ⟨_, _, ofValue?_array _, rfl, (entries_joined h).symm⟩

end Listing

/-! ### Reading a rewritten draft -/

/-- The field with its values as an array of trimmed entries. -/
def DraftField.listed (field : DraftField) : DraftField :=
  { field with values := field.values.map fun listing => .items listing.entries }

def Draft.listed (draft : Draft) : Draft :=
  { draft with fields := draft.fields.map DraftField.listed }

/-- In the values of a field or in the fields of an index, one form of a list is replaced by the
other. -/
inductive Draft.Rewritten (members others : List (String × Value)) : Prop where
  | values (h : InSection Draft.form "fields"
      (InArray (InSection DraftField.form "values" Listing.Forms)) (.table members) (.table others))
  | fields (h : InSection Draft.form "indexes"
      (InArray (InSection Index.form "fields" Listing.Forms)) (.table members) (.table others))

section reading

variable {value other : Value}

section bind

variable {α β γ δ : Type} {given given' : Option α} {next next' : α → Option β} {f : β → γ}

theorem map_bind_alike {g : α → δ} (h : given.map g = given'.map g)
    (hnext : ∀ a b, g a = g b → (next a).map f = (next' b).map f) :
    (given.bind next).map f = (given'.bind next').map f := by
  cases given with
  | none =>
    rw [Option.map_eq_none_iff.1 h.symm]
    rfl
  | some a =>
    obtain ⟨b, rfl, hb⟩ := Option.map_eq_some_iff.1 h.symm
    exact hnext a b hb.symm

theorem map_bind_congr (h : ∀ a, (next a).map f = (next' a).map f) :
    (given.bind next).map f = (given.bind next').map f := by
  cases given with
  | none => rfl
  | some a => exact h a

end bind

theorem DraftField.listed_of_rewritten
    (h : InSection DraftField.form "values" Listing.Forms value other) :
    (DraftField.ofValue? value).map listed = (DraftField.ofValue? other).map listed := by
  obtain ⟨said, instead, hforms, hother, hplace⟩ := h.section?
  obtain ⟨listing, listing', hsaid, hinstead, hentries⟩ := hforms.entries_eq
  have hvalues : DraftField.form.placeOf "values" = 5 := by decide
  rw [hvalues] at hother hplace
  rw [ofValue?, ofValue?, hother]
  cases hmembers : value.section? form with
  | none => rfl
  | some all =>
    match all, Value.length_section? hmembers, hplace all hmembers with
    | [none, _, _, _, _, _, _], _, _ => rfl
    | [some name, type, nullable, defaultValue, sql, values, target], _, hvalues =>
      obtain rfl : values = some said := Option.some.inj hvalues
      have hread : Value.optional Listing.ofValue? (some said) = some (some listing) :=
        congrArg (Option.map some) hsaid
      have hread' : Value.optional Listing.ofValue? (some instead) = some (some listing') :=
        congrArg (Option.map some) hinstead
      simp only [Option.map_some, List.set_cons_succ, List.set_cons_zero, Option.bind_eq_bind,
        Option.bind_some, hread, hread', Option.map_bind, Function.comp_def, Option.pure_def,
        listed, hentries]

theorem Index.eq_of_rewritten (h : InSection Index.form "fields" Listing.Forms value other) :
    Index.ofValue? value = Index.ofValue? other := by
  obtain ⟨said, instead, hforms, hother, hplace⟩ := h.section?
  obtain ⟨listing, listing', hsaid, hinstead, hentries⟩ := hforms.entries_eq
  have hfields : Index.form.placeOf "fields" = 1 := by decide
  rw [hfields] at hother hplace
  rw [ofValue?, ofValue?, hother]
  cases hmembers : value.section? form with
  | none => rfl
  | some all =>
    match all, Value.length_section? hmembers, hplace all hmembers with
    | [none, _], _, _ => rfl
    | [some name, fields], _, hfields =>
      obtain rfl : fields = some said := Option.some.inj hfields
      simp [hsaid, hinstead, hentries]

theorem Draft.listed_of_rewritten {members others : List (String × Value)}
    (h : Rewritten members others) :
    (ofMembers? members).map listed = (ofMembers? others).map listed := by
  obtain h | h := h
  · obtain ⟨said, instead, hfields, hother, hplace⟩ := h.section?
    have hread := hfields.list? fun _ _ => DraftField.listed_of_rewritten
    rw [← Value.map_list?, ← Value.map_list?] at hread
    have hplaces : Draft.form.placeOf "fields" = 3 := by decide
    rw [hplaces] at hother hplace
    rw [ofMembers?, ofMembers?, hother]
    cases hmembers : (Value.table members).section? form with
    | none => rfl
    | some all =>
      match all, Value.length_section? hmembers, hplace all hmembers with
      | [none, _, _, _, _, _, _, _, _, _, _], _, _ => rfl
      | [some name, parent, properties, fields, lifecycle, methods, indexes, relations, menu,
          profiles, branding], _, hfields =>
        obtain rfl : fields = some said := Option.some.inj hfields
        simp only [Option.map_some, List.set_cons_succ, List.set_cons_zero, Option.bind_eq_bind,
          Option.bind_some]
        iterate 3 refine map_bind_congr fun _ => ?_
        refine map_bind_alike hread fun drafts drafts' hdrafts => ?_
        iterate 7 refine map_bind_congr fun _ => ?_
        simp only [Option.pure_def, Option.map_some, listed, hdrafts]
  · obtain ⟨said, instead, hindexes, hother, hplace⟩ := h.section?
    have hread := hindexes.list? fun _ _ => Index.eq_of_rewritten
    have hplaces : Draft.form.placeOf "indexes" = 6 := by decide
    rw [hplaces] at hother hplace
    rw [ofMembers?, ofMembers?, hother]
    cases hmembers : (Value.table members).section? form with
    | none => rfl
    | some all =>
      match all, Value.length_section? hmembers, hplace all hmembers with
      | [none, _, _, _, _, _, _, _, _, _, _], _, _ => rfl
      | [some name, parent, properties, fields, lifecycle, methods, indexes, relations, menu,
          profiles, branding], _, hindexes =>
        obtain rfl : indexes = some said := Option.some.inj hindexes
        simp only [Option.map_some, List.set_cons_succ, List.set_cons_zero, Option.bind_eq_bind,
          Option.bind_some, Value.orDefault, hread]

end reading

/-! ### Checking a draft -/

theorem Listing.entries_listed (listing : Listing) :
    (Listing.items listing.entries).entries = listing.entries := by
  cases listing with
  | items names =>
    rw [entries, entries, List.map_map]
    exact List.map_congr_left fun name _ => trimmed_trimmed name
  | joined text =>
    rw [entries, entries]
    split
    · rfl
    · rw [List.map_map]
      refine List.map_congr_left fun item _ => ?_
      simpa only [Text.trimmed, Function.comp_apply, String.toList_ofList]
        using trimmed_trimmed (String.ofList item)

theorem DraftField.check_listed (field : DraftField) (context : Context) (seen : List String) :
    field.listed.check context seen = field.check context seen := by
  have hpayload : field.listed.foreignPayload? = field.foreignPayload? := by
    rw [foreignPayload?, foreignPayload?, listed, Option.isSome_map]
  have hfield : field.listed.toField = field.toField := by
    have hvalues : field.listed.values.map Listing.entries = field.values.map Listing.entries := by
      rw [listed, Option.map_map]
      exact congrArg (field.values.map ·) (funext Listing.entries_listed)
    have hkind : field.type.kind field.listed.values field.target =
        field.type.kind field.values field.target := by
      rw [FieldType.kind.eq_def, FieldType.kind.eq_def, hvalues]
    exact congrArg (fun kind => { field.toField with kind }) hkind
  rw [check, check, hpayload, hfield]
  rfl

theorem DraftField.checkAll_listed (context : Context) (seen : List String)
    (fields : List DraftField) :
    checkAll context seen (fields.map listed) = checkAll context seen fields := by
  induction fields generalizing seen with
  | nil => rfl
  | cons field fields ih =>
    rw [List.map_cons, checkAll, checkAll, check_listed]
    exact congrArg (field.check context seen >>= ·) (funext fun checked => by rw [← ih]; rfl)

theorem Draft.validate_listed (draft : Draft) (source : Source) :
    draft.listed.validate source = draft.validate source := by
  rw [validate, validate, listed, DraftField.checkAll_listed]

/-! ### Errors apart from their places -/

namespace DefinitionError

/-- The error without the places in the source that it points at. -/
def withoutPlaces : DefinitionError → DefinitionError
  | .unreadable path => .unreadable path
  | .malformed file => .malformed file
  | .foreignPayload file field type payload _ => .foreignPayload file field type payload none
  | .invalidName file context name fault _ => .invalidName file context name fault none
  | .duplicateName file context name _ _ => .duplicateName file context name none none
  | .invalid file message _ => .invalid file message none

theorem message_withoutPlaces (error : DefinitionError) :
    error.withoutPlaces.message = error.message := by
  cases error <;> rfl

theorem code?_withoutPlaces (error : DefinitionError) :
    error.withoutPlaces.code? = error.code? := by
  cases error <;> rfl

theorem help?_withoutPlaces (error : DefinitionError) :
    error.withoutPlaces.help? = error.help? := by
  cases error <;> rfl

end DefinitionError

section outcomes

variable {ε ε' α β : Type} {f : ε → ε'} {outcome other : Except ε α}

theorem mapError_bind (f : ε → ε') (outcome : Except ε α) (next : α → Except ε β) :
    (outcome >>= next).mapError f = outcome.mapError f >>= fun a => (next a).mapError f := by
  cases outcome <;> rfl

theorem eq_ok_of_mapError (h : outcome.mapError f = other.mapError f) {a : α}
    (hok : outcome = .ok a) : other = .ok a := by
  rw [hok] at h
  cases other with
  | ok b => exact congrArg Except.ok (Except.ok.inj h).symm
  | error error => contradiction

theorem eq_error_of_mapError (h : outcome.mapError f = other.mapError f) {error : ε}
    (herror : outcome = .error error) : ∃ error', other = .error error' ∧ f error' = f error := by
  rw [herror] at h
  cases other with
  | ok b => contradiction
  | error error' => exact ⟨error', rfl, (Except.error.inj h).symm⟩

end outcomes

section places

open DefinitionError (withoutPlaces)

variable {s t : Source}

variable (h : s.file = t.file) (path : List String)

include h

theorem Context.checkName_places (name kind : String) :
    (Context.checkName ⟨s, path⟩ name kind).mapError withoutPlaces =
      (Context.checkName ⟨t, path⟩ name kind).mapError withoutPlaces := by
  rw [checkName, checkName]
  cases nameFault? name with
  | none => rfl
  | some fault =>
    exact congrArg Except.error (congrArg (DefinitionError.invalidName · _ name fault none) h)

theorem DraftField.check_places (seen : List String) (field : DraftField) :
    (field.check ⟨s, path⟩ seen).mapError withoutPlaces =
      (field.check ⟨t, path⟩ seen).mapError withoutPlaces := by
  rw [check, check, mapError_bind, mapError_bind, Context.checkName_places h]
  congr 1
  funext checked
  split
  · exact congrArg Except.error
      (congrArg (DefinitionError.duplicateName · _ field.name none none) h)
  · cases field.foreignPayload? with
    | none => rfl
    | some payload =>
      exact congrArg Except.error
        (congrArg (DefinitionError.foreignPayload · field.name _ payload none) h)

theorem DraftField.checkAll_places (seen : List String) (fields : List DraftField) :
    (checkAll ⟨s, path⟩ seen fields).mapError withoutPlaces =
      (checkAll ⟨t, path⟩ seen fields).mapError withoutPlaces := by
  induction fields generalizing seen with
  | nil => rfl
  | cons field fields ih =>
    simp only [checkAll, mapError_bind]
    rw [check_places h, ih]

theorem Index.checkAll_places (indexes : List Index) :
    (checkAll ⟨s, path⟩ indexes).mapError withoutPlaces =
      (checkAll ⟨t, path⟩ indexes).mapError withoutPlaces := by
  induction indexes with
  | nil => rfl
  | cons index indexes ih =>
    rw [checkAll, checkAll]
    cases index.fault? with
    | none => exact ih
    | some message =>
      exact congrArg Except.error (congrArg (DefinitionError.invalid · message none) h)

/-- What a draft is checked to be does not depend on its source, except for the places in an
error. -/
theorem Draft.validate_places (draft : Draft) :
    (draft.validate s).mapError withoutPlaces = (draft.validate t).mapError withoutPlaces := by
  simp only [validate, mapError_bind, Context.push]
  rw [Context.checkName_places h, Context.checkName_places h, DraftField.checkAll_places h,
    Index.checkAll_places h]

end places

/-! ### Sources -/

theorem Draft.listed_of_eqvGen {members others : List (String × Value)}
    (h : Relation.EqvGen Rewritten members others) :
    (ofMembers? members).map listed = (ofMembers? others).map listed := by
  induction h with
  | rel _ _ h => exact listed_of_rewritten h
  | refl => rfl
  | symm _ _ _ ih => exact ih.symm
  | trans _ _ _ _ _ ih ih' => exact ih.trans ih'

theorem Source.definition_places {s t : Source} {members others : List (String × Value)}
    (hfile : s.file = t.file) (hs : Toml.parse? s.text.toList = some members)
    (ht : Toml.parse? t.text.toList = some others)
    (h : Relation.EqvGen Draft.Rewritten members others) :
    s.definition.mapError DefinitionError.withoutPlaces =
      t.definition.mapError DefinitionError.withoutPlaces := by
  have hlisted := Draft.listed_of_eqvGen h
  rw [definition, definition, draft?, draft?, hs, ht, Option.bind_some, Option.bind_some]
  cases hmembers : Draft.ofMembers? members with
  | none =>
    rw [hmembers, Option.map_none, eq_comm, Option.map_eq_none_iff] at hlisted
    rw [hlisted]
    exact congrArg Except.error (congrArg DefinitionError.malformed hfile)
  | some draft =>
    rw [hmembers, Option.map_some, eq_comm, Option.map_eq_some_iff] at hlisted
    obtain ⟨draft', hothers, hdraft⟩ := hlisted
    rw [hothers]
    dsimp only
    rw [← draft.validate_listed, ← draft'.validate_listed, hdraft, Draft.validate_places hfile]

/-- The two forms of a list of texts have the same entries, the texts without the white space around
them. So however often one form is replaced by the other in a source, the same definition is
accepted, or it is refused with an error that says the same, though it may point elsewhere. -/
theorem forms_agree :
    (∀ items, Listing.Separable items →
      (Listing.ofValue? (.array (items.map .string))).map Listing.entries =
        some (items.map Text.trimmed) ∧
        (Listing.ofValue? (.string (",".intercalate items))).map Listing.entries =
          some (items.map Text.trimmed)) ∧
    ∀ (s t : Source) (members others : List (String × Value)), s.file = t.file →
      Toml.parse? s.text.toList = some members → Toml.parse? t.text.toList = some others →
      Relation.EqvGen Draft.Rewritten members others →
        (∀ definition, s.definition = .ok definition ↔ t.definition = .ok definition) ∧
          ∀ error, s.definition = .error error → ∃ other, t.definition = .error other ∧
            other.withoutPlaces = error.withoutPlaces ∧ other.message = error.message ∧
              other.code? = error.code? ∧
              other.help? = error.help? := by
  refine ⟨fun items => Listing.entries_of_forms, fun s t members others hfile hs ht h => ?_⟩
  have hplaces := Source.definition_places hfile hs ht h
  refine ⟨fun definition => ⟨eq_ok_of_mapError hplaces, eq_ok_of_mapError hplaces.symm⟩,
    fun error herror => ?_⟩
  obtain ⟨other, hother, hsame⟩ := eq_error_of_mapError hplaces herror
  refine ⟨other, hother, hsame, ?_, ?_, ?_⟩
  · rw [← other.message_withoutPlaces, hsame, error.message_withoutPlaces]
  · rw [← other.code?_withoutPlaces, hsame, error.code?_withoutPlaces]
  · rw [← other.help?_withoutPlaces, hsame, error.help?_withoutPlaces]

/-- An index over a field with white space and over an empty one. -/
def arrayFields : Source where
  text := "name='A'\nindexes=[['i',['x ','']]]"
  file := "class.toml"

/-- The same with the fields of the index in one string. -/
def joinedFields : Source where
  text := "name='A'\nindexes=[['i','x ,']]"
  file := "class.toml"

theorem forms_agree_blank :
    (Listing.ofValue? (.string "x ,")).map Listing.entries = some ["x", ""] ∧
      ∃ error, joinedFields.definition = .error error ∧
        error.message = "index 'i' has an empty field name at position 1" := by
  have hitems : Listing.Separable ["x ", ""] := ⟨by decide, .inr (.inl (Nat.le_refl 2))⟩
  have harray : Toml.parse? arrayFields.text.toList = some [("name", .string "A"),
      ("indexes", .array [.array [.string "i", .array [.string "x ", .string ""]]])] := by cbv
  have hjoined : Toml.parse? joinedFields.text.toList = some [("name", .string "A"),
      ("indexes", .array [.array [.string "i", .string "x ,"]])] := by cbv
  have hrewritten : Draft.Rewritten
      [("name", .string "A"),
        ("indexes", .array [.array [.string "i", .array [.string "x ", .string ""]]])]
      [("name", .string "A"), ("indexes", .array [.array [.string "i", .string "x ,"]])] :=
    .fields (.table ⟨by decide, by decide⟩ [("name", .string "A")] []
      (.item [] [] (.array ⟨by decide, by decide⟩ [.string "i"] [] (by decide) (.mk hitems))))
  have herror : arrayFields.definition = .error
      (.invalid "class.toml" "index 'i' has an empty field name at position 1" (some ⟨20, 1⟩)) := by
    decide +kernel
  obtain ⟨hforms, hsources⟩ := forms_agree
  obtain ⟨-, herrors⟩ := hsources arrayFields joinedFields _ _ rfl harray hjoined
    (.rel _ _ hrewritten)
  obtain ⟨other, hother, -, hmessage, -, -⟩ := herrors _ herror
  exact ⟨(hforms _ hitems).2, other, hother, hmessage⟩

end Datamodel
