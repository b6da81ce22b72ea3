import Datamodel.Definition.Validation
import Datamodel.Proofs.Definition.Check
import Mathlib

/-!
# Which drafts become definitions

Each function that checks a part of a draft decides the checks of that part, and a draft is refused
for the first of all its checks that does not hold. What is accepted is kept as it is, in its order,
but for the payload of a field, which becomes part of its kind.
-/

namespace Datamodel

open Toml (Value)

/-! ### Names -/

def IsLetter (c : Char) : Prop :=
  'A' ≤ c ∧ c ≤ 'Z' ∨ 'a' ≤ c ∧ c ≤ 'z'

/-- Whether a text is an identifier: a letter or an underscore, then letters, digits and
underscores. -/
def IsIdentifier (name : String) : Prop :=
  ∃ c s, name.toList = c :: s ∧ (IsLetter c ∨ c = '_') ∧
    ∀ d ∈ s, IsLetter d ∨ '0' ≤ d ∧ d ≤ '9' ∨ d = '_'

/-- What is wrong with a text that is no identifier. -/
def NameFault.of (name : String) : NameFault :=
  match name.toList with
  | [] => .empty
  | c :: _ => if isNameStart c then .badCharacter else .badStart

theorem isNameStart_iff {c : Char} : isNameStart c = true ↔ IsLetter c ∨ c = '_' := by
  simp [isNameStart, Char.isAlpha, Char.isUpper, Char.isLower, IsLetter, Char.le_def]

theorem isNameChar_iff {c : Char} :
    isNameChar c = true ↔ IsLetter c ∨ '0' ≤ c ∧ c ≤ '9' ∨ c = '_' := by
  simp [isNameChar, Char.isAlphanum, Char.isAlpha, Char.isUpper, Char.isLower, Char.isDigit,
    IsLetter, Char.le_def, or_assoc]

theorem isIdentifier_iff {name : String} :
    IsIdentifier name ↔ ∃ c s, name.toList = c :: s ∧ isNameStart c = true ∧
    ∀ d ∈ s, isNameChar d = true := by
  simp only [IsIdentifier, isNameStart_iff, isNameChar_iff]

theorem nameFault?_of_isIdentifier {name : String} (h : IsIdentifier name) :
    nameFault? name = none := by
  obtain ⟨c, s, hname, hstart, hrest⟩ := isIdentifier_iff.1 h
  have hall : s.all isNameChar = true := List.all_eq_true.2 hrest
  simp [nameFault?, hname, hstart, hall]

theorem nameFault?_of_not_isIdentifier {name : String} (h : ¬IsIdentifier name) :
    nameFault? name = some (.of name) := by
  rw [isIdentifier_iff] at h
  unfold nameFault? NameFault.of
  cases hname : name.toList with
  | nil => rfl
  | cons c s =>
    dsimp only
    by_cases hstart : isNameStart c = true
    · have hall : ¬s.all isNameChar = true :=
        fun hall => h ⟨c, s, hname, hstart, List.all_eq_true.1 hall⟩
      simp [hstart, hall]
    · simp [hstart]

def Context.nameCheck (context : Context) (name kind : String) : Check where
  Holds := IsIdentifier name
  error := .invalidName context.source.file (context.describe kind) name (.of name)
    (context.source.span? name)

theorem Context.decides_checkName (context : Context) (name kind : String) :
    Decides [context.nameCheck name kind] (context.checkName name kind) () where
  accepts hall := by
    rw [checkName, nameFault?_of_isIdentifier (hall _ List.mem_cons_self)]
  refuses error herror := by
    rcases firstViolated_cons.1 herror with ⟨hviolated, rfl⟩ | ⟨-, hrest⟩
    · rw [checkName, nameFault?_of_not_isIdentifier hviolated]
      rfl
    · exact (not_firstViolated_nil hrest).elim

/-! ### Fields -/

namespace DraftField

/-- The checks of a field that stands after fields of the names `seen`. -/
def checks (context : Context) (seen : List String) (field : DraftField) : List Check :=
  [context.nameCheck field.name "field",
    { Holds := field.name ∉ seen
      error := context.duplicate field.name "field" },
    { Holds := field.values.isSome = true → field.type = .enumeration
      error := context.foreignPayload field.name field.type.name .values },
    { Holds := field.target.isSome = true → field.type = .externalKey
      error := context.foreignPayload field.name field.type.name .target }]

/-- The checks of fields that stand after fields of the names `seen`, in order. -/
def allChecks (context : Context) : (seen : List String) → List DraftField → List Check
  | _, [] => []
  | seen, field :: fields =>
    field.checks context seen ++ allChecks context (field.name :: seen) fields

theorem holds_checks_iff {context : Context} {seen : List String} {field : DraftField} :
    (∀ check ∈ field.checks context seen, check.Holds) ↔
      IsIdentifier field.name ∧ field.name ∉ seen ∧
        (field.values.isSome = true → field.type = .enumeration) ∧
        (field.target.isSome = true → field.type = .externalKey) := by
  simp [checks, Context.nameCheck]

theorem holds_allChecks_iff {context : Context} {seen : List String} {fields : List DraftField} :
    (∀ check ∈ allChecks context seen fields, check.Holds) ↔
      (∀ field ∈ fields, ∀ check ∈ field.checks context seen, check.Holds) ∧
      (fields.map (·.name)).Nodup := by
  induction fields generalizing seen with
  | nil => simp [allChecks]
  | cons field fields ih =>
    have hlater : (∀ later ∈ fields, ∀ check ∈ later.checks context (field.name :: seen),
        check.Holds) ↔
        (∀ later ∈ fields, ∀ check ∈ later.checks context seen, check.Holds) ∧
          field.name ∉ fields.map (·.name) := by
      rw [List.mem_map, not_exists]
      simp only [holds_checks_iff, List.mem_cons, not_or, not_and]
      constructor
      · intro h
        refine ⟨fun later hmem => ?_, fun later hmem => (h later hmem).2.1.1⟩
        obtain ⟨hname, ⟨-, hnew⟩, hpayload⟩ := h later hmem
        exact ⟨hname, hnew, hpayload⟩
      · rintro ⟨h, hother⟩ later hmem
        obtain ⟨hname, hnew, hpayload⟩ := h later hmem
        exact ⟨hname, ⟨hother later hmem, hnew⟩, hpayload⟩
    rw [allChecks, List.forall_mem_append, ih, hlater, List.forall_mem_cons, List.map_cons,
      List.nodup_cons]
    tauto

theorem check_eq (context : Context) (seen : List String) (field : DraftField) :
    field.check context seen = context.checkName field.name "field" >>= fun _ =>
      if seen.contains field.name then .error (context.duplicate field.name "field")
      else if field.values.isSome && field.type != .enumeration then
        .error (context.foreignPayload field.name field.type.name .values)
      else if field.target.isSome && field.type != .externalKey then
        .error (context.foreignPayload field.name field.type.name .target)
      else .ok field.toField := by
  rw [check, foreignPayload?, Payload.owner, Payload.owner]
  split_ifs <;> rfl

theorem decides_check (context : Context) (seen : List String) (field : DraftField) :
    Decides (field.checks context seen) (field.check context seen) field.toField := by
  rw [check_eq]
  apply (context.decides_checkName field.name "field").bind
  apply Decides.ite
  · simp
  apply Decides.ite
  · simp
  apply Decides.ite
  · simp
  exact .pure field.toField

theorem decides_checkAll (context : Context) (seen : List String) (fields : List DraftField) :
    Decides (allChecks context seen fields) (checkAll context seen fields)
      (fields.map toField) := by
  induction fields generalizing seen with
  | nil => exact .pure []
  | cons field fields ih =>
    apply (decides_check context seen field).bind
    rw [← List.append_nil (allChecks context (field.name :: seen) fields)]
    apply (ih (field.name :: seen)).bind
    exact .pure (field.toField :: fields.map toField)

end DraftField

/-! ### Indexes -/

namespace Index

def checks (context : Context) (index : Index) : List Check :=
  [{ Holds := index.fields ≠ []
     error := context.invalid index.name ("index '" ++ index.name ++ "' has no fields") },
    { Holds := "" ∉ index.fields
      error := context.invalid index.name ("index '" ++ index.name ++
        "' has an empty field name at position " ++ toString (index.fields.idxOf "")) }]

theorem holds_checks_iff {context : Context} {index : Index} :
    (∀ check ∈ index.checks context, check.Holds) ↔ index.fields ≠ [] ∧ "" ∉ index.fields := by
  simp [checks]

theorem findIdx?_isEmpty {names : List String} :
    names.findIdx? (·.isEmpty) = if "" ∈ names then some (names.idxOf "") else none := by
  have hempty : (fun name : String => name.isEmpty) = (· == "") := by
    funext name
    rw [Bool.eq_iff_iff]
    simp
  rw [hempty]
  split
  · rename_i h
    rw [List.findIdx?_eq_some_iff_findIdx_eq]
    exact ⟨List.idxOf_lt_length_of_mem h, rfl⟩
  · rename_i h
    rw [List.findIdx?_eq_none_iff]
    intro name hname
    simpa using ne_of_mem_of_not_mem hname h

theorem decides_checkAll (context : Context) (indexes : List Index) :
    Decides (indexes.flatMap (checks context)) (checkAll context indexes) () := by
  induction indexes with
  | nil => exact .pure ()
  | cons index indexes ih =>
    have hfault : checkAll context (index :: indexes) =
        if index.fields = [] then
          .error (context.invalid index.name ("index '" ++ index.name ++ "' has no fields"))
        else if "" ∈ index.fields then
          .error (context.invalid index.name ("index '" ++ index.name ++
            "' has an empty field name at position " ++ toString (index.fields.idxOf "")))
        else checkAll context indexes := by
      rw [checkAll, fault?, findIdx?_isEmpty]
      simp only [List.isEmpty_iff]
      split_ifs <;> rfl
    rw [hfault]
    apply Decides.ite
    · simp
    apply Decides.ite
    · simp
    exact ih

end Index

/-! ### Definitions -/

namespace Draft

def toDefinition (draft : Draft) : ClassDefinition where
  name := draft.name
  parent := draft.parent
  properties := draft.properties
  fields := draft.fields.map DraftField.toField
  lifecycle := draft.lifecycle
  methods := draft.methods
  indexes := draft.indexes
  relations := draft.relations
  menu := draft.menu
  profiles := draft.profiles
  branding := draft.branding

/-- The checks of a draft: its name, its parent, its fields in order, its indexes in order. -/
def checks (draft : Draft) (source : Source) : List Check :=
  let context : Context := { source }
  context.nameCheck draft.name "class" :: context.nameCheck draft.parent "parent class" ::
    (DraftField.allChecks (context.push "fields") [] draft.fields ++
      draft.indexes.flatMap (Index.checks (context.push "indexes")))

theorem decides_validate (draft : Draft) (source : Source) :
    Decides (draft.checks source) (draft.validate source) draft.toDefinition := by
  let context : Context := { source }
  apply (context.decides_checkName draft.name "class").bind
  apply (context.decides_checkName draft.parent "parent class").bind
  apply (DraftField.decides_checkAll (context.push "fields") [] draft.fields).bind
  rw [← List.append_nil (draft.indexes.flatMap (Index.checks (context.push "indexes")))]
  apply (Index.decides_checkAll (context.push "indexes") draft.indexes).bind
  exact .pure draft.toDefinition

/-- Whether a draft may become a definition. -/
structure Valid (draft : Draft) : Prop where
  name : IsIdentifier draft.name
  parent : IsIdentifier draft.parent
  fieldNames : ∀ field ∈ draft.fields, IsIdentifier field.name
  distinct : (draft.fields.map (·.name)).Nodup
  values : ∀ field ∈ draft.fields, field.values.isSome = true → field.type = .enumeration
  targets : ∀ field ∈ draft.fields, field.target.isSome = true → field.type = .externalKey
  indexes : ∀ index ∈ draft.indexes, index.fields ≠ [] ∧ "" ∉ index.fields

theorem valid_iff {draft : Draft} {source : Source} :
    draft.Valid ↔ ∀ check ∈ draft.checks source, check.Holds := by
  simp only [checks, Context.nameCheck, List.forall_mem_cons, List.forall_mem_append,
    List.forall_mem_flatMap, DraftField.holds_allChecks_iff, DraftField.holds_checks_iff,
    Index.holds_checks_iff]
  constructor
  · intro h
    refine ⟨h.name, h.parent, ⟨fun field hfield => ?_, h.distinct⟩, h.indexes⟩
    exact ⟨h.fieldNames field hfield, List.not_mem_nil, h.values field hfield,
      h.targets field hfield⟩
  · rintro ⟨hname, hparent, ⟨hfields, hdistinct⟩, hindexes⟩
    exact {
      name := hname
      parent := hparent
      fieldNames := fun field hfield => (hfields field hfield).1
      distinct := hdistinct
      values := fun field hfield => (hfields field hfield).2.2.1
      targets := fun field hfield => (hfields field hfield).2.2.2
      indexes := hindexes }

end Draft

/-! ### What is kept -/

/-- How a field keeps what is declared of it: the listed values without white space around them, a
target as it is. -/
structure Field.Keeps (declared : DraftField) (field : Field) : Prop where
  name : field.name = declared.name
  type : field.type = declared.type
  nullable : field.nullable = declared.nullable
  defaultValue : field.defaultValue = declared.defaultValue
  sql : field.sql = declared.sql
  values : ∀ values, field.kind = .enumeration values →
    values = (declared.values.map Listing.entries).getD []
  target : ∀ target, field.kind = .externalKey target → target = declared.target.getD ""

/-- How a definition keeps a draft, section by section. -/
structure ClassDefinition.Keeps (draft : Draft) (definition : ClassDefinition) : Prop where
  name : definition.name = draft.name
  parent : definition.parent = draft.parent
  properties : definition.properties = draft.properties
  fields : List.Forall₂ Field.Keeps draft.fields definition.fields
  lifecycle : definition.lifecycle = draft.lifecycle
  methods : definition.methods = draft.methods
  indexes : definition.indexes = draft.indexes
  relations : definition.relations = draft.relations
  menu : definition.menu = draft.menu
  profiles : definition.profiles = draft.profiles
  branding : definition.branding = draft.branding
  found : ∀ field ∈ definition.fields, definition.field? field.name = some field

theorem DraftField.toField_keeps (declared : DraftField) :
    Field.Keeps declared declared.toField := by
  obtain ⟨name, type, nullable, defaultValue, sql, values, target⟩ := declared
  cases type with
  | string | integer | enumeration | externalKey | linkedSet | tagSet | customFields =>
    constructor <;> simp [toField, FieldType.kind, Field.type, FieldKind.type]

theorem Field.find?_name_eq {fields : List Field} (h : (fields.map (·.name)).Nodup) {field : Field}
    (hfield : field ∈ fields) : fields.find? (·.name == field.name) = some field := by
  induction fields with
  | nil => contradiction
  | cons first fields ih =>
    rw [List.map_cons, List.nodup_cons] at h
    rcases List.mem_cons.1 hfield with rfl | hlater
    · exact List.find?_cons_of_pos (by simp)
    · have hname : first.name ≠ field.name := by
        rintro hsame
        rw [hsame] at h
        exact h.1 (List.mem_map_of_mem hlater)
      rw [List.find?_cons_of_neg (by simpa using hname)]
      exact ih h.2 hlater

theorem Draft.toDefinition_keeps {draft : Draft} (h : draft.Valid) :
    draft.toDefinition.Keeps draft := by
  have hfields : List.Forall₂ Field.Keeps draft.fields (draft.fields.map DraftField.toField) :=
    List.forall₂_map_right_iff.2 (List.forall₂_same.2 fun declared _ => declared.toField_keeps)
  have hnames : (draft.fields.map DraftField.toField).map (·.name) = draft.fields.map (·.name) := by
    rw [List.map_map]
    rfl
  have hdistinct : ((draft.fields.map DraftField.toField).map (·.name)).Nodup := hnames ▸ h.distinct
  exact ⟨rfl, rfl, rfl, hfields, rfl, rfl, rfl, rfl, rfl, rfl, rfl, fun field =>
    Field.find?_name_eq hdistinct⟩

/-! ### Indexes as written -/

theorem Toml.Value.exists_of_list? {α : Type} {item : Value → Option α} {value : Value}
    {items : List α} (h : value.list? item = some items) :
    ∀ said ∈ items, ∃ value, item value = some said := by
  cases value with
  | array values =>
    rw [list?] at h
    induction values generalizing items with
    | nil =>
      obtain rfl := Option.some.inj h
      simp
    | cons value values ih =>
      simp only [List.mapM_cons, Option.bind_eq_bind, Option.bind_eq_some_iff] at h
      obtain ⟨first, hfirst, rest, hrest, h⟩ := h
      obtain rfl := Option.some.inj h
      exact List.forall_mem_cons.2 ⟨⟨value, hfirst⟩, ih hrest⟩
  | _ => contradiction

theorem Index.exists_listing {value : Value} {index : Index}
    (h : Index.ofValue? value = some index) :
    ∃ listing : Listing, index.fields = listing.entries := by
  simp only [ofValue?, Option.bind_eq_bind, Option.bind_eq_some_iff] at h
  obtain ⟨members, -, h⟩ := h
  split at h
  · simp only [Option.bind_eq_some_iff] at h
    obtain ⟨name, -, listing, -, h⟩ := h
    obtain rfl := Option.some.inj h
    exact ⟨listing, rfl⟩
  · contradiction

theorem Draft.exists_indexes {members : List (String × Value)} {draft : Draft}
    (h : Draft.ofMembers? members = some draft) :
    ∃ value, Value.orDefault [] (Value.list? Index.ofValue?) value = some draft.indexes := by
  simp only [ofMembers?, Option.bind_eq_bind, Option.bind_eq_some_iff] at h
  obtain ⟨said, -, h⟩ := h
  split at h
  · simp only [Option.bind_eq_some_iff] at h
    obtain ⟨name, -, parent, -, properties, -, fields, -, lifecycle, -, methods, -, indexes,
      hindexes, relations, -, menu, -, profiles, -, branding, -, h⟩ := h
    obtain rfl := Option.some.inj h
    exact ⟨_, hindexes⟩
  · contradiction

/-- The fields of an index are the entries of a listing. -/
theorem Draft.indexes_listed {members : List (String × Value)} {draft : Draft}
    (h : Draft.ofMembers? members = some draft) :
    ∀ index ∈ draft.indexes, ∃ listing : Listing, index.fields = listing.entries := by
  obtain ⟨said, hsaid⟩ := Draft.exists_indexes h
  intro index hindex
  cases said with
  | none =>
    rw [← Option.some.inj hsaid] at hindex
    contradiction
  | some value =>
    obtain ⟨value, hvalue⟩ := Value.exists_of_list? hsaid index hindex
    exact Index.exists_listing hvalue

/-! ### Definitions of a source -/

/-- A source that says a draft becomes a definition exactly where the draft is valid. The definition
keeps the draft, and otherwise the error is that of the first check that does not hold. -/
theorem Source.definition_of_draft {source : Source} {draft : Draft}
    (h : source.draft? = some draft) :
      (∀ index ∈ draft.indexes, ∃ listing : Listing, index.fields = listing.entries) ∧
      ((∃ definition, source.definition = .ok definition) ↔ draft.Valid) ∧
      (∀ error, source.definition = .error error ↔ FirstViolated (draft.checks source) error) ∧
      ∀ definition, source.definition = .ok definition → definition.Keeps draft := by
  have hdecides := draft.decides_validate source
  have hdefinition : source.definition = draft.validate source := by rw [Source.definition, h]
  rw [hdefinition]
  obtain ⟨members, -, hmembers⟩ := Option.bind_eq_some_iff.1 h
  refine ⟨Draft.indexes_listed hmembers, ?_, fun error => hdecides.error_iff, ?_⟩
  · have hvalid : draft.Valid ↔ ∀ check ∈ draft.checks source, check.Holds := Draft.valid_iff
    rw [hvalid, ← hdecides.ok_iff]
    constructor
    · rintro ⟨definition, hok⟩
      rwa [← hdecides.eq_of_ok hok]
    · intro hok
      exact ⟨_, hok⟩
  · intro definition hok
    obtain rfl := hdecides.eq_of_ok hok
    exact Draft.toDefinition_keeps (Draft.valid_iff.2 (hdecides.ok_iff.1 hok))

/-- A source with several faults: a name that is given twice, the second time with a payload of
another type, and an index without fields. -/
def crossed : Source where
  text := "name = \"Server\"\n[[fields]]\nname = \"state\"\ntype = \"enum\"\n" ++
    "values = \" up , down \"\n[[fields]]\nname = \"state\"\nvalues = \"on\"\n" ++
    "[[indexes]]\nname = \"by_state\"\nfields = \"\"\n"
  file := "class.toml"

theorem definition_of_draft_crossed :
    ∃ draft, crossed.draft? = some draft ∧ ¬draft.Valid ∧
      FirstViolated (draft.checks crossed)
        (.duplicateName "class.toml" "field in 'fields'" "state" (some ⟨35, 5⟩)
          (some ⟨98, 5⟩)) := by
  have hrefused : crossed.definition =
      .error (.duplicateName "class.toml" "field in 'fields'" "state" (some ⟨35, 5⟩)
        (some ⟨98, 5⟩)) := by
    decide +kernel
  have hsome : crossed.draft?.isSome = true := by decide +kernel
  obtain ⟨draft, hdraft⟩ := Option.isSome_iff_exists.1 hsome
  obtain ⟨-, hvalid, hviolated, -⟩ := Source.definition_of_draft hdraft
  refine ⟨draft, hdraft, ?_, (hviolated _).1 hrefused⟩
  intro h
  obtain ⟨definition, hok⟩ := hvalid.2 h
  rw [hrefused] at hok
  injection hok

end Datamodel
