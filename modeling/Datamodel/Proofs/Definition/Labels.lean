import Datamodel.Proofs.Definition.Validation
import Datamodel.Proofs.Definition.Span

/-!
# Labels of an error

A draft is refused for a check of something that has a name, and the error of the check points at
that name. So what the labels show is told once for the two ways of looking for a name, and every
check has its error from one of them.

The report of a name that is given twice looks for it twice, the second time behind the place that
counts first. As double quotes count before single ones wherever they stand, that place is not the
first declaration where the two declarations have different quotes, and then the second search may
have nothing left to find.
-/

namespace Datamodel

/-- Whether places are those to point at for a name. -/
structure Source.PointsAt (source : Source) (name : String) (spans : List Span) : Prop where
  covers : ∀ span ∈ spans, span.Covers source.text name
  absent : spans = [] ↔ name = "" ∨ ¬name.toList <:+: source.text.toList
  first : ∀ span, spans.head? = some span → span.Preferred name.toList source.text.toList
  next : ∀ first others, spans = first :: others →
    ∀ second ∈ others, source.IsNext name first second ∧ first.stop ≤ second.offset
  atMostTwo : spans.length ≤ 2

/-- Whether an error is about a name of a draft. -/
def DefinitionError.Blames (draft : Draft) (name : String) : DefinitionError → Prop
  | .unreadable _ => False
  | .malformed _ => False
  | .foreignPayload _ shown type payload _ =>
    shown = name ∧ ∃ field ∈ draft.fields, field.name = name ∧ field.type.name = type ∧
      field.type ≠ payload.owner
  | .invalidName _ context shown _ _ =>
    shown = name ∧ ¬IsIdentifier name ∧
      (context = "class" ∧ name = draft.name ∨ context = "parent class" ∧ name = draft.parent ∨
        context = "field in 'fields'" ∧ name ∈ draft.fields.map (·.name))
  | .duplicateName _ context shown _ _ =>
    shown = name ∧ context = "field in 'fields'" ∧ 2 ≤ (draft.fields.map (·.name)).count name
  | .invalid _ message _ => ∃ index ∈ draft.indexes, index.name = name ∧ index.fault? = some message

namespace Source

variable (source : Source) (name : String)

theorem pointsAt_span? : source.PointsAt name (source.span? name).toList := by
  rcases source.span?_cases name with ⟨span, hfound, hname, hspan⟩ | ⟨hnone, h⟩
  · have hoccurs : name.toList <:+: source.text.toList :=
      Span.exists_inPart_iff.1 ⟨span, hspan.isPlaceOf⟩
    rw [hfound, Option.toList_some]
    exact {
      covers := List.forall_mem_singleton.2 hspan.isPlaceOf.covers
      absent := by simp [hname, hoccurs]
      first := fun first hfirst => Option.some.inj hfirst ▸ hspan
      next := by simp
      atMostTwo := by simp }
  · rw [hnone, Option.toList_none]
    exact ⟨by simp, by simpa using h, by simp, by simp, by simp⟩

theorem pointsAt_spans? :
    source.PointsAt name ((source.spans? name).1.toList ++ (source.spans? name).2.toList) := by
  have honce := source.pointsAt_span? name
  rcases source.spans?_cases name with ⟨first, second, hfound, hname, hfirst, hsecond⟩ | ⟨hnone, h⟩
  · have hone : source.span? name = some first := congrArg Prod.fst hfound
    rw [hone] at honce
    rw [hfound]
    rcases hsecond with ⟨next, rfl, hnext⟩ | ⟨rfl, -⟩
    · exact {
        covers := List.forall_mem_cons.2
          ⟨hfirst.isPlaceOf.covers, List.forall_mem_singleton.2 hnext.isPlaceOf.covers⟩
        absent := by simpa using honce.absent
        first := honce.first
        next := by
          intro first others hsplit
          obtain ⟨rfl, rfl⟩ := List.cons.inj hsplit
          exact List.forall_mem_singleton.2 ⟨hnext, hnext.behind⟩
        atMostTwo := le_rfl }
    · exact honce
  · have hone : source.span? name = none := congrArg Prod.fst hnone
    rw [hone] at honce
    rwa [hnone]

end Source

/-! ### What an error is about -/

theorem DraftField.exists_of_mem_allChecks {context : Context} {seen : List String}
    {fields : List DraftField} {check : Check} (h : check ∈ allChecks context seen fields) :
    ∃ front field back, fields = front ++ field :: back ∧
      check ∈ field.checks context ((front.map (·.name)).reverse ++ seen) := by
  induction fields generalizing seen with
  | nil => contradiction
  | cons field fields ih =>
    rcases List.mem_append.1 h with hfirst | hlater
    · exact ⟨[], field, fields, rfl, hfirst⟩
    · obtain ⟨front, later, back, rfl, hcheck⟩ := ih hlater
      exact ⟨field :: front, later, back, rfl, by simpa using hcheck⟩

theorem DefinitionError.labels_toList (label : String) (span : Option Span) :
    ((span.map (label, ·)).toList).map (·.2) = span.toList := by
  cases span <;> rfl

theorem DefinitionError.code?_of_labels {error : DefinitionError} (h : 1 < error.labels.length) :
    error.code? = some "forge::duplicate_name" := by
  cases error with
  | unreadable | malformed => contradiction
  | duplicateName => rfl
  | foreignPayload _ _ _ _ span | invalidName _ _ _ _ span | invalid _ _ span =>
    cases span <;> contradiction

theorem Source.pointsAt_label (source : Source) (name label : String) :
    source.PointsAt name (((source.span? name).map (label, ·)).toList.map (·.2)) := by
  rw [DefinitionError.labels_toList]
  exact source.pointsAt_span? name

theorem Context.describe_field (source : Source) :
    ({ source : Context }.push "fields").describe "field" = "field in 'fields'" := by
  have hclosed : "field" ++ " in '" ++ ".".intercalate ["fields"] ++ "'" = "field in 'fields'" := by
    decide +kernel
  exact hclosed

theorem Context.pointsAt_duplicate (context : Context) (name kind : String) :
    context.source.PointsAt name ((context.duplicate name kind).labels.map (·.2)) := by
  rw [duplicate, DefinitionError.labels, List.map_append, DefinitionError.labels_toList,
    DefinitionError.labels_toList]
  exact context.source.pointsAt_spans? name

theorem Index.fault?_of_mem_checks {context : Context} {index : Index} {check : Check}
    (h : check ∈ index.checks context) (hviolated : ¬check.Holds) :
    ∃ message, check.error = context.invalid index.name message ∧ index.fault? = some message := by
  simp only [checks, List.mem_cons, List.not_mem_nil, or_false] at h
  rcases h with rfl | rfl
  · have hempty : index.fields = [] := not_not.1 hviolated
    exact ⟨_, rfl, by rw [fault?, hempty]; rfl⟩
  · have hmem : "" ∈ index.fields := not_not.1 hviolated
    have hsome : ¬index.fields.isEmpty = true := by
      rw [List.isEmpty_iff]
      exact List.ne_nil_of_mem hmem
    exact ⟨_, rfl, by rw [fault?, if_neg hsome, findIdx?_isEmpty, if_pos hmem]; rfl⟩

theorem DraftField.blames_of_mem_checks {draft : Draft} {source : Source}
    {front back : List DraftField} {field : DraftField} {check : Check}
    (hfields : draft.fields = front ++ field :: back)
    (h : check ∈ field.checks ({ source : Context }.push "fields") (front.map (·.name)).reverse)
    (hviolated : ¬check.Holds) :
    check.error.Blames draft field.name ∧
    source.PointsAt field.name (check.error.labels.map (·.2)) := by
  have hmem : field ∈ draft.fields := by simp [hfields]
  simp only [checks, List.mem_cons, List.not_mem_nil, or_false] at h
  rcases h with rfl | rfl | rfl | rfl
  · exact ⟨⟨rfl, hviolated, .inr (.inr ⟨Context.describe_field source, List.mem_map_of_mem hmem⟩)⟩,
      source.pointsAt_label field.name "invalid identifier"⟩
  · have hseen : field.name ∈ front.map (·.name) := List.mem_reverse.1 (not_not.1 hviolated)
    refine ⟨⟨rfl, Context.describe_field source, ?_⟩,
      ({ source : Context }.push "fields").pointsAt_duplicate field.name "field"⟩
    rw [hfields, List.map_append, List.map_cons, List.count_append, List.count_cons_self]
    have hcount := List.count_pos_iff.2 hseen
    omega
  · have hforeign : field.type ≠ .enumeration := fun hsame => hviolated fun _ => hsame
    exact ⟨⟨rfl, field, hmem, rfl, rfl, hforeign⟩, source.pointsAt_label field.name "declared here"⟩
  · have hforeign : field.type ≠ .externalKey := fun hsame => hviolated fun _ => hsame
    exact ⟨⟨rfl, field, hmem, rfl, rfl, hforeign⟩, source.pointsAt_label field.name "declared here"⟩

/-- The error of a violated check is about something of the draft, and points at its name. -/
theorem Draft.blames_of_mem_checks {draft : Draft} {source : Source} {check : Check}
    (h : check ∈ draft.checks source) (hviolated : ¬check.Holds) :
    ∃ name, check.error.Blames draft name ∧
      source.PointsAt name (check.error.labels.map (·.2)) := by
  simp only [checks, List.mem_cons, List.mem_append, List.mem_flatMap] at h
  rcases h with rfl | rfl | hfield | ⟨index, hindex, hcheck⟩
  · exact ⟨draft.name, ⟨rfl, hviolated, .inl ⟨rfl, rfl⟩⟩,
      source.pointsAt_label draft.name "invalid identifier"⟩
  · exact ⟨draft.parent, ⟨rfl, hviolated, .inr (.inl ⟨rfl, rfl⟩)⟩,
      source.pointsAt_label draft.parent "invalid identifier"⟩
  · obtain ⟨front, field, back, hfields, hcheck⟩ := DraftField.exists_of_mem_allChecks hfield
    rw [List.append_nil] at hcheck
    exact ⟨field.name, DraftField.blames_of_mem_checks hfields hcheck hviolated⟩
  · obtain ⟨message, herror, hfault⟩ := Index.fault?_of_mem_checks hcheck hviolated
    rw [herror]
    exact ⟨index.name, ⟨index, hindex, rfl, hfault⟩, source.pointsAt_label index.name message⟩

/-- A refused source is no draft, or its error is about something of the draft that has a name, and
the labels show where that name stands. Only a name that is given twice has two places. -/
theorem Source.labels_of_error {source : Source} {error : DefinitionError}
    (h : source.definition = .error error) :
    error = .malformed source.file ∨
      ∃ draft name, source.draft? = some draft ∧ error.Blames draft name ∧
        source.PointsAt name (error.labels.map (·.2)) ∧
        (1 < error.labels.length → error.code? = some "forge::duplicate_name") := by
  rw [definition] at h
  cases hdraft : source.draft? with
  | none =>
    rw [hdraft] at h
    exact .inl (Except.error.inj h).symm
  | some draft =>
    rw [hdraft] at h
    obtain ⟨before, check, after, hsplit, -, hviolated, rfl⟩ :=
      (draft.decides_validate source).error_iff.1 h
    have hcheck : check ∈ draft.checks source := by simp [hsplit]
    obtain ⟨name, hblames, hpoints⟩ := Draft.blames_of_mem_checks hcheck hviolated
    exact .inr ⟨draft, name, rfl, hblames, hpoints, DefinitionError.code?_of_labels⟩

/-- A source with a field whose name is no identifier, written once more in front of its
declaration. -/
def accented : Source where
  text := "# états\nname = \"Server\"\n[[fields]]\nname = \"état\""
  file := "class.toml"

theorem labels_of_error_accented :
    accented.definition =
        .error (.invalidName "class.toml" "field in 'fields'" "état" .badStart (some ⟨44, 5⟩)) ∧
      accented.PointsAt "état" [⟨44, 5⟩] := by
  have hrefused : accented.definition =
      .error (.invalidName "class.toml" "field in 'fields'" "état" .badStart (some ⟨44, 5⟩)) := by
    decide +kernel
  rcases Source.labels_of_error hrefused with hmalformed | ⟨draft, name, -, hblames, hpoints, -⟩
  · contradiction
  · obtain ⟨rfl, -⟩ := hblames
    exact ⟨hrefused, hpoints⟩

/-! ### Names that are given twice -/

namespace Span

/-- The ranges where a name stands between quotes of either kind. -/
def InQuotes (name text : List Char) (span : Span) : Prop :=
  IsQuoted '"' name text span ∨ IsQuoted '\'' name text span

/-- Whether no place between single quotes stands before all those between double quotes. -/
def DoubleQuotesFirst (name text : List Char) : Prop :=
  ∀ single double, IsQuoted '\'' name text single → IsQuoted '"' name text double →
    ∃ first, IsQuoted '"' name text first ∧ first.offset ≤ single.offset

variable {name text : List Char} {place : Span}

theorem Preferred.earliest_inQuotes (h : Preferred name text place)
    (hfirst : DoubleQuotesFirst name text) (hsome : ∃ other, InQuotes name text other) :
    Earliest (InQuotes name text) place := by
  cases h with
  | doubleQuoted h =>
    refine ⟨.inl h.1, ?_⟩
    rintro other (hdouble | hsingle)
    · exact h.2 other hdouble
    · obtain ⟨double, hdouble, hle⟩ := hfirst other place hsingle h.1
      exact (h.2 double hdouble).trans hle
  | singleQuoted hdouble h =>
    refine ⟨.inr h.1, ?_⟩
    rintro other (hother | hsingle)
    · exact (hdouble other hother).elim
    · exact h.2 other hsingle
  | bare hdouble hsingle _ =>
    obtain ⟨other, hother | hother⟩ := hsome
    · exact (hdouble other hother).elim
    · exact (hsingle other hother).elim

theorem Preferred.doubleQuotesFirst (h : Preferred name text place)
    (hfirst : Earliest (InQuotes name text) place) :
    DoubleQuotesFirst name text := by
  intro single double hsingle hdouble
  cases h with
  | doubleQuoted h => exact ⟨place, h.1, hfirst.2 single (.inr hsingle)⟩
  | singleQuoted hnone _ | bare hnone _ _ => exact (hnone double hdouble).elim

theorem Preferred.earliest_of_bare (h : Preferred name text place)
    (hnone : ∀ other, ¬InQuotes name text other) : Earliest (IsPlaceOf name text) place := by
  cases h with
  | doubleQuoted h => exact (hnone place (.inl h.1)).elim
  | singleQuoted _ h => exact (hnone place (.inr h.1)).elim
  | bare _ _ h => exact h

end Span

/-- Whether a report shows two places of a name that do not overlap, the first of them the earliest
between quotes. -/
def Source.ShowsBoth (source : Source) (name : String) (first second : Option Span) : Prop :=
  ∃ place next, first = some place ∧ second = some next ∧ place.Covers source.text name ∧
    next.Covers source.text name ∧ place.stop ≤ next.offset ∧
    ((∃ other, Span.InQuotes name.toList source.text.toList other) →
      Span.Earliest (Span.InQuotes name.toList source.text.toList) place)

/-- Whether a place that is to be shown has another one behind it: one between quotes, or any if
there are no quotes. -/
def Source.Repeats (source : Source) (name : String) : Prop :=
  ∃ one two : Span, one.IsPlaceOf name.toList source.text.toList ∧
    two.IsPlaceOf name.toList source.text.toList ∧
    one.stop ≤ two.offset ∧
    (one.InQuotes name.toList source.text.toList ∨
      ∀ other, ¬Span.InQuotes name.toList source.text.toList other)

theorem Source.showsBoth_iff {source : Source} {name : String} {place next : Span}
    (hplace : place.Preferred name.toList source.text.toList)
    (hnext : source.IsNext name place next) :
    source.ShowsBoth name (some place) (some next) ↔
      Span.DoubleQuotesFirst name.toList source.text.toList := by
  constructor
  · rintro ⟨shown, -, hshown, -, -, -, -, hearliest⟩ single double hsingle hdouble
    obtain rfl := Option.some.inj hshown
    exact hplace.doubleQuotesFirst (hearliest ⟨double, .inl hdouble⟩) single double hsingle hdouble
  · intro hfirst
    exact ⟨place, next, rfl, rfl, hplace.isPlaceOf.covers, hnext.isPlaceOf.covers, hnext.behind,
      hplace.earliest_inQuotes hfirst⟩

theorem Source.IsNext.repeats {source : Source} {name : String} {place next : Span}
    (h : source.IsNext name place next) (hplace : place.Preferred name.toList source.text.toList)
    (hfirst : Span.DoubleQuotesFirst name.toList source.text.toList) : source.Repeats name := by
  refine ⟨place, next, hplace.isPlaceOf, h.isPlaceOf, h.behind, ?_⟩
  by_cases hquoted : ∃ other, Span.InQuotes name.toList source.text.toList other
  · exact .inl (hplace.earliest_inQuotes hfirst hquoted).1
  · exact .inr (not_exists.1 hquoted)

theorem Source.Repeats.exists_behind {source : Source} {name : String} {place : Span}
    (h : source.Repeats name) (hplace : place.Preferred name.toList source.text.toList)
    (hfirst : Span.DoubleQuotesFirst name.toList source.text.toList) :
    ∃ other : Span, other.IsPlaceOf name.toList source.text.toList ∧ place.stop ≤ other.offset := by
  obtain ⟨one, two, hone, htwo, hbehind, hcounts⟩ := h
  have hle : place.offset ≤ one.offset := by
    rcases hcounts with hquoted | hnone
    · exact (hplace.earliest_inQuotes hfirst ⟨one, hquoted⟩).2 one hquoted
    · exact (hplace.earliest_of_bare hnone).2 one hone
  have hlength : place.length = one.length := by rw [hplace.isPlaceOf.length_eq, hone.length_eq]
  refine ⟨two, htwo, le_trans ?_ hbehind⟩
  rw [Span.stop, Span.stop, hlength]
  exact Nat.add_le_add_right hle one.length

/-- The report of a name that is given twice points at the place that counts, and at another one
wherever the name stands behind it. So two places with the earliest quoted one in front are shown
where a place between quotes, or any place if there are no quotes, has another one behind it, and no
place between single quotes stands before all those between double quotes. -/
theorem Context.duplicate_places (context : Context) (name kind : String) :
    ∃ first second, context.duplicate name kind =
        .duplicateName context.source.file (context.describe kind) name first second ∧
      context.source.PointsAt name (first.toList ++ second.toList) ∧
      (∀ place, first = some place →
        (second = none ↔
          ∀ other : Span, other.IsPlaceOf name.toList context.source.text.toList →
            other.offset < place.stop)) ∧
      (context.source.ShowsBoth name first second ↔
        name ≠ "" ∧ context.source.Repeats name ∧
          Span.DoubleQuotesFirst name.toList context.source.text.toList) := by
  have hpoints := context.source.pointsAt_spans? name
  rcases context.source.spans?_cases name with
    ⟨place, second, hfound, hname, hplace, hsecond⟩ | ⟨hfound, habsent⟩
  · rw [hfound] at hpoints
    refine ⟨some place, second, by rw [duplicate, hfound], hpoints, ?_, ?_⟩
    · intro first hfirst
      obtain rfl := Option.some.inj hfirst
      rcases hsecond with ⟨next, rfl, hnext⟩ | ⟨rfl, hlast⟩
      · refine iff_of_false (Option.some_ne_none next) fun hlast => ?_
        exact (hlast next hnext.isPlaceOf).not_ge hnext.behind
      · exact iff_of_true rfl hlast
    · rcases hsecond with ⟨next, rfl, hnext⟩ | ⟨rfl, hlast⟩
      · rw [Source.showsBoth_iff hplace hnext]
        exact ⟨fun hfirst => ⟨hname, hnext.repeats hplace hfirst, hfirst⟩, fun hrepeated =>
          hrepeated.2.2⟩
      · refine iff_of_false ?_ ?_
        · rintro ⟨shown, next, -, hnext, -⟩
          contradiction
        · rintro ⟨-, hrepeats, hfirst⟩
          obtain ⟨other, hother, hbehind⟩ := hrepeats.exists_behind hplace hfirst
          exact (hlast other hother).not_ge hbehind
  · rw [hfound] at hpoints
    refine ⟨none, none, by rw [duplicate, hfound], hpoints, by simp, iff_of_false ?_ ?_⟩
    · rintro ⟨place, -, hplace, -⟩
      contradiction
    · rintro ⟨hname, ⟨one, -, hone, -⟩, -⟩
      have hoccurs : name.toList <:+: context.source.text.toList :=
        Span.exists_inPart_iff.1 ⟨one, hone⟩
      exact habsent.elim hname fun hnowhere => hnowhere hoccurs

/-- A source that gives a name twice between single quotes, and has it once more in front. -/
def singleQuotes : Source where
  text := "# x\nname = 'Server'\n[[fields]]\nname = 'x'\n[[fields]]\nname = 'x'"
  file := "class.toml"

theorem duplicate_places_singleQuotes :
    ∃ first second, Context.duplicate ⟨singleQuotes, ["fields"]⟩ "x" "field" =
        .duplicateName "class.toml" (Context.describe ⟨singleQuotes, ["fields"]⟩ "field") "x"
          first second ∧
      singleQuotes.ShowsBoth "x" first second := by
  have hone : Span.IsQuoted '\'' "x".toList singleQuotes.text.toList ⟨39, 1⟩ :=
    ⟨"# x\nname = 'Server'\n[[fields]]\nname = ".toList, "\n[[fields]]\nname = 'x'".toList,
      by decide +kernel, by decide +kernel⟩
  have htwo : Span.IsQuoted '\'' "x".toList singleQuotes.text.toList ⟨61, 1⟩ :=
    ⟨"# x\nname = 'Server'\n[[fields]]\nname = 'x'\n[[fields]]\nname = ".toList, [],
      by decide +kernel, by decide +kernel⟩
  have hfirst : Span.DoubleQuotesFirst "x".toList singleQuotes.text.toList := by
    have hnone : ¬('"' :: "x".toList ++ ['"'] <:+: singleQuotes.text.toList) := by decide +kernel
    exact fun _ double _ hdouble => (hnone (Span.exists_inPart_iff.1 ⟨double, hdouble⟩)).elim
  obtain ⟨first, second, heq, -, -, hboth⟩ :=
    Context.duplicate_places ⟨singleQuotes, ["fields"]⟩ "x" "field"
  have hrepeats : singleQuotes.Repeats "x" :=
    ⟨_, _, hone.isPlaceOf (by decide), htwo.isPlaceOf (by decide), by decide, .inl (.inr hone)⟩
  exact ⟨first, second, heq, hboth.2 ⟨by decide, hrepeats, hfirst⟩⟩

/-- A source that gives a name twice, first between single quotes and then between double quotes. -/
def mixedQuotes : Source where
  text := "name = \"Server\"\n[[fields]]\nname = 'x'\n[[fields]]\nname = \"x\""
  file := "class.toml"

/-- The place that counts is the second declaration, and nothing is left behind it. -/
theorem definition_mixedQuotes :
    mixedQuotes.definition =
        .error (.duplicateName "class.toml" "field in 'fields'" "x" (some ⟨57, 1⟩) none) ∧
      Span.IsQuoted '\'' "x".toList mixedQuotes.text.toList ⟨35, 1⟩ ∧
      Span.IsQuoted '"' "x".toList mixedQuotes.text.toList ⟨57, 1⟩ ∧
      Span.stop ⟨35, 1⟩ ≤ Span.offset ⟨57, 1⟩ ∧
      ¬mixedQuotes.ShowsBoth "x" (some ⟨57, 1⟩) none := by
  refine ⟨by decide +kernel, ?_, ?_, by decide, ?_⟩
  · exact ⟨"name = \"Server\"\n[[fields]]\nname = ".toList, "\n[[fields]]\nname = \"x\"".toList,
      by decide +kernel, by decide +kernel⟩
  · exact ⟨"name = \"Server\"\n[[fields]]\nname = 'x'\n[[fields]]\nname = ".toList, [],
      by decide +kernel, by decide +kernel⟩
  · rintro ⟨place, next, -, hnext, -⟩
    contradiction

end Datamodel
