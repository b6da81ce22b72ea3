import Datamodel.Proofs.Text.Bytes

/-!
# Places of a name

A name is looked for in three ways one after the other, each time from the left: between double
quotes, between single quotes, and as it is. So the place that is found is the earliest of its kind,
and one of another kind may stand before it. A second place is looked for in the same three ways
behind the first, and there is one wherever the name stands there at all.
-/

namespace Datamodel

namespace Span

/-- The ranges of a length that begin a number of bytes behind the beginning of a part. -/
def InPart (part : List Char) (skip length : Nat) (text : List Char) (span : Span) : Prop :=
  ∃ before after, text = before ++ part ++ after ∧ span = ⟨Text.size before + skip, length⟩

/-- The ranges where a name stands. -/
def IsPlaceOf (name : List Char) : (text : List Char) → Span → Prop :=
  InPart name 0 (Text.size name)

/-- The ranges where a name stands between quotes, which do not belong to it. -/
def IsQuoted (quote : Char) (name : List Char) : (text : List Char) → Span → Prop :=
  InPart (quote :: name ++ [quote]) 1 (Text.size name)

/-- The first of the ranges of a kind. -/
def Earliest (Kind : Span → Prop) (span : Span) : Prop :=
  Kind span ∧ ∀ other, Kind other → span.offset ≤ other.offset

/-- The place that counts for a name. -/
inductive Preferred (name text : List Char) (span : Span) : Prop where
  | doubleQuoted (h : Earliest (IsQuoted '"' name text) span)
  | singleQuoted (hdouble : ∀ other, ¬IsQuoted '"' name text other)
      (h : Earliest (IsQuoted '\'' name text) span)
  | bare (hdouble : ∀ other, ¬IsQuoted '"' name text other) (hsingle : ∀ other,
      ¬IsQuoted '\'' name text other) (h : Earliest (IsPlaceOf name text) span)

/-- The range that is so many bytes further on. -/
def shift (start : Nat) (span : Span) : Span :=
  ⟨start + span.offset, span.length⟩

variable {name text part front rest : List Char} {skip length : Nat} {span place : Span}

/-! ### Ranges of a part -/

theorem exists_inPart_iff : (∃ span, InPart part skip length text span) ↔ part <:+: text := by
  constructor
  · rintro ⟨span, before, after, rfl, rfl⟩
    exact ⟨before, after, rfl⟩
  · rintro ⟨before, after, rfl⟩
    exact ⟨_, before, after, rfl, rfl⟩

theorem InPart.length_eq (h : InPart part skip length text span) : span.length = length := by
  obtain ⟨before, after, -, rfl⟩ := h
  rfl

theorem earliest_of_cutAt {before after : List Char}
    (h : Text.cutAt part text = some (before, after)) :
    Earliest (InPart part skip length text) ⟨Text.size before + skip, length⟩ := by
  obtain ⟨heq, hfirst⟩ := Text.cutAt_eq_some_iff.1 h
  refine ⟨⟨before, after, heq, rfl⟩, ?_⟩
  rintro other ⟨front, back, hback, rfl⟩
  have hbefore : before <+: text := ⟨part ++ after, by rw [heq, List.append_assoc]⟩
  have hfront : front <+: text := ⟨part ++ back, by rw [hback, List.append_assoc]⟩
  have hle : Text.size before ≤ Text.size front :=
    (Text.size_le_size_iff hbefore hfront).2 (hfirst front back hback)
  exact Nat.add_le_add_right hle skip

/-- The search for a part finds its earliest range, or there is none. -/
theorem offsetOf?_cases (part text : List Char) (skip length : Nat) :
    (∃ offset, Text.offsetOf? part text = some offset ∧
      Earliest (InPart part skip length text) ⟨offset + skip, length⟩) ∨
    Text.offsetOf? part text = none ∧ ∀ other, ¬InPart part skip length text other := by
  rw [Text.offsetOf?]
  cases hcut : Text.cutAt part text with
  | some cut => exact .inl ⟨_, rfl, earliest_of_cutAt hcut⟩
  | none =>
    refine .inr ⟨rfl, ?_⟩
    rintro other ⟨front, back, rfl, -⟩
    obtain ⟨cut, hfound, -⟩ := Text.exists_cutAt part front back
    rw [hcut] at hfound
    contradiction

/-! ### Places -/

theorem IsQuoted.isPlaceOf {quote : Char} (hquote : quote.utf8Size = 1)
    (h : IsQuoted quote name text span) :
    IsPlaceOf name text span := by
  obtain ⟨before, after, rfl, rfl⟩ := h
  refine ⟨before ++ [quote], quote :: after, by simp, ?_⟩
  rw [Text.size_append, Text.size_cons, hquote]
  rfl

theorem Preferred.isPlaceOf (h : Preferred name text span) : IsPlaceOf name text span := by
  cases h with
  | doubleQuoted h => exact h.1.isPlaceOf (by decide)
  | singleQuoted _ h => exact h.1.isPlaceOf (by decide)
  | bare _ _ h => exact h.1

theorem IsPlaceOf.shift (h : IsPlaceOf name rest place) (front : List Char) :
    IsPlaceOf name (front ++ rest) (place.shift (Text.size front)) := by
  obtain ⟨before, after, rfl, rfl⟩ := h
  refine ⟨front ++ before, after, by simp only [List.append_assoc], ?_⟩
  rw [Text.size_append]
  rfl

theorem IsPlaceOf.covers {source name : String} (h : IsPlaceOf name.toList source.toList span) :
    span.Covers source name := by
  obtain ⟨before, after, htext, rfl⟩ := h
  have hcovers := Text.covers_of_eq htext
  rwa [String.ofList_toList] at hcovers

/-- A place leaves the text behind it as a rest. -/
theorem IsPlaceOf.exists_rest (h : IsPlaceOf name text span) :
    ∃ front rest, text = front ++ rest ∧ Text.size front = span.stop := by
  obtain ⟨before, after, rfl, rfl⟩ := h
  exact ⟨before ++ name, after, rfl, Text.size_append before name⟩

/-- A place that begins behind a front lies in the rest. -/
theorem IsPlaceOf.infix_rest (h : IsPlaceOf name (front ++ rest) span)
    (hbehind : Text.size front ≤ span.offset) : name <:+: rest := by
  obtain ⟨before, after, htext, rfl⟩ := h
  rw [List.append_assoc] at htext
  have hfront : front <+: front ++ rest := List.prefix_append front rest
  have hbefore : before <+: front ++ rest := ⟨name ++ after, htext.symm⟩
  obtain ⟨between, rfl⟩ := List.prefix_of_prefix_length_le hfront hbefore
    ((Text.size_le_size_iff hfront hbefore).1 hbehind)
  rw [List.append_assoc] at htext
  exact ⟨between, after, by rw [List.append_cancel_left htext, List.append_assoc]⟩

/-! ### The place that is found -/

/-- The search for a name finds the place that counts, or the name does not occur. -/
theorem find?_cases (name text : List Char) (start : Nat) :
    (∃ place, find? name text start = some (place.shift start) ∧ Preferred name text place) ∨
      find? name text start = none ∧ ¬name <:+: text := by
  -- A search that finds nothing rules out its kind of place for the searches after it.
  simp only [find?]
  rcases offsetOf?_cases ('"' :: name ++ ['"']) text 1 (Text.size name) with
    ⟨offset, hfound, h⟩ | ⟨hdouble, hnodouble⟩
  · rw [hfound]
    exact .inl ⟨_, rfl, .doubleQuoted h⟩
  rcases offsetOf?_cases ('\'' :: name ++ ['\'']) text 1 (Text.size name) with
    ⟨offset, hfound, h⟩ | ⟨hsingle, hnosingle⟩
  · rw [hdouble, hfound]
    exact .inl ⟨_, rfl, .singleQuoted hnodouble h⟩
  rcases offsetOf?_cases name text 0 (Text.size name) with ⟨offset, hfound, h⟩ | ⟨hbare, hnobare⟩
  · rw [hdouble, hsingle, hfound]
    exact .inl ⟨_, rfl, .bare hnodouble hnosingle h⟩
  · rw [hdouble, hsingle, hbare]
    exact .inr ⟨rfl, fun h => (exists_inPart_iff.2 h).elim hnobare⟩

end Span

namespace Source

variable {source : Source} {name : String} {front rest : List Char}

theorem spanFrom?_eq (hname : name ≠ "") (htext : source.text.toList = front ++ rest) :
    source.spanFrom? name (Text.size front) = Span.find? name.toList rest (Text.size front) := by
  have hnonempty : ¬name.isEmpty = true := by simpa using hname
  rw [spanFrom?, htext, Text.dropSize?_size, Text.size_append]
  cases rest with
  | nil =>
    have hnowhere : ¬name.toList <:+: [] := by
      rw [List.infix_nil, String.toList_eq_nil_iff]
      exact hname
    rw [if_pos (.inr (by simp))]
    rcases Span.find?_cases name.toList [] (Text.size front) with ⟨place, -, hplace⟩ | ⟨hnone, -⟩
    · exact (hnowhere (Span.exists_inPart_iff.1 ⟨place, hplace.isPlaceOf⟩)).elim
    · exact hnone.symm
  | cons c rest =>
    have hc := c.utf8Size_pos
    have hinside : ¬Text.size front ≥ Text.size front + Text.size (c :: rest) := by
      rw [Text.size_cons]
      omega
    rw [if_neg (not_or.2 ⟨hnonempty, hinside⟩)]
    rfl

/-- Behind a front of the source, the place that counts in the rest is found, or the name does not
occur there. -/
theorem spanFrom?_cases (hname : name ≠ "") (htext : source.text.toList = front ++ rest) :
    (∃ place : Span, source.spanFrom? name (Text.size front) =
      some (place.shift (Text.size front)) ∧
      place.Preferred name.toList rest) ∨
    source.spanFrom? name (Text.size front) = none ∧ ¬name.toList <:+: rest := by
  rw [spanFrom?_eq hname htext]
  exact Span.find?_cases name.toList rest (Text.size front)

theorem span?_cases (source : Source) (name : String) :
    (∃ span, source.span? name = some span ∧ name ≠ "" ∧
      span.Preferred name.toList source.text.toList) ∨
      source.span? name = none ∧ (name = "" ∨ ¬name.toList <:+: source.text.toList) := by
  by_cases hname : name = ""
  · exact .inr ⟨by rw [span?, spanFrom?, if_pos (.inl (by rw [hname]; rfl))], .inl hname⟩
  · have htext : source.text.toList = [] ++ source.text.toList := rfl
    rcases spanFrom?_cases hname htext with ⟨span, hfound, h⟩ | ⟨hnone, h⟩
    · refine .inl ⟨span, ?_, hname, h⟩
      rw [span?, ← Text.size_nil, hfound, Text.size_nil, Span.shift, Nat.zero_add]
    · exact .inr ⟨hnone, .inr h⟩

/-- Whether a place is the one that counts for a name in what follows another place. -/
def IsNext (source : Source) (name : String) (first second : Span) : Prop :=
  ∃ front rest place, source.text.toList = front ++ rest ∧ Text.size front = first.stop ∧
    Span.Preferred name.toList rest place ∧ second = place.shift first.stop

theorem IsNext.isPlaceOf {first second : Span} (h : source.IsNext name first second) :
    second.IsPlaceOf name.toList source.text.toList := by
  obtain ⟨front, rest, place, htext, hsize, hplace, rfl⟩ := h
  rw [htext, ← hsize]
  exact hplace.isPlaceOf.shift front

theorem IsNext.behind {first second : Span} (h : source.IsNext name first second) :
    first.stop ≤ second.offset := by
  obtain ⟨-, -, place, -, -, -, rfl⟩ := h
  exact Nat.le_add_right first.stop place.offset

/-- Behind a place of a name the next one is found, or none begins there. -/
theorem spanFrom?_stop_cases {first : Span} (hname : name ≠ "")
    (hfirst : first.IsPlaceOf name.toList source.text.toList) :
    (∃ second, source.spanFrom? name first.stop = some second ∧ source.IsNext name first second) ∨
      source.spanFrom? name first.stop = none ∧
        ∀ other : Span, other.IsPlaceOf name.toList source.text.toList →
          other.offset < first.stop := by
  obtain ⟨front, rest, htext, hsize⟩ := hfirst.exists_rest
  rw [← hsize]
  rcases spanFrom?_cases hname htext with ⟨place, hfound, hplace⟩ | ⟨hnone, hnowhere⟩
  · exact .inl ⟨_, hfound, front, rest, place, htext, hsize, hplace, by rw [hsize]⟩
  · refine .inr ⟨hnone, fun other hother => ?_⟩
    rw [htext] at hother
    by_contra hbehind
    exact hnowhere (hother.infix_rest (Nat.le_of_not_lt hbehind))

/-- What is found of a name that is looked for twice. -/
theorem spans?_cases (source : Source) (name : String) :
    (∃ first second, source.spans? name = (some first, second) ∧ name ≠ "" ∧
      first.Preferred name.toList source.text.toList ∧
      ((∃ next, second = some next ∧ source.IsNext name first next) ∨
        second = none ∧
          ∀ other : Span, other.IsPlaceOf name.toList source.text.toList →
            other.offset < first.stop)) ∨
    source.spans? name = (none, none) ∧ (name = "" ∨ ¬name.toList <:+: source.text.toList) := by
  rw [spans?]
  rcases source.span?_cases name with ⟨first, hfound, hname, hfirst⟩ | ⟨hnone, h⟩
  · rw [hfound]
    exact .inl ⟨first, _, rfl, hname, hfirst, spanFrom?_stop_cases hname hfirst.isPlaceOf⟩
  · rw [hnone]
    exact .inr ⟨rfl, h⟩

end Source

end Datamodel
