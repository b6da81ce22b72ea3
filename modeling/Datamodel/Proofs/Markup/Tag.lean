import Datamodel.Proofs.Markup.WellFormed
import Datamodel.Xml.Token

/-!
# A written tag is read back

A start tag ends at the first closing bracket outside quotes. Names hold neither brackets nor quotes
and an embedded value holds no double quote, so the bracket written at the end is the one found.
Between the brackets the name ends at the first space, and each attribute is read off with its own
name and value.
-/

open Datamodel.Markup

namespace Datamodel.Xml

/-- A piece of a tag that leaves no quote open and does not end the tag. -/
def Closed (piece : List Char) : Prop :=
  ∀ rest, tagEnd none (piece ++ rest) = (tagEnd none rest).map fun cut => (piece ++ cut.1, cut.2)

theorem closed_nil : Closed [] := by
  intro rest
  simp

theorem Closed.append {piece next : List Char} (h : Closed piece) (hnext : Closed next) :
    Closed (piece ++ next) := by
  intro rest
  rw [List.append_assoc, h, hnext, Option.map_map]
  simp [Function.comp_def]

theorem closed_singleton {c : Char} (hend : c ≠ '>') (hquote : c ≠ '"') (happos : c ≠ '\'') :
    Closed [c] := by
  intro rest
  rw [List.singleton_append, tagEnd]
  simp [hend, hquote, happos]

theorem closed_of_isName {name : List Char} (h : ∀ c ∈ name, isTagChar c = true) : Closed name := by
  induction name with
  | nil => exact closed_nil
  | cons c name ih =>
    have hc := h c List.mem_cons_self
    have hfirst : Closed [c] := closed_singleton (ne_of_isTagChar hc rfl) (ne_of_isTagChar hc rfl)
      (ne_of_isTagChar hc rfl)
    exact hfirst.append (ih fun d hd => h d (List.mem_cons_of_mem c hd))

private theorem tagEnd_inside {value : List Char} (h : '"' ∉ value) (rest : List Char) :
    tagEnd (some '"') (value ++ '"' :: rest) =
      (tagEnd none rest).map fun cut => (value ++ '"' :: cut.1, cut.2) := by
  induction value with
  | nil => simp [tagEnd]
  | cons c value ih =>
    rw [List.mem_cons, not_or] at h
    rw [List.cons_append, tagEnd]
    simp only [if_neg (Ne.symm h.1), ih h.2, Option.map_map]
    rfl

theorem closed_quoted {value : List Char} (h : '"' ∉ value) : Closed ('"' :: value ++ ['"']) := by
  intro rest
  have hinside := tagEnd_inside h rest
  rw [List.append_assoc, List.cons_append, List.singleton_append, tagEnd]
  simp only [if_neg (show '"' ≠ '>' by decide), true_or, if_true, hinside, Option.map_map]
  simp [Function.comp_def]

/-- A tag is cut off at the bracket behind it. -/
theorem markup_of_closed {c : Char} {piece : List Char} (hbang : c ≠ '!') (hquestion : c ≠ '?')
    (h : Closed (c :: piece)) (rest : List Char) :
    markup (c :: piece ++ '>' :: rest) = .ok (.tag (c :: piece), rest) := by
  have hend : tagEnd none (c :: (piece ++ '>' :: rest)) = some (c :: piece, rest) := by
    rw [← List.cons_append, h]
    simp [tagEnd]
  rw [List.cons_append]
  unfold markup
  split
  case h_6 => rw [hend]
  all_goals simp_all

/-! ### Attributes -/

theorem quotedValue_written {value : List Char} (h : '"' ∉ value) (place : Nat) (rest : List Char) :
    ∃ next, quotedValue place ('"' :: value ++ '"' :: rest) = .ok (next, value, rest) := by
  have hvalue : ∀ c ∈ value, (c != '"') = true := by
    intro c hc
    rw [bne_iff_ne]
    rintro rfl
    exact h hc
  refine ⟨place + 0 + Text.size value + 2, ?_⟩
  simp [quotedValue, isBlank, List.takeWhile_append_of_pos hvalue,
    List.dropWhile_append_of_pos hvalue]

theorem endsKey_of_isTagChar {c : Char} (h : isTagChar c = true) : endsKey c = false := by
  rw [endsKey, isBlank_of_isTagChar h, Bool.or_false, beq_eq_false_iff_ne]
  exact ne_of_isTagChar h rfl

/-- One attribute is read off, given where its key, its sign and its value are found. -/
theorem attributesFrom_step {seen : List (List Char × Nat)}
    {s afterFirst afterSign raw value rest : List Char} {first : Char}
    (hkey : s.dropWhile isBlank = first :: afterFirst)
    (hsign : (afterFirst.dropWhile (!endsKey ·)).dropWhile isBlank = '=' :: afterSign)
    (hseen : seen.find? (·.1 == first :: afterFirst.takeWhile (!endsKey ·)) = none)
    (hquoted : ∀ place, ∃ next, quotedValue place afterSign = .ok (next, raw, rest))
    (hresolve : resolve raw = .ok value) (place : Nat) :
    ∃ keyPlace next, attributesFrom seen place s =
      (attributesFrom ((first :: afterFirst.takeWhile (!endsKey ·), keyPlace) :: seen)
        next rest).map
        ((String.ofList (first :: afterFirst.takeWhile (!endsKey ·)),
          String.ofList value) :: ·) := by
  obtain ⟨next, hnext⟩ := hquoted (place + Text.size (s.takeWhile isBlank) +
    Text.size (first :: afterFirst.takeWhile (!endsKey ·)) +
    Text.size ((afterFirst.dropWhile (!endsKey ·)).takeWhile isBlank) + 1)
  refine ⟨place + Text.size (s.takeWhile isBlank), next, ?_⟩
  rw [attributesFrom]
  split
  · rename_i h
    rw [hkey] at h
    contradiction
  · rename_i h
    rw [hkey] at h
    obtain ⟨rfl, rfl⟩ := List.cons.inj h
    dsimp only
    split
    · rename_i h
      rw [hsign] at h
      contradiction
    · rename_i h
      rw [hsign] at h
      obtain ⟨rfl, rfl⟩ := List.cons.inj h
      rw [if_neg (by simp), hseen]
      dsimp only
      split
      · rename_i h
        rw [hnext] at h
        contradiction
      · rename_i h
        rw [hnext] at h
        obtain ⟨rfl, rfl, rfl⟩ := Except.ok.inj h
        rw [hresolve]

/-- A written attribute is read off with the space in front of it, unless its name was seen
before. -/
theorem attributesFrom_written {style : Style} {named : String × String}
    (hname : IsName named.1.toList) (hvalue : style.escaping.Carries named.2.toList)
    {seen : List (List Char × Nat)} (hseen : ∀ entry ∈ seen, entry.1 ≠ named.1.toList) (place : Nat)
    (rest : List Char) :
    ∃ keyPlace next, attributesFrom seen place (style.attributeText named ++ rest) =
      (attributesFrom ((named.1.toList, keyPlace) :: seen) next rest).map (named :: ·) := by
  obtain ⟨hresolve, hquote⟩ := hvalue.inAttribute
  obtain ⟨hne, hchars⟩ := hname
  obtain ⟨first, others, hkey⟩ := List.exists_cons_of_ne_nil hne
  rw [hkey] at hchars hseen
  have hfirst := isBlank_of_isTagChar (hchars first List.mem_cons_self)
  have hothers : ∀ c ∈ others, isTagChar c = true :=
    fun c hc => hchars c (List.mem_cons_of_mem first hc)
  generalize hraw : style.escaping.inAttribute named.2.toList = raw at hresolve hquote
  have htext : style.attributeText named ++ rest =
      ' ' :: first :: (others ++ '=' :: ('"' :: raw ++ '"' :: rest)) := by
    simp [Style.attributeText, hkey, hraw]
  have hkeyChars : ∀ c ∈ others, (!endsKey c) = true := fun c hc => by
    simp [endsKey_of_isTagChar (hothers c hc)]
  obtain ⟨htake, hdrop⟩ := Text.cut_run hkeyChars '=' rfl ('"' :: raw ++ '"' :: rest)
  have hunseen : seen.find? (·.1 == first :: others) = none := by
    rw [List.find?_eq_none]
    intro entry hentry
    simpa using hseen entry hentry
  obtain ⟨keyPlace, next, hstep⟩ := attributesFrom_step
    (s := ' ' :: first :: (others ++ '=' :: ('"' :: raw ++ '"' :: rest)))
    (by rw [List.dropWhile_cons_of_pos rfl, List.dropWhile_cons_of_neg (by simp [hfirst])])
    (by rw [hdrop, List.dropWhile_cons_of_neg (by simp [isBlank])])
    (by rw [htake, hunseen]) (fun place => quotedValue_written hquote place rest) hresolve place
  refine ⟨keyPlace, next, ?_⟩
  rw [htext, hstep, htake, ← hkey, String.ofList_toList, String.ofList_toList]

/-- The attributes of a start tag are read back. -/
theorem attributesFrom_attributes {style : Style} {attributes : Attributes}
    (hwell : Attributes.WellFormed attributes)
    (hcarried : Attributes.Carried style.escaping attributes) (seen : List (List Char × Nat))
    (hseen : ∀ entry ∈ seen, ∀ named ∈ attributes, entry.1 ≠ named.1.toList) (place : Nat) :
    attributesFrom seen place (attributes.flatMap style.attributeText) = .ok attributes := by
  induction attributes generalizing seen place with
  | nil =>
    rw [List.flatMap_nil, attributesFrom]
    rfl
  | cons named attributes ih =>
    have hdistinct := List.nodup_cons.1 hwell.distinct
    obtain ⟨keyPlace, next, hfirst⟩ := attributesFrom_written
      (isName_of_isAttributeName (hwell.areNames named List.mem_cons_self))
      (hcarried named List.mem_cons_self)
      (fun entry hentry => hseen entry hentry named List.mem_cons_self) place
      (attributes.flatMap style.attributeText)
    have hrest := ih ⟨fun other hother => hwell.areNames other (List.mem_cons_of_mem named hother),
      hdistinct.2⟩
      (fun other hother => hcarried other (List.mem_cons_of_mem named hother))
      ((named.1.toList, keyPlace) :: seen)
    rw [List.flatMap_cons, hfirst, hrest]
    · rfl
    · intro entry hentry other hother
      rw [List.mem_cons] at hentry
      obtain rfl | hentry := hentry
      · intro hsame
        exact hdistinct.1 (List.mem_map.2 ⟨other, hother, (String.toList_inj.1 hsame).symm⟩)
      · exact hseen entry hentry other (List.mem_cons_of_mem named hother)

/-! ### The content of a written start tag -/

/-- What a style writes between the brackets of a start tag. -/
def tagContent (style : Style) (tag : String) (attributes : Attributes) : List Char :=
  tag.toList ++ attributes.flatMap style.attributeText

theorem startTag_eq (style : Style) (tag : String) (attributes : Attributes) :
    style.startTag tag attributes = '<' :: (tagContent style tag attributes ++ ['>']) :=
  rfl

variable {style : Style} {tag : String} {attributes : Attributes}

theorem tagContent_cons (style : Style) (htag : isTagName tag = true) (attributes : Attributes) :
    ∃ c s, tagContent style tag attributes = c :: s ∧ isTagChar c = true := by
  obtain ⟨hne, hchars⟩ := isName_of_isTagName htag
  obtain ⟨c, s, htext⟩ := List.exists_cons_of_ne_nil hne
  refine ⟨c, s ++ attributes.flatMap style.attributeText, ?_, hchars c (htext ▸ List.mem_cons_self)⟩
  rw [tagContent, htext, List.cons_append]

theorem closed_attributeText {named : String × String} (hname : isAttributeName named.1 = true)
    (hvalue : style.escaping.Carries named.2.toList) : Closed (style.attributeText named) := by
  have hspace : Closed [' '] := closed_singleton (by decide) (by decide) (by decide)
  have hsign : Closed ['='] := closed_singleton (by decide) (by decide) (by decide)
  have hvalue := closed_quoted hvalue.inAttribute.2
  have hall :=
    hspace.append ((closed_of_isName (isName_of_isAttributeName hname).2).append
      (hsign.append hvalue))
  have htext : style.attributeText named = [' '] ++ (named.1.toList ++ (['='] ++
      ('"' :: style.escaping.inAttribute named.2.toList ++ ['"']))) := by
    simp [Style.attributeText]
  rwa [htext]

theorem closed_tagContent (htag : isTagName tag = true) (hwell : Attributes.WellFormed attributes)
    (hcarried : Attributes.Carried style.escaping attributes) :
    Closed (tagContent style tag attributes) := by
  refine (closed_of_isName (isName_of_isTagName htag).2).append ?_
  have hnames := hwell.areNames
  clear hwell
  induction attributes with
  | nil => exact closed_nil
  | cons named attributes ih =>
    rw [List.flatMap_cons]
    exact (closed_attributeText (hnames named List.mem_cons_self)
      (hcarried named List.mem_cons_self)).append
      (ih (fun other hother => hcarried other (List.mem_cons_of_mem named hother))
        fun other hother => hnames other (List.mem_cons_of_mem named hother))

/-- A name is followed by nothing, or by the space of an attribute. -/
private theorem tagContent_cut (htag : isTagName tag = true) :
    tagName (tagContent style tag attributes) = tag.toList ∧
      (tagContent style tag attributes).dropWhile (!isBlank ·) =
        attributes.flatMap style.attributeText := by
  have hchars := (isName_of_isTagName htag).2
  have hall : ∀ c ∈ tag.toList, (!isBlank c) = true := fun c hc => by
    simp [isBlank_of_isTagChar (hchars c hc)]
  cases attributes with
  | nil =>
    rw [tagContent, List.flatMap_nil, List.append_nil, tagName, List.takeWhile_eq_self_iff.2 hall,
      List.dropWhile_eq_nil_iff.2 hall]
    exact ⟨rfl, rfl⟩
  | cons named attributes =>
    exact Text.cut_run hall ' ' rfl _

theorem tagName_tagContent (style : Style) (htag : isTagName tag = true) (attributes : Attributes) :
    tagName (tagContent style tag attributes) = tag.toList :=
  (tagContent_cut htag).1

/-- The attributes of a written start tag are read back. -/
theorem tagAttributes_tagContent (htag : isTagName tag = true)
    (hwell : Attributes.WellFormed attributes)
    (hcarried : Attributes.Carried style.escaping attributes) :
    tagAttributes (tagContent style tag attributes) = .ok attributes := by
  rw [tagAttributes, (tagContent_cut htag).2]
  exact attributesFrom_attributes hwell hcarried [] (by simp) _

/-- A start tag that is written open does not look like one that closes itself. -/
theorem getLast?_tagContent (style : Style) (htag : isTagName tag = true)
    (attributes : Attributes) : (tagContent style tag attributes).getLast? ≠ some '/' := by
  induction attributes using List.reverseRecOn with
  | nil =>
    rw [tagContent, List.flatMap_nil, List.append_nil]
    intro hlast
    exact ne_of_isTagChar ((isName_of_isTagName htag).2 '/' (List.mem_of_getLast? hlast))
      (d := '/') rfl rfl
  | append_singleton attributes named _ =>
    rw [tagContent, List.flatMap_append, List.flatMap_singleton, Style.attributeText,
      ← List.append_assoc, ← List.append_assoc, List.getLast?_concat]
    decide

end Datamodel.Xml
