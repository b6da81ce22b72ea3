import Datamodel.Proofs.Text.Pattern
import Mathlib.Data.List.Count

/-!
# What a descriptor tells

A value is found by two searches, for the first registration and then for the first place behind it
where a key has a value, and neither is taken back. A pattern for the same has runs of four kinds in
it, each of which may go on trying, but it finds the same value. Behind a later registration there
is nothing that is not behind the first, white space ends where an arrow or an opening stands, and a
value ends with the first quote or not at all.

What is found does not depend on what stands before the registration, and not on what stands behind
the closing quote either. A place that begins earlier and has come to nothing so far cannot come to
anything by what follows: it would have to go on over all the quotes of the place that was found,
and these are already more than it may have inside.
-/

namespace Datamodel.RegistrationKey

open Text (Part)

def valueParts (key : RegistrationKey) : List Part :=
  [.mark key.key, .longRun Text.isSpace, .mark "=>".toList, .longRun Text.isSpace,
    .mark key.opening, .capture (· != '\n'), .mark ['\'']]

def pattern (key : RegistrationKey) : List Part :=
  .mark registration :: .shortRun (fun _ => true) :: key.valueParts

/-- The first registration of a text, by what stands before it and what follows its opening. -/
structure Registers (source before body : List Char) : Prop where
  eq : source = before ++ registration ++ body
  first : ∀ front back, source = front ++ registration ++ back → before.length ≤ front.length

/-- A text from a key up to the end of its value. -/
inductive Tells (key : RegistrationKey) : List Char → List Char → Prop where
  | intro {blanks gap value : List Char} (hblanks : ∀ c ∈ blanks, Text.isSpace c = true)
      (hgap : ∀ c ∈ gap, Text.isSpace c = true) (hquote : '\'' ∉ value) (hline : '\n' ∉ value) :
      Tells key (key.key ++ blanks ++ "=>".toList ++ gap ++ key.opening ++ value) value

/-- A place where a key has a value: what stands before it, the text up to the end of the value, and
what follows the closing quote. -/
structure Told (key : RegistrationKey) (body front text value after : List Char) : Prop where
  eq : body = front ++ text ++ '\'' :: after
  tells : key.Tells text value

/-- The earliest of these places. -/
structure FirstTold (key : RegistrationKey) (body front text value after : List Char) : Prop
    extends key.Told body front text value after where
  first : ∀ earlier other told rest, key.Told body earlier other told rest →
    front.length ≤ earlier.length

variable {key : RegistrationKey}

/-! ### A value at the front of a text -/

theorem value?_append {value : List Char} (hquote : '\'' ∉ value) (hline : '\n' ∉ value)
    (after : List Char) : value? (value ++ '\'' :: after) = some value := by
  induction value with
  | nil => rw [List.nil_append, value?, if_pos rfl]
  | cons c value ih =>
    rw [List.mem_cons, not_or] at hquote hline
    rw [List.cons_append, value?, if_neg (Ne.symm hquote.1), if_neg (Ne.symm hline.1),
      ih hquote.2 hline.2, Option.map_some]

theorem value?_eq_some_iff {s value : List Char} :
    value? s = some value ↔ '\'' ∉ value ∧ '\n' ∉ value ∧ ∃ after, s = value ++ '\'' :: after := by
  constructor
  · intro h
    induction s generalizing value with
    | nil => contradiction
    | cons c s ih =>
      rw [value?] at h
      split_ifs at h with hquote hline
      · obtain rfl := Option.some.inj h
        exact ⟨List.not_mem_nil, List.not_mem_nil, s, by rw [hquote, List.nil_append]⟩
      · obtain ⟨rest, hrest, rfl⟩ := Option.map_eq_some_iff.1 h
        obtain ⟨hq, hl, after, rfl⟩ := ih hrest
        exact ⟨List.not_mem_cons_of_ne_of_not_mem (Ne.symm hquote) hq,
          List.not_mem_cons_of_ne_of_not_mem (Ne.symm hline) hl, after, rfl⟩
  · rintro ⟨hquote, hline, after, rfl⟩
    exact value?_append hquote hline after

theorem opening_eq (h : key = label ∨ key = version) :
    ∃ m text, key.opening = m :: text ∧ Text.isSpace m = false := by
  rcases h with rfl | rfl
  · exact ⟨'D', "ict::S('".toList, by decide, by decide⟩
  · exact ⟨'\'', [], by decide, by decide⟩

theorem valueAt?_eq_some_iff (h : key = label ∨ key = version) {s value : List Char} :
    key.valueAt? s = some value ↔ ∃ text after, key.Told s [] text value after := by
  obtain ⟨m, opening, hopening, hm⟩ := opening_eq h
  have harrow : "=>".toList = '=' :: ['>'] := by decide
  rw [valueAt?]
  simp only [Option.bind_eq_bind, Option.bind_eq_some_iff, hopening, harrow,
    Text.afterMark?_dropWhile_eq_some_iff hm,
    Text.afterMark?_dropWhile_eq_some_iff (p := Text.isSpace) (m := '=') rfl,
    Text.afterMark?_eq_some_iff, value?_eq_some_iff]
  constructor
  · rintro ⟨_, rfl, _, ⟨blanks, hblanks, rfl⟩, _, ⟨gap, hgap, rfl⟩, hquote, hline, after, rfl⟩
    refine ⟨_, after, ?_, .intro hblanks hgap hquote hline⟩
    simp [hopening]
  · rintro ⟨_, after, rfl, @⟨blanks, gap, value, hblanks, hgap, hquote, hline⟩⟩
    refine ⟨blanks ++ ['=', '>'] ++ (gap ++ m :: opening ++ (value ++ '\'' :: after)), ?_, _,
      ⟨blanks, hblanks, rfl⟩, _, ⟨gap, hgap, rfl⟩, hquote, hline, after, rfl⟩
    simp [hopening]

/-! ### The first value of a text -/

theorem told_cons_iff {c d : Char} {s front text value after : List Char} :
    key.Told (c :: s) (d :: front) text value after ↔
    c = d ∧ key.Told s front text value after := by
  constructor
  · rintro ⟨heq, htells⟩
    obtain ⟨hc, hs⟩ := List.cons.inj heq
    exact ⟨hc, hs, htells⟩
  · rintro ⟨rfl, rfl, htells⟩
    exact ⟨rfl, htells⟩

theorem firstValue?_eq_some_iff (h : key = label ∨ key = version) {body value : List Char} :
    key.firstValue? body = some value ↔
    ∃ front text after, key.FirstTold body front text value after := by
  induction body with
  | nil =>
    refine iff_of_false (by simp [firstValue?]) ?_
    rintro ⟨front, text, after, hfirst⟩
    simpa using hfirst.eq
  | cons c s ih =>
    rw [firstValue?]
    cases hhere : key.valueAt? (c :: s) with
    | some found =>
      obtain ⟨text, after, htold⟩ := (valueAt?_eq_some_iff h).1 hhere
      rw [Option.some_or]
      constructor
      · intro hfound
        obtain rfl := Option.some.inj hfound
        exact ⟨[], text, after, htold, fun _ _ _ _ _ => Nat.zero_le _⟩
      · rintro ⟨front, other, rest, hfirst⟩
        obtain rfl := List.length_eq_zero_iff.1
          (Nat.le_zero.1 (hfirst.first [] text found after htold))
        rw [← hhere]
        exact (valueAt?_eq_some_iff h).2 ⟨other, rest, hfirst.toTold⟩
    | none =>
      have hnot : ∀ text told after, ¬key.Told (c :: s) [] text told after := by
        intro text told after htold
        rw [(valueAt?_eq_some_iff h).2 ⟨text, after, htold⟩] at hhere
        contradiction
      rw [Option.none_or, ih]
      constructor
      · rintro ⟨front, text, after, hfirst⟩
        refine ⟨c :: front, text, after, told_cons_iff.2 ⟨rfl, hfirst.toTold⟩, ?_⟩
        intro earlier other told rest htold
        cases earlier with
        | nil => exact (hnot other told rest htold).elim
        | cons d earlier =>
          exact Nat.succ_le_succ (hfirst.first earlier other told rest (told_cons_iff.1 htold).2)
      · rintro ⟨front, text, after, hfirst⟩
        cases front with
        | nil => exact (hnot text value after hfirst.toTold).elim
        | cons d front =>
          obtain ⟨rfl, hrest⟩ := told_cons_iff.1 hfirst.toTold
          refine ⟨front, text, after, hrest, fun earlier other told rest htold => ?_⟩
          exact Nat.le_of_succ_le_succ
            (hfirst.first (c :: earlier) other told rest (told_cons_iff.2 ⟨rfl, htold⟩))

/-- Where there is a place at all, a value is found. -/
theorem exists_firstValue?_of_told (h : key = label ∨ key = version)
    {body front text value after : List Char} (htold : key.Told body front text value after) :
    ∃ found, key.firstValue? body = some found := by
  induction front generalizing body with
  | nil =>
    have hvalue := (valueAt?_eq_some_iff h).2 ⟨text, after, htold⟩
    cases body with
    | nil => simpa using htold.eq
    | cons c s => exact ⟨value, by rw [firstValue?, hvalue, Option.some_or]⟩
  | cons c front ih =>
    cases body with
    | nil => simpa using htold.eq
    | cons d s =>
      obtain ⟨rfl, hrest⟩ := told_cons_iff.1 htold
      obtain ⟨found, hfound⟩ := ih hrest
      rw [firstValue?, hfound]
      cases key.valueAt? (d :: s) with
      | none => exact ⟨found, rfl⟩
      | some other => exact ⟨other, rfl⟩

/-- What has no value has none in what is left of it either. -/
theorem firstValue?_eq_none_of_suffix (h : key = label ∨ key = version) {body rest : List Char}
    (hnone : key.firstValue? body = none) (hrest : rest <:+ body) :
    key.firstValue? rest = none := by
  obtain ⟨skipped, rfl⟩ := hrest
  rw [Option.eq_none_iff_forall_ne_some]
  intro value hvalue
  obtain ⟨front, text, after, hfirst⟩ := (firstValue?_eq_some_iff h).1 hvalue
  have htold : key.Told (skipped ++ rest) (skipped ++ front) text value after := by
    refine ⟨?_, hfirst.tells⟩
    rw [hfirst.eq, List.append_assoc skipped, List.append_assoc skipped]
  obtain ⟨found, hfound⟩ := exists_firstValue?_of_told h htold
  rw [hnone] at hfound
  contradiction

theorem Registers.find?_eq {source before body : List Char} (h : Registers source before body)
    (key : RegistrationKey) : key.find? source = key.firstValue? body := by
  rw [find?, Text.cutAt_eq_some_iff.2 ⟨h.eq, h.first⟩, Option.bind_some]

theorem find?_eq_some_iff {source value : List Char} :
    key.find? source = some value ↔
      ∃ before body, Registers source before body ∧ key.firstValue? body = some value := by
  constructor
  · intro h
    obtain ⟨⟨before, body⟩, hcut, hvalue⟩ := Option.bind_eq_some_iff.1 h
    obtain ⟨hsource, hfirst⟩ := Text.cutAt_eq_some_iff.1 hcut
    exact ⟨before, body, ⟨hsource, hfirst⟩, hvalue⟩
  · rintro ⟨before, body, hsource, hvalue⟩
    rw [hsource.find?_eq, hvalue]

/-! ### The same by a pattern -/

theorem head?_ways_value (s : List Char) :
    (Text.ways [.capture (· != '\n'), .mark ['\'']] s).head? = (value? s).map ([·]) := by
  induction s with
  | nil => rfl
  | cons c s ih =>
    rw [Text.head?_ways_capture, ih, Text.head?_ways_mark, value?]
    by_cases hquote : c = '\''
    · subst hquote
      rfl
    · have hmark : Text.afterMark? ['\''] (c :: s) = none := by
        simp [Text.afterMark?, List.isPrefixOf, Ne.symm hquote]
      rw [hmark, if_neg hquote]
      by_cases hline : c = '\n'
      · subst hline
        rfl
      · rw [if_neg hline, if_pos (bne_iff_ne.2 hline), Option.map_map, Option.map_map]
        rfl

theorem head?_ways_valueParts (h : key = label ∨ key = version) (s : List Char) :
    (Text.ways key.valueParts s).head? = (key.valueAt? s).map ([·]) := by
  obtain ⟨m, opening, hopening, hm⟩ := opening_eq h
  have harrow : "=>".toList = '=' :: ['>'] := by decide
  have hspace : Text.isSpace '=' = false := by decide
  simp only [valueParts, valueAt?, Option.bind_eq_bind, hopening, harrow]
  rw [Text.head?_ways_mark, Option.map_bind]
  congr 1
  funext s
  rw [Text.ways_longRun_mark hspace, Text.head?_ways_mark, Function.comp, Option.map_bind]
  congr 1
  funext s
  rw [Text.ways_longRun_mark hm, Text.head?_ways_mark, Function.comp, Option.map_bind]
  congr 1
  funext s
  exact head?_ways_value s

theorem head?_ways_shortRun_valueParts (h : key = label ∨ key = version) (s : List Char) :
    (Text.ways (.shortRun (fun _ => true) :: key.valueParts) s).head? =
      (key.firstValue? s).map ([·]) := by
  induction s with
  | nil =>
    have hnone : key.valueAt? [] = none := by
      rw [Option.eq_none_iff_forall_ne_some]
      intro value hvalue
      obtain ⟨text, after, htold⟩ := (valueAt?_eq_some_iff h).1 hvalue
      simpa using htold.eq
    rw [Text.ways, Text.runs, List.flatMap_singleton, head?_ways_valueParts h, hnone, firstValue?]
  | cons c s ih =>
    rw [Text.head?_ways_shortRun, ih, if_pos rfl, head?_ways_valueParts h, firstValue?,
      Option.map_or]

/-- What follows a later registration is the end of what follows the first. -/
theorem suffix_of_afterMark? {c : Char} {s rest : List Char} {cut : List Char × List Char}
    (hfirst : Text.afterMark? registration (c :: s) = some rest)
    (hcut : Text.cutAt registration s = some cut) : cut.2 <:+ rest := by
  have hrest := Text.afterMark?_eq_some_iff.1 hfirst
  have hlater := (Text.cutAt_eq_some_iff.1 hcut).1
  have hsuffix : cut.2 <:+ c :: s := ⟨c :: (cut.1 ++ registration), congrArg (c :: ·) hlater.symm⟩
  refine List.suffix_of_suffix_length_le hsuffix ⟨registration, hrest.symm⟩ ?_
  have hlength := congrArg List.length hrest
  rw [hlater] at hlength
  simp only [List.length_cons, List.length_append] at hlength
  omega

theorem captures?_pattern (h : key = label ∨ key = version) (source : List Char) :
    Text.captures? key.pattern source = (key.find? source).map ([·]) := by
  have hways (s : List Char) : (Text.ways key.pattern s).head? =
      (Text.afterMark? registration s).bind fun rest => (key.firstValue? rest).map ([·]) := by
    simp only [pattern, Text.head?_ways_mark, head?_ways_shortRun_valueParts h]
  induction source with
  | nil =>
    rw [Text.captures?, hways]
    rfl
  | cons c s ih =>
    rw [Text.captures?, hways, ih, find?, find?, Text.cutAt_cons]
    cases hmark : Text.afterMark? registration (c :: s) with
    | none =>
      rw [Option.bind_none, Option.none_or, Option.map_none, Option.none_or, Option.bind_map]
      rfl
    | some rest =>
      rw [Option.bind_some, Option.map_some, Option.some_or, Option.bind_some]
      cases hvalue : key.firstValue? rest with
      | some value => rfl
      | none =>
        have hlater : (Text.cutAt registration s).bind (fun cut => key.firstValue? cut.2) =
            none := by
          rw [Option.bind_eq_none_iff]
          intro cut hcut
          exact firstValue?_eq_none_of_suffix h hvalue (suffix_of_afterMark? hmark hcut)
        rw [hlater]
        rfl

/-! ### What does not matter -/

/-- Whether a registration is the first does not depend on what follows its opening. -/
theorem Registers.replace {source before body : List Char} (h : Registers source before body)
    (other : List Char) : Registers (before ++ registration ++ other) before other := by
  refine ⟨rfl, fun front back hback => ?_⟩
  rcases List.append_eq_append_iff.1 hback with ⟨more, hmore, -⟩ | ⟨more, hmore, -⟩
  · have hlength := congrArg List.length hmore
    simp only [List.length_append] at hlength
    omega
  · refine h.first front (more ++ body) ?_
    rw [h.eq, hmore, List.append_assoc]

theorem Tells.count_quote {text value : List Char} (h : key.Tells text value) :
    text.count '\'' = key.key.count '\'' + key.opening.count '\'' := by
  obtain @⟨blanks, gap, value, hblanks, hgap, hquote, -⟩ := h
  have hspaces : ∀ run : List Char, (∀ c ∈ run, Text.isSpace c = true) → run.count '\'' = 0 := by
    intro run hrun
    refine List.count_eq_zero.2 fun hmem => ?_
    exact absurd (hrun '\'' hmem) (by decide)
  have harrow : "=>".toList.count '\'' = 0 := by decide
  rw [List.count_append, List.count_append, List.count_append, List.count_append, List.count_append,
    hspaces blanks hblanks, hspaces gap hgap, harrow, List.count_eq_zero.2 hquote]
  rfl

/-- The earliest place stays so whatever follows its closing quote. -/
theorem FirstTold.replace {body front text value after : List Char}
    (h : key.FirstTold body front text value after) (other : List Char) :
    key.FirstTold (front ++ text ++ '\'' :: other) front text value other := by
  refine ⟨⟨rfl, h.tells⟩, fun earlier found told rest htold => ?_⟩
  rcases List.append_eq_append_iff.1 htold.eq with ⟨more, hmore, hrest⟩ | ⟨more, hmore, hrest⟩
  · cases more with
    | nil =>
      refine h.first earlier found told after ⟨?_, htold.tells⟩
      rw [h.eq, hmore, List.append_nil]
    | cons c more =>
      -- The place would have the whole of `text` and its closing quote inside, and so too many
      -- quotes.
      obtain ⟨rfl, -⟩ := List.cons.inj hrest
      by_contra hlt
      have hinside : front <+: earlier ++ found :=
        ⟨text ++ '\'' :: more, by rw [hmore, List.append_assoc]⟩
      obtain ⟨skipped, rfl⟩ := List.prefix_of_prefix_length_le ⟨found, rfl⟩ hinside
        (Nat.le_of_not_le hlt)
      have hfound : found = skipped ++ text ++ '\'' :: more := by
        simpa using hmore
      have hcount := congrArg (List.count '\'') hfound
      rw [List.count_append, List.count_append, List.count_cons_self, htold.tells.count_quote,
        h.tells.count_quote] at hcount
      omega
  · obtain ⟨left, hleft⟩ : ∃ left, more ++ '\'' :: after = '\'' :: left := by
      cases more with
      | nil => exact ⟨after, rfl⟩
      | cons c more =>
        obtain ⟨rfl, -⟩ := List.cons.inj hrest
        exact ⟨more ++ '\'' :: after, rfl⟩
    refine h.first earlier found told left ⟨?_, htold.tells⟩
    rw [h.eq, hmore, List.append_assoc, hleft]

/-- The value of a key is that of the earliest place behind the first registration, which is what
the pattern captures. It depends on nothing in front of that registration and on nothing behind the
closing quote of the value. -/
theorem find?_first (h : key = label ∨ key = version) :
    (∀ source, key.find? source = (Text.captures? key.pattern source).bind (·.head?)) ∧
      (∀ source, (∃ value, key.find? source = some value) ↔
        ∃ before body front text value after, Registers source before body ∧
          key.Told body front text value after) ∧
      (∀ source value, key.find? source = some value ↔
        ∃ before body front text after, Registers source before body ∧
          key.FirstTold body front text value after) ∧
      (∀ source value, key.find? source = some value → '\'' ∉ value ∧ '\n' ∉ value) ∧
      (∀ source other before front body, Registers source before body → Registers other front body →
        key.find? source = key.find? other) ∧
      ∀ source before body front text value after other, Registers source before body →
        key.FirstTold body front text value after →
        key.find? (before ++ registration ++ (front ++ text ++ '\'' :: other)) = some value := by
  have hfound : ∀ source value, key.find? source = some value ↔
      ∃ before body front text after, Registers source before body ∧
        key.FirstTold body front text value after := by
    intro source value
    rw [find?_eq_some_iff]
    constructor
    · rintro ⟨before, body, hsource, hvalue⟩
      obtain ⟨front, text, after, hfirst⟩ := (firstValue?_eq_some_iff h).1 hvalue
      exact ⟨before, body, front, text, after, hsource, hfirst⟩
    · rintro ⟨before, body, front, text, after, hsource, hfirst⟩
      exact ⟨before, body, hsource, (firstValue?_eq_some_iff h).2 ⟨front, text, after, hfirst⟩⟩
  refine ⟨fun source => ?_, fun source => ?_, hfound, fun source value hvalue => ?_, ?_, ?_⟩
  · rw [captures?_pattern h, Option.bind_map]
    exact (Option.bind_fun_some _).symm
  · constructor
    · rintro ⟨value, hvalue⟩
      obtain ⟨before, body, front, text, after, hsource, hfirst⟩ := (hfound source value).1 hvalue
      exact ⟨before, body, front, text, value, after, hsource, hfirst.toTold⟩
    · rintro ⟨before, body, front, text, value, after, hsource, htold⟩
      rw [hsource.find?_eq]
      exact exists_firstValue?_of_told h htold
  · obtain ⟨_, _, _, text, _, -, hfirst⟩ := (hfound source value).1 hvalue
    obtain ⟨-, -, hquote, hline⟩ := hfirst.tells
    exact ⟨hquote, hline⟩
  · intro source other before front body hsource hother
    rw [hsource.find?_eq, hother.find?_eq]
  · intro source before body front text value after other hsource hfirst
    exact (hfound _ value).2 ⟨before, _, front, text, other, hsource.replace _,
      hfirst.replace other⟩

/-- A descriptor with a label that the line cuts off, another label and a second registration. -/
def serverDescriptor : List Char :=
  "<?php SetupWebPage::AddModule('label' => Dict::S('Cut\n off'), ".toList ++
    "'label'\t=>Dict::S('Server'));".toList ++
    "SetupWebPage::AddModule('label' => Dict::S('Other'));".toList

theorem find?_first_server :
    label.find? serverDescriptor = some "Server".toList ∧
      (Text.captures? label.pattern serverDescriptor).bind (·.head?) = some "Server".toList ∧
      ∃ before body front text after, Registers serverDescriptor before body ∧
        label.FirstTold body front text "Server".toList after := by
  have hvalue : label.find? serverDescriptor = some "Server".toList := by decide +kernel
  obtain ⟨hpattern, -, hfound, -⟩ := find?_first (.inl rfl)
  exact ⟨hvalue, (hpattern serverDescriptor).symm.trans hvalue,
    (hfound serverDescriptor _).1 hvalue⟩

end Datamodel.RegistrationKey
