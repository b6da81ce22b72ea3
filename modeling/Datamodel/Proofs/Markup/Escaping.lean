import Datamodel.Markup.Escaping
import Datamodel.Xml.Tag
import Mathlib.Data.List.DropRight

/-!
# What a reader makes of an embedded value

Escaping works one character at a time, and so does the reader's resolving: a piece of text spells a
character if it is that character, unless that is an ampersand, or one of the five named references.
A value written as the spellings of its characters is resolved to itself, whatever stands before or
after it. White space is always spelled by itself, so trimming a written text trims the value.
-/

namespace Datamodel.Text

variable {p : Char → Bool} {run : List Char}

/-- A run ends at the first character that does not belong to it. -/
theorem cut_run (h : ∀ c ∈ run, p c = true) (stop : Char) (hstop : p stop = false)
    (rest : List Char) :
    (run ++ stop :: rest).takeWhile p = run ∧ (run ++ stop :: rest).dropWhile p = stop :: rest := by
  rw [List.takeWhile_append_of_pos h, List.dropWhile_append_of_pos h,
    List.takeWhile_cons_of_neg (by simp [hstop]), List.dropWhile_cons_of_neg (by simp [hstop]),
    List.append_nil]
  exact ⟨rfl, rfl⟩

theorem run_inj {other : List Char} {stop stop' : Char} {r s : List Char}
    (h : ∀ c ∈ run, p c = true) (hother : ∀ c ∈ other, p c = true) (hstop : p stop = false)
    (hstop' : p stop' = false) (heq : run ++ stop :: r = other ++ stop' :: s) :
    run = other ∧ r = s := by
  have htake := congrArg (List.takeWhile p) heq
  have hdrop := congrArg (List.dropWhile p) heq
  rw [(cut_run h stop hstop r).1, (cut_run hother stop' hstop' s).1] at htake
  rw [(cut_run h stop hstop r).2, (cut_run hother stop' hstop' s).2] at hdrop
  exact ⟨htake, (List.cons.inj hdrop).2⟩

end Datamodel.Text

namespace Datamodel.Xml

/-- The pieces of text that resolve to a character. -/
def Spells (piece : List Char) (c : Char) : Prop :=
  (piece = [c] ∧ c ≠ '&') ∨ ∃ name, named? name = some c ∧ piece = '&' :: name ++ [';']

theorem spells_self {c : Char} (h : c ≠ '&') : Spells [c] c :=
  .inl ⟨rfl, h⟩

theorem spells_named {c : Char} (name : List Char) (h : named? name = some c) :
    Spells ('&' :: name ++ [';']) c :=
  .inr ⟨name, h, rfl⟩

private theorem named?_cases {name : List Char} {c : Char} (h : named? name = some c) :
    (name = ['l', 't'] ∧ c = '<') ∨ (name = ['g', 't'] ∧ c = '>') ∨
      (name = ['a', 'm', 'p'] ∧ c = '&') ∨
      (name = ['a', 'p', 'o', 's'] ∧ c = '\'') ∨ (name = ['q', 'u', 'o', 't'] ∧ c = '"') := by
  unfold named? at h
  split at h
  · exact .inl ⟨rfl, (Option.some.inj h).symm⟩
  · exact .inr (.inl ⟨rfl, (Option.some.inj h).symm⟩)
  · exact .inr (.inr (.inl ⟨rfl, (Option.some.inj h).symm⟩))
  · exact .inr (.inr (.inr (.inl ⟨rfl, (Option.some.inj h).symm⟩)))
  · exact .inr (.inr (.inr (.inr ⟨rfl, (Option.some.inj h).symm⟩)))
  · contradiction

theorem referenceBody?_named {name : List Char} {c : Char} (h : named? name = some c)
    (s : List Char) : referenceBody? (name ++ ';' :: s) = some (name, s) := by
  obtain ⟨rfl, -⟩ | ⟨rfl, -⟩ | ⟨rfl, -⟩ | ⟨rfl, -⟩ | ⟨rfl, -⟩ := named?_cases h
  all_goals rfl

theorem resolveReference_named {name : List Char} {c : Char} (h : named? name = some c)
    (start : Nat) : resolveReference start name = .ok c := by
  obtain ⟨rfl, rfl⟩ | ⟨rfl, rfl⟩ | ⟨rfl, rfl⟩ | ⟨rfl, rfl⟩ | ⟨rfl, rfl⟩ := named?_cases h
  all_goals rfl

theorem isBlank_of_named {name : List Char} {c : Char} (h : named? name = some c) :
    isBlank c = false := by
  obtain ⟨-, rfl⟩ | ⟨-, rfl⟩ | ⟨-, rfl⟩ | ⟨-, rfl⟩ | ⟨-, rfl⟩ := named?_cases h
  all_goals rfl

/-- A spelling is resolved to its character, and resolving goes on behind it. -/
theorem resolveFrom_spelled {piece : List Char} {c : Char} (h : Spells piece c) (total offset : Nat)
    (s : List Char) :
    ∃ next, resolveFrom total offset (piece ++ s) = (resolveFrom total next s).map (c :: ·) := by
  obtain ⟨rfl, hc⟩ | ⟨name, hname, rfl⟩ := h
  · refine ⟨offset + c.utf8Size, ?_⟩
    rw [List.singleton_append, resolveFrom, if_neg hc]
  · refine ⟨offset + Text.size name + 2, ?_⟩
    have hbody := referenceBody?_named hname s
    rw [List.append_assoc, List.cons_append, List.singleton_append, resolveFrom, if_pos rfl]
    split
    · simp_all
    · rename_i body rest hfound
      rw [hbody] at hfound
      obtain ⟨rfl, rfl⟩ := Prod.mk.inj (Option.some.inj hfound)
      simp only [resolveReference_named hname]

theorem resolveFrom_flatMap {spell : Char → List Char} {value : List Char}
    (h : ∀ c ∈ value, Spells (spell c) c) (total offset : Nat) :
    resolveFrom total offset (value.flatMap spell) = .ok value := by
  induction value generalizing offset with
  | nil => rw [List.flatMap_nil, resolveFrom]
  | cons c value ih =>
    obtain ⟨next, hnext⟩ := resolveFrom_spelled (h c List.mem_cons_self) total offset
      (value.flatMap spell)
    rw [List.flatMap_cons, hnext, ih (fun d hd => h d (List.mem_cons_of_mem c hd))]
    rfl

/-- A value written as the spellings of its characters is resolved to itself. -/
theorem resolve_flatMap {spell : Char → List Char} {value : List Char}
    (h : ∀ c ∈ value, Spells (spell c) c) : resolve (value.flatMap spell) = .ok value :=
  resolveFrom_flatMap h _ _

/-! ### White space around a spelled value -/

/-- The text without the white space of a document at its ends. -/
def trimBlanks (s : List Char) : List Char :=
  Text.dropEndWhile isBlank (s.dropWhile isBlank)

theorem Spells.eq_of_isBlank {piece : List Char} {c : Char} (h : Spells piece c)
    (hc : isBlank c = true) : piece = [c] := by
  obtain ⟨hpiece, -⟩ | ⟨name, hname, -⟩ := h
  · exact hpiece
  · rw [isBlank_of_named hname] at hc
    contradiction

/-- The spelling of anything but white space begins and ends with something else than white
space. -/
theorem Spells.ends {piece : List Char} {c : Char} (h : Spells piece c) (hc : isBlank c = false) :
    (∃ first rest, piece = first :: rest ∧ isBlank first = false) ∧
      ∃ before last, piece = before ++ [last] ∧ isBlank last = false := by
  obtain ⟨rfl, -⟩ | ⟨name, -, rfl⟩ := h
  · exact ⟨⟨c, [], rfl, hc⟩, ⟨[], c, rfl, hc⟩⟩
  · exact ⟨⟨'&', name ++ [';'], rfl, rfl⟩, ⟨'&' :: name, ';', rfl, rfl⟩⟩

theorem dropWhile_flatMap {spell : Char → List Char} {value : List Char}
    (h : ∀ c ∈ value, Spells (spell c) c) :
    (value.flatMap spell).dropWhile isBlank = (value.dropWhile isBlank).flatMap spell := by
  induction value with
  | nil => rfl
  | cons c value ih =>
    have hspell := h c List.mem_cons_self
    cases hc : isBlank c with
    | true =>
      rw [List.flatMap_cons, hspell.eq_of_isBlank hc, List.singleton_append,
        List.dropWhile_cons_of_pos hc, List.dropWhile_cons_of_pos hc,
        ih (fun d hd => h d (List.mem_cons_of_mem c hd))]
    | false =>
      obtain ⟨⟨first, rest, hpiece, hfirst⟩, -⟩ := hspell.ends hc
      rw [List.dropWhile_cons_of_neg (by simp [hc]), List.flatMap_cons, hpiece, List.cons_append,
        List.dropWhile_cons_of_neg (by simp [hfirst])]

theorem dropEndWhile_flatMap {spell : Char → List Char} {value : List Char}
    (h : ∀ c ∈ value, Spells (spell c) c) :
    Text.dropEndWhile isBlank (value.flatMap spell) =
      (Text.dropEndWhile isBlank value).flatMap spell := by
  change (value.flatMap spell).rdropWhile isBlank = (value.rdropWhile isBlank).flatMap spell
  induction value using List.reverseRecOn with
  | nil => rfl
  | append_singleton value c ih =>
    have hspell := h c (by simp)
    rw [List.flatMap_append, List.flatMap_singleton]
    cases hc : isBlank c with
    | true =>
      rw [hspell.eq_of_isBlank hc, List.rdropWhile_concat_pos _ _ _ hc,
        List.rdropWhile_concat_pos _ _ _ hc, ih (fun d hd => h d (List.mem_append_left [c] hd))]
    | false =>
      obtain ⟨-, before, last, hpiece, hlast⟩ := hspell.ends hc
      rw [List.rdropWhile_concat_neg _ _ _ (by simp [hc]), hpiece, ← List.append_assoc,
        List.rdropWhile_concat_neg _ _ _ (by simp [hlast]), List.flatMap_append,
        List.flatMap_singleton, hpiece, List.append_assoc]

theorem trimBlanks_flatMap {spell : Char → List Char} {value : List Char}
    (h : ∀ c ∈ value, Spells (spell c) c) :
    trimBlanks (value.flatMap spell) = (trimBlanks value).flatMap spell := by
  have hsuffix : ∀ c ∈ value.dropWhile isBlank, Spells (spell c) c :=
    fun c hc => h c ((List.dropWhile_suffix isBlank).mem hc)
  rw [trimBlanks, dropWhile_flatMap h, dropEndWhile_flatMap hsuffix, ← trimBlanks]

theorem flatMap_eq_nil {spell : Char → List Char} {value : List Char}
    (h : ∀ c ∈ value, Spells (spell c) c) : value.flatMap spell = [] ↔ value = [] := by
  cases value with
  | nil => simp
  | cons c value =>
    obtain ⟨hpiece, -⟩ | ⟨name, -, hpiece⟩ := h c List.mem_cons_self
    all_goals simp [hpiece]

theorem trimBlanks_eq_nil_iff {s : List Char} : trimBlanks s = [] ↔ s.dropWhile isBlank = [] := by
  constructor
  · intro h
    have hall : ∀ c ∈ s.dropWhile isBlank, isBlank c = true := List.rdropWhile_eq_nil_iff.1 h
    rw [List.dropWhile_eq_nil_iff]
    rwa [← List.dropWhile_eq_nil_iff, List.dropWhile_idempotent, List.dropWhile_eq_nil_iff] at hall
  · intro h
    rw [trimBlanks, h]
    rfl

end Datamodel.Xml

namespace Datamodel.Escaping

open Xml (Spells spells_self spells_named)

/-! ### The characters of embedded values -/

/-- A value in which nothing has to be escaped, apostrophes apart. -/
def Plain (value : List Char) : Prop :=
  ∀ c ∈ value, c ≠ '&' ∧ c ≠ '<' ∧ c ≠ '>' ∧ c ≠ '"'

/-- A value that a document carries unharmed as text or as an attribute value. -/
def Carries (escaping : Escaping) (value : List Char) : Prop :=
  escaping = .markup ∨ Plain value

theorem spells_textChar (c : Char) : Spells (textChar c) c := by
  unfold textChar
  split
  · exact spells_named "amp".toList rfl
  · exact spells_named "lt".toList rfl
  · exact spells_named "gt".toList rfl
  · exact spells_self (by assumption)

theorem spells_attributeChar (c : Char) : Spells (attributeChar c) c := by
  unfold attributeChar
  split
  · exact spells_named "apos".toList rfl
  · exact spells_named "quot".toList rfl
  · exact spells_textChar c

theorem bracket_not_mem_textChar (c : Char) : '<' ∉ textChar c := by
  unfold textChar
  split <;> simp_all [eq_comm]

theorem ne_bracket_of_mem_text {value : List Char} :
    ∀ c ∈ value.flatMap textChar, (c != '<') = true := by
  intro c hc
  obtain ⟨d, -, hd⟩ := List.mem_flatMap.1 hc
  rw [bne_iff_ne]
  rintro rfl
  exact bracket_not_mem_textChar d hd

theorem quote_not_mem_attributeChar (c : Char) : '"' ∉ attributeChar c := by
  unfold attributeChar textChar
  split <;> (try split) <;> simp_all [eq_comm]

theorem Plain.flatMap_textChar {value : List Char} (h : Plain value) :
    value.flatMap textChar = value := by
  have hself : ∀ c ∈ value, textChar c = [c] := by
    intro c hc
    obtain ⟨hamp, hlt, hgt, -⟩ := h c hc
    unfold textChar
    split <;> first | contradiction | rfl
  rw [List.flatMap_congr hself, List.flatMap_singleton']

/-- Where a text is carried, it is written as under escaping, for a plain text holds nothing to
escape. -/
theorem Carries.inText_eq {escaping : Escaping} {value : List Char} (h : escaping.Carries value) :
    escaping.inText value = value.flatMap textChar := by
  obtain rfl | hplain := h
  · rfl
  · cases escaping with
    | markup => rfl
    | verbatim => exact hplain.flatMap_textChar.symm

/-- An attribute value is resolved to itself and does not end before its closing quote. -/
theorem Carries.inAttribute {escaping : Escaping} {value : List Char} (h : escaping.Carries value) :
    Xml.resolve (escaping.inAttribute value) = .ok value ∧ '"' ∉ escaping.inAttribute value := by
  cases escaping with
  | markup =>
    refine ⟨Xml.resolve_flatMap fun c _ => spells_attributeChar c, ?_⟩
    rw [Escaping.inAttribute, List.mem_flatMap]
    rintro ⟨c, -, hc⟩
    exact quote_not_mem_attributeChar c hc
  | verbatim =>
    obtain hmarkup | hplain := h
    · contradiction
    · refine ⟨?_, fun hquote => (hplain _ hquote).2.2.2 rfl⟩
      have hself : Xml.resolve (value.flatMap fun c => [c]) = .ok value :=
        Xml.resolve_flatMap fun c hc => spells_self (hplain c hc).1
      rwa [List.flatMap_singleton'] at hself

end Datamodel.Escaping
