import Datamodel.Lint.Linter
import Datamodel.Proofs.Markup.Escaping

/-!
# Numbers and fixed words

What a document writes besides the texts of a definition are numbers and words of the format. They
hold no reserved character, so they are written alike under every escaping, and no white space
stands at their ends, so they come back unchanged.
-/

namespace Datamodel

open Escaping (Plain)
open Xml (trimBlanks)

/-- The markup lint takes for reserved exactly what a plain value does without. -/
theorem plain_iff {value : List Char} : Plain value ↔ value.any isReserved = false := by
  rw [List.any_eq_false]
  refine forall₂_congr fun c _ => ?_
  simp only [isReserved, Bool.or_eq_true, beq_iff_eq, not_or, and_assoc, ne_eq]

theorem trimBlanks_of_not_blank {s : List Char} (h : ∀ c ∈ s, Xml.isBlank c = false) :
    trimBlanks s = s := by
  have hstart : s.dropWhile Xml.isBlank = s := by
    cases s with
    | nil => rfl
    | cons c s => exact List.dropWhile_cons_of_neg (by simp [h c List.mem_cons_self])
  have hend : Text.dropEndWhile Xml.isBlank s = s := by
    refine List.rdropWhile_eq_self_iff.2 fun hne hblank => ?_
    rw [h _ (List.getLast_mem hne)] at hblank
    contradiction
  rw [trimBlanks, hstart, hend]

/-! ### Numbers -/

def isNumberChar (c : Char) : Bool :=
  c.isDigit || c == '-'

theorem isNumberChar_of_mem_nat {n : Nat} {c : Char} (h : c ∈ (toString n).toList) :
    isNumberChar c = true := by
  have hdigits : (toString n).toList = Nat.toDigits 10 n := Nat.toList_repr
  rw [hdigits] at h
  rw [isNumberChar, Nat.isDigit_of_mem_toDigits (by decide) (by decide) h, Bool.true_or]

theorem isNumberChar_of_mem_int {i : Int} {c : Char} (h : c ∈ (toString i).toList) :
    isNumberChar c = true := by
  cases i with
  | ofNat n => exact isNumberChar_of_mem_nat h
  | negSucc n =>
    have hsign : (toString (Int.negSucc n)).toList = '-' :: (toString (n + 1)).toList := by
      change ("-" ++ toString (n + 1)).toList = _
      rw [String.toList_append]
      rfl
    rw [hsign, List.mem_cons] at h
    obtain rfl | hdigit := h
    · rfl
    · exact isNumberChar_of_mem_nat hdigit

theorem ne_of_isNumberChar {c d : Char} (hc : isNumberChar c = true) (hd : isNumberChar d = false) :
    c ≠ d := by
  rintro rfl
  rw [hc] at hd
  contradiction

theorem isBlank_of_isNumberChar {c : Char} (h : isNumberChar c = true) : Xml.isBlank c = false := by
  cases hblank : Xml.isBlank c with
  | false => rfl
  | true =>
    simp only [Xml.isBlank, Bool.or_eq_true, beq_iff_eq] at hblank
    obtain ((rfl | rfl) | rfl) | rfl := hblank
    all_goals contradiction

theorem plain_of_isNumberChar {value : List Char} (h : ∀ c ∈ value, isNumberChar c = true) :
    Plain value := by
  intro c hc
  exact ⟨ne_of_isNumberChar (h c hc) rfl, ne_of_isNumberChar (h c hc) rfl,
    ne_of_isNumberChar (h c hc) rfl, ne_of_isNumberChar (h c hc) rfl⟩

theorem plain_nat (n : Nat) : Plain (toString n).toList :=
  plain_of_isNumberChar fun _ hc => isNumberChar_of_mem_nat hc

theorem plain_int (i : Int) : Plain (toString i).toList :=
  plain_of_isNumberChar fun _ hc => isNumberChar_of_mem_int hc

theorem trimBlanks_int (i : Int) : trimBlanks (toString i).toList = (toString i).toList :=
  trimBlanks_of_not_blank fun _ hc => isBlank_of_isNumberChar (isNumberChar_of_mem_int hc)

/-! ### Words -/

theorem plain_boolText (value : Bool) : Plain (boolText value).toList := by
  rw [plain_iff]
  cases value with
  | true => rfl
  | false => rfl

theorem trimBlanks_boolText (value : Bool) :
    trimBlanks (boolText value).toList = (boolText value).toList := by
  cases value with
  | true => rfl
  | false => rfl

theorem FieldType.plain_name (type : FieldType) : Plain type.name.toList := by
  rw [plain_iff]
  cases type with
  | string | integer | enumeration | externalKey | linkedSet | tagSet | customFields => rfl

theorem MethodKind.plain_name (kind : MethodKind) : Plain kind.name.toList := by
  rw [plain_iff]
  cases kind with
  | overload | lifecycleAction | custom => rfl

theorem MethodKind.trimBlanks_name (kind : MethodKind) :
    trimBlanks kind.name.toList = kind.name.toList := by
  cases kind with
  | overload | lifecycleAction | custom => rfl

theorem RelationKind.plain_name (kind : RelationKind) : Plain kind.name.toList := by
  rw [plain_iff]
  cases kind with
  | impacts | dependsOn => rfl

theorem MenuKind.plain_name (kind : MenuKind) : Plain kind.name.toList := by
  rw [plain_iff]
  cases kind with
  | query | newObject | search => rfl

theorem Right.plain_name (right : Right) : Plain right.name.toList := by
  rw [plain_iff]
  cases right with
  | allow | deny => rfl

theorem Right.trimBlanks_name (right : Right) :
    trimBlanks right.name.toList = right.name.toList := by
  cases right with
  | allow | deny => rfl

end Datamodel
