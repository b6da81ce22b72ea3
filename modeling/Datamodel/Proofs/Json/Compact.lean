import Datamodel.Json
import Mathlib.Data.List.Basic

/-!
# A compact JSON text determines its value

The compact text of a value tells where it ends, whatever follows. Of a string this is so because no
character is spelled with a bare quote and the spellings can be read one at a time; of an array or
an object because every item tells where it ends and begins with something else than the closing
bracket; and the first character tells the kind of value. So different values have different texts.
-/

namespace Datamodel.Json

/-! ### Strings -/

def hexValue (c : Char) : Nat :=
  if c.toNat < 58 then c.toNat - 48 else c.toNat - 87

/-- The character that a letter behind a backslash stands for. -/
def lettered : Char → Char
  | 'b' => Char.ofNat 8
  | 't' => '\t'
  | 'n' => '\n'
  | 'f' => Char.ofNat 12
  | 'r' => '\r'
  | c => c

def readChar : List Char → Option (Char × List Char)
  | [] => none
  | c :: rest =>
    if c ≠ '\\' then some (c, rest)
    else
      match rest with
      | 'u' :: _ :: _ :: high :: low :: rest =>
        some (Char.ofNat (hexValue high * 16 + hexValue low), rest)
      | letter :: rest => some (lettered letter, rest)
      | [] => none

theorem hexValue_digits :
    ∀ n < 32, hexValue (Nat.digitChar (n / 16)) * 16 + hexValue (Nat.digitChar (n % 16)) = n := by
  decide

theorem readChar_stringChar (c : Char) (rest : List Char) :
    readChar (stringChar c ++ rest) = some (c, rest) := by
  have hnamed : ∀ n, c.toNat = n → c = Char.ofNat n := fun n hn => by rw [← hn, Char.ofNat_toNat]
  unfold stringChar
  split_ifs with hquote hslash hback htab hline hfeed hreturn hcontrol
  · rw [hquote]
    rfl
  · rw [hslash]
    rfl
  · rw [hnamed 8 hback]
    rfl
  · rw [htab]
    rfl
  · rw [hline]
    rfl
  · rw [hnamed 12 hfeed]
    rfl
  · rw [hreturn]
    rfl
  · have hvalue : readChar ('\\' :: 'u' :: '0' :: '0' :: Nat.digitChar (c.toNat / 16) ::
        Nat.digitChar (c.toNat % 16) :: rest) = some (Char.ofNat _, rest) := rfl
    rw [List.cons_append, List.cons_append, List.cons_append, List.cons_append, List.cons_append,
      List.cons_append, List.nil_append, hvalue, hexValue_digits c.toNat hcontrol, Char.ofNat_toNat]
  · unfold readChar
    exact if_pos hslash

theorem stringChar_inj {c d : Char} {r s : List Char} (h : stringChar c ++ r = stringChar d ++ s) :
    c = d ∧ r = s := by
  have hread := congrArg readChar h
  rw [readChar_stringChar, readChar_stringChar] at hread
  exact Prod.mk.inj (Option.some.inj hread)

/-- No spelling begins with a quote. -/
theorem stringChar_cons (c : Char) : ∃ first tail, stringChar c = first :: tail ∧ first ≠ '"' := by
  unfold stringChar
  split_ifs with hquote
  all_goals first
    | exact ⟨'\\', _, rfl, by decide⟩
    | exact ⟨c, [], rfl, hquote⟩

theorem stringChars_inj {value other r s : List Char}
    (h : value.flatMap stringChar ++ '"' :: r = other.flatMap stringChar ++ '"' :: s) :
    value = other ∧ r = s := by
  have hend : ∀ (c : Char) (value r s : List Char),
      (c :: value).flatMap stringChar ++ r ≠ '"' :: s := by
    intro c value r s hsame
    obtain ⟨first, tail, hspelled, hne⟩ := stringChar_cons c
    rw [List.flatMap_cons, hspelled] at hsame
    exact hne (List.cons.inj hsame).1
  induction value generalizing other with
  | nil =>
    cases other with
    | nil => exact ⟨rfl, (List.cons.inj h).2⟩
    | cons d other => exact absurd h.symm (hend d other _ _)
  | cons c value ih =>
    cases other with
    | nil => exact absurd h (hend c value _ _)
    | cons d other =>
      rw [List.flatMap_cons, List.flatMap_cons, List.append_assoc, List.append_assoc] at h
      obtain ⟨rfl, hrest⟩ := stringChar_inj h
      obtain ⟨rfl, hend⟩ := ih hrest
      exact ⟨rfl, hend⟩

theorem quoted_inj {value other : String} {r s : List Char}
    (h : quoted value ++ r = quoted other ++ s) : value = other ∧ r = s := by
  rw [quoted, quoted, List.cons_append, List.cons_append, List.cons_append, List.cons_append,
    List.append_assoc, List.append_assoc] at h
  obtain ⟨hvalue, hrest⟩ := stringChars_inj (List.cons.inj h).2
  exact ⟨String.toList_inj.1 hvalue, hrest⟩

/-! ### Items between brackets -/

theorem joined_cons (part : List Char) (parts : List (List Char)) :
    joined [','] (part :: parts) = part ++ parts.flatMap (',' :: ·) := by
  induction parts generalizing part with
  | nil => simp [joined]
  | cons next parts ih =>
    have hstep : joined [','] (part :: next :: parts) =
        part ++ (',' :: joined [','] (next :: parts)) := by
      simp [joined]
    rw [hstep, ih, List.flatMap_cons, List.cons_append]

section items

variable {α : Type} {text : α → List Char} {close : Char} {items others : List α} {r s : List Char}

theorem flatMap_items_inj (hclose : close ≠ ',')
    (hitem : ∀ item ∈ items, ∀ other r s, text item ++ r = text other ++ s → item = other ∧ r = s)
    (h : (items.map text).flatMap (',' :: ·) ++ close :: r =
      (others.map text).flatMap (',' :: ·) ++ close :: s) : items = others ∧ r = s := by
  induction items generalizing others with
  | nil =>
    cases others with
    | nil => exact ⟨rfl, (List.cons.inj h).2⟩
    | cons other others => exact absurd (List.cons.inj h).1 hclose
  | cons item items ih =>
    cases others with
    | nil => exact absurd (List.cons.inj h).1.symm hclose
    | cons other others =>
      rw [List.map_cons, List.map_cons, List.flatMap_cons, List.flatMap_cons, List.append_assoc,
        List.append_assoc] at h
      obtain ⟨rfl, hrest⟩ := hitem item List.mem_cons_self other _ _ (List.cons.inj h).2
      obtain ⟨rfl, hend⟩ := ih (fun item hmem => hitem item (List.mem_cons_of_mem _ hmem)) hrest
      exact ⟨rfl, hend⟩

/-- Items that tell where they end and do not begin like the closing bracket are told by the text
between brackets. -/
theorem joined_inj (hclose : close ≠ ',') (hfirst : ∀ item r s, text item ++ r ≠ close :: s)
    (hitem : ∀ item ∈ items, ∀ other r s, text item ++ r = text other ++ s → item = other ∧ r = s)
    (h : joined [','] (items.map text) ++ close :: r =
      joined [','] (others.map text) ++ close :: s) : items = others ∧ r = s := by
  cases items with
  | nil =>
    cases others with
    | nil => exact ⟨rfl, (List.cons.inj h).2⟩
    | cons other others =>
      rw [List.map_cons, joined_cons, List.append_assoc] at h
      exact absurd h.symm (hfirst other _ _)
  | cons item items =>
    cases others with
    | nil =>
      rw [List.map_cons, joined_cons, List.append_assoc] at h
      exact absurd h (hfirst item _ _)
    | cons other others =>
      rw [List.map_cons, List.map_cons, joined_cons, joined_cons, List.append_assoc,
        List.append_assoc] at h
      obtain ⟨rfl, hrest⟩ := hitem item List.mem_cons_self other _ _ h
      obtain ⟨rfl, hend⟩ := flatMap_items_inj hclose (fun item hmem =>
        hitem item (List.mem_cons_of_mem _ hmem)) hrest
      exact ⟨rfl, hend⟩

end items

/-! ### Values -/

theorem compactAll_eq_map (values : List Json) : compactAll values = values.map compact := by
  induction values with
  | nil => rfl
  | cons value values ih => rw [compactAll, ih, List.map_cons]

def memberText (member : String × Json) : List Char :=
  quoted member.1 ++ ':' :: compact member.2

theorem compactMembers_eq_map (members : List (String × Json)) :
    compactMembers members = members.map memberText := by
  induction members with
  | nil => rfl
  | cons member members ih =>
    rw [compactMembers, ih, List.map_cons]
    rfl

def lead : Json → Char
  | .bool value => if value then 't' else 'f'
  | .str _ => '"'
  | .arr _ => '['
  | .obj _ => '\x7b'

theorem compact_cons (value : Json) : ∃ tail, value.compact = value.lead :: tail := by
  cases value with
  | bool value => cases value <;> exact ⟨_, rfl⟩
  | str value => exact ⟨_, rfl⟩
  | arr values => exact ⟨_, rfl⟩
  | obj members => exact ⟨_, rfl⟩

theorem lead_eq {value other : Json} {r s : List Char}
    (h : value.compact ++ r = other.compact ++ s) : value.lead = other.lead := by
  obtain ⟨tail, hvalue⟩ := compact_cons value
  obtain ⟨tail', hother⟩ := compact_cons other
  rw [hvalue, hother] at h
  exact (List.cons.inj h).1

theorem compact_append_ne {value : Json} {close : Char} (h : value.lead ≠ close) (r s : List Char) :
    value.compact ++ r ≠ close :: s := by
  obtain ⟨tail, hvalue⟩ := compact_cons value
  rw [hvalue]
  intro hsame
  exact h (List.cons.inj hsame).1

theorem lead_ne (value : Json) : value.lead ≠ ']' := by
  cases value with
  | bool value => cases value <;> decide
  | str | arr | obj => simp [lead]

/-- Values by what they are made of. -/
theorem induction {motive : Json → Prop} (bool : ∀ value, motive (.bool value))
    (str : ∀ value, motive (.str value))
    (arr : ∀ values, (∀ value ∈ values, motive value) → motive (.arr values))
    (obj : ∀ members, (∀ member ∈ members, motive member.2) → motive (.obj members))
    (value : Json) : motive value := by
  match value with
  | .bool value => exact bool value
  | .str value => exact str value
  | .arr values => exact arr values fun value _ => induction bool str arr obj value
  | .obj members => exact obj members fun member _ => induction bool str arr obj member.2
termination_by value
decreasing_by
  · rename_i hvalue
    have := List.sizeOf_lt_of_mem hvalue
    simp
    omega
  · rename_i hmember
    have := List.sizeOf_lt_of_mem hmember
    obtain ⟨key, value⟩ := member
    simp at this ⊢
    omega

/-- What is written for a value tells where it ends. -/
theorem compact_append_inj {value other : Json} {r s : List Char}
    (h : value.compact ++ r = other.compact ++ s) : value = other ∧ r = s := by
  induction value using induction generalizing other r s with
  | bool value =>
    cases other with
    | bool other => cases value <;> cases other <;> simp_all [compact]
    | str | arr | obj => cases value <;> exact absurd (lead_eq h) (by simp [lead])
  | str value =>
    cases other with
    | str other =>
      rw [compact, compact] at h
      obtain ⟨rfl, hrest⟩ := quoted_inj h
      exact ⟨rfl, hrest⟩
    | bool other => cases other <;> exact absurd (lead_eq h) (by simp [lead])
    | arr | obj => exact absurd (lead_eq h) (by simp [lead])
  | arr values ih =>
    cases other with
    | arr others =>
      rw [compact, compact, compactAll_eq_map, compactAll_eq_map] at h
      simp only [List.cons_append, List.append_assoc, List.cons_inj_right, List.nil_append] at h
      obtain ⟨rfl, hrest⟩ := joined_inj (by decide) (fun item => compact_append_ne (lead_ne item))
        (fun item hitem _ _ _ hsame => ih item hitem hsame) h
      exact ⟨rfl, hrest⟩
    | bool other => cases other <;> exact absurd (lead_eq h) (by simp [lead])
    | str | obj => exact absurd (lead_eq h) (by simp [lead])
  | obj members ih =>
    cases other with
    | obj others =>
      rw [compact, compact, compactMembers_eq_map, compactMembers_eq_map] at h
      simp only [List.cons_append, List.append_assoc, List.cons_inj_right, List.nil_append] at h
      have hfirst : ∀ (member : String × Json) (r s : List Char),
          memberText member ++ r ≠ '\x7d' :: s :=
        fun member r s hsame => absurd (List.cons.inj hsame).1 (by decide)
      have hitem : ∀ member ∈ members, ∀ (other : String × Json) (r s : List Char),
          memberText member ++ r = memberText other ++ s → member = other ∧ r = s := by
        rintro ⟨key, value⟩ hmember ⟨key', other⟩ r s hsame
        rw [memberText, memberText, List.append_assoc, List.append_assoc] at hsame
        obtain ⟨hkey, hvalue⟩ := quoted_inj hsame
        obtain ⟨hsame, hrest⟩ := ih _ hmember (List.cons.inj hvalue).2
        exact ⟨Prod.ext hkey hsame, hrest⟩
      obtain ⟨rfl, hrest⟩ := joined_inj (by decide) hfirst hitem h
      exact ⟨rfl, hrest⟩
    | bool other => cases other <;> exact absurd (lead_eq h) (by simp [lead])
    | str | arr => exact absurd (lead_eq h) (by simp [lead])

theorem compact_inj {value other : Json} (h : value.compact = other.compact) : value = other := by
  refine (compact_append_inj (r := []) (s := []) ?_).1
  rw [h]

end Datamodel.Json
