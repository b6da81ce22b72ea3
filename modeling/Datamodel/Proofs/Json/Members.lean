import Datamodel.Json
import Mathlib.Data.List.Forall2
import Mathlib.Data.List.Nodup
import Mathlib.Data.List.Perm.Basic
import Mathlib.Data.String.Basic

/-!
# Members by their keys

The members of an object stand in the order of their keys, so an object is what can be looked up in
it. Looking up is said here of any list of keyed values: where no key occurs twice, the list is
determined by it up to its order, and setting members one after the other is looking up in the new
ones first. So two objects are equal as soon as the same is found in them under every key.
-/

namespace Datamodel

/-! ### Lists with distinct keys -/

section keyed

variable {α β γ : Type} {l m : List (String × α)} {k : String}

theorem mem_iff_lookup (h : (l.map (·.1)).Nodup) {value : α} :
    (k, value) ∈ l ↔ l.lookup k = some value := by
  rw [List.lookup_eq_some_iff]
  constructor
  · intro hmem
    obtain ⟨front, back, rfl⟩ := List.append_of_mem hmem
    refine ⟨front, back, rfl, fun entry hentry => ?_⟩
    rw [List.map_append, List.map_cons] at h
    have hnew := (List.nodup_middle.1 h).notMem
    rw [bne_iff_ne]
    rintro rfl
    exact hnew (List.mem_append_left _ (List.mem_map_of_mem (f := fun entry => entry.1) hentry))
  · rintro ⟨front, back, rfl, -⟩
    exact List.mem_append_right _ List.mem_cons_self

theorem lookup_cons (entry : String × α) :
    (entry :: l).lookup k = if k = entry.1 then some entry.2 else l.lookup k := by
  rw [List.lookup_cons]
  split
  · rename_i h
    rw [if_pos (beq_iff_eq.1 h)]
  · rename_i h
    rw [if_neg (beq_eq_false_iff_ne.1 h)]

theorem lookup_eq_none_iff : l.lookup k = none ↔ k ∉ l.map (·.1) := by
  rw [List.lookup_eq_none_iff, List.mem_map]
  constructor
  · rintro h ⟨entry, hentry, rfl⟩
    exact bne_iff_ne.1 (h entry hentry) rfl
  · intro h entry hentry
    exact bne_iff_ne.2 fun hk => h ⟨entry, hentry, hk.symm⟩

theorem lookup_map_snd (f : α → β) :
    (l.map fun entry => (entry.1, f entry.2)).lookup k = (l.lookup k).map f := by
  induction l with
  | nil => rfl
  | cons entry l ih =>
    rw [List.map_cons, lookup_cons, lookup_cons, ih, apply_ite (Option.map f), Option.map_some]

theorem lookup_perm (h : l.Perm m) (hdistinct : (l.map (·.1)).Nodup) : l.lookup k = m.lookup k := by
  ext value
  rw [← mem_iff_lookup hdistinct, ← mem_iff_lookup ((h.map _).nodup_iff.1 hdistinct)]
  exact h.mem_iff

/-- Where no key occurs twice, what can be looked up determines a list but for its order. -/
theorem perm_of_lookup_eq (hl : (l.map (·.1)).Nodup) (hm : (m.map (·.1)).Nodup)
    (h : ∀ k, l.lookup k = m.lookup k) : l.Perm m := by
  rw [List.perm_ext_iff_of_nodup (hl.of_map _) (hm.of_map _)]
  rintro ⟨key, value⟩
  rw [mem_iff_lookup hl, mem_iff_lookup hm, h]

/-- Where the same keys lead to related values, the lists are related entry by entry but for their
order. -/
theorem exists_forall₂_perm {m : List (String × β)} {f : α → γ} {g : β → γ}
    {r : String × α → String × β → Prop} (hl : (l.map (·.1)).Nodup) (hm : (m.map (·.1)).Nodup)
    (h : ∀ k, (l.lookup k).map f = (m.lookup k).map g)
    (hr : ∀ entry ∈ l, ∀ other ∈ m, entry.1 = other.1 → f entry.2 = g other.2 → r entry other) :
    ∃ middle, List.Forall₂ r l middle ∧ middle.Perm m := by
  induction l generalizing m with
  | nil =>
    refine ⟨[], .nil, ?_⟩
    have hnone : ∀ entry ∈ m, False := by
      rintro ⟨key, value⟩ hentry
      have hfound := h key
      rw [(mem_iff_lookup hm).1 hentry] at hfound
      contradiction
    rw [List.eq_nil_iff_forall_not_mem.2 hnone]
  | cons entry l ih =>
    obtain ⟨key, value⟩ := entry
    obtain ⟨hnew, hl⟩ := List.nodup_cons.1 hl
    obtain ⟨other, hother, hsame⟩ : ∃ other, m.lookup key = some other ∧ f value = g other := by
      have hfound := h key
      rw [List.lookup_cons_self, Option.map_some, eq_comm, Option.map_eq_some_iff] at hfound
      obtain ⟨other, hother, hsame⟩ := hfound
      exact ⟨other, hother, hsame.symm⟩
    obtain ⟨front, back, rfl, -⟩ := List.lookup_eq_some_iff.1 hother
    have hperm : (front ++ (key, other) :: back).Perm ((key, other) :: (front ++ back)) :=
      List.perm_middle
    obtain ⟨hgone, hrest⟩ := List.nodup_cons.1 ((hperm.map _).nodup_iff.1 hm)
    have hagree : ∀ k, (l.lookup k).map f = ((front ++ back).lookup k).map g := by
      intro k
      by_cases hk : k = key
      · subst hk
        rw [lookup_eq_none_iff.2 hnew, lookup_eq_none_iff.2 hgone]
        rfl
      · have hfound := h k
        rwa [lookup_perm hperm hm, lookup_cons, lookup_cons, if_neg hk, if_neg hk] at hfound
    have hkeep : ∀ one ∈ l, ∀ two ∈ front ++ back, one.1 = two.1 → f one.2 = g two.2 → r one two :=
      fun one hone two htwo => hr one (List.mem_cons_of_mem _ hone) two
        (hperm.mem_iff.2 (List.mem_cons_of_mem _ htwo))
    obtain ⟨middle, hmiddle, hback⟩ := ih hl hrest hagree hkeep
    have hfirst : r (key, value) (key, other) :=
      hr _ List.mem_cons_self _ (List.mem_append_right _ List.mem_cons_self) rfl hsame
    exact ⟨(key, other) :: middle, .cons hfirst hmiddle, (hback.cons _).trans hperm.symm⟩

end keyed

namespace Json

variable {members object : List (String × Json)} {key k : String} {value : Json}

/-- The members of an object in the order in which they are printed. -/
def Ordered (members : List (String × Json)) : Prop :=
  members.Pairwise fun one other => one.1 < other.1

theorem lookup_insert :
    (insert key value object).lookup k = if k = key then some value else object.lookup k := by
  induction object with
  | nil => exact lookup_cons _
  | cons member object ih =>
    obtain ⟨first, _⟩ := member
    rw [insert]
    split
    · exact lookup_cons _
    · split
      · rename_i hsame
        rw [lookup_cons, lookup_cons, hsame]
        split_ifs <;> rfl
      · rename_i hne
        rw [lookup_cons, ih, lookup_cons]
        split_ifs with hfirst hkey
        · exact absurd (hkey.symm.trans hfirst) hne
        · rfl
        · rfl
        · rfl

theorem mem_insert {member : String × Json} (h : member ∈ insert key value object) :
    member = (key, value) ∨ member ∈ object := by
  induction object with
  | nil => simpa [insert] using h
  | cons first object ih =>
    rw [insert] at h
    split at h
    · exact List.mem_cons.1 h
    · split at h
      · exact (List.mem_cons.1 h).imp_right (List.mem_cons_of_mem _)
      · rcases List.mem_cons.1 h with rfl | h
        · exact .inr List.mem_cons_self
        · exact (ih h).imp_right (List.mem_cons_of_mem _)

theorem Ordered.insert (h : Ordered object) : Ordered (insert key value object) := by
  induction object with
  | nil => exact List.pairwise_singleton _ _
  | cons first object ih =>
    obtain ⟨hfirst, hrest⟩ := List.pairwise_cons.1 h
    rw [Json.insert]
    split
    · rename_i hlt
      refine List.pairwise_cons.2 ⟨fun member hmember => ?_, h⟩
      rcases List.mem_cons.1 hmember with rfl | hmember
      · exact hlt
      · exact lt_trans hlt (hfirst member hmember)
    · split
      · rename_i hsame
        subst hsame
        exact List.pairwise_cons.2 ⟨hfirst, hrest⟩
      · rename_i hle hne
        refine List.pairwise_cons.2 ⟨fun member hmember => ?_, ih hrest⟩
        rcases mem_insert hmember with rfl | hmember
        · exact lt_of_le_of_ne (not_lt.1 hle) (Ne.symm hne)
        · exact hfirst member hmember

theorem Ordered.insertAll (h : Ordered object) (members : List (String × Json)) :
    Ordered (insertAll members object) := by
  induction members generalizing object with
  | nil => exact h
  | cons member members ih => exact ih h.insert

/-- What is set is found in the new members, or else as before. -/
theorem lookup_insertAll (h : (members.map (·.1)).Nodup) :
    (insertAll members object).lookup k = (members.lookup k).or (object.lookup k) := by
  induction members generalizing object with
  | nil => rfl
  | cons member members ih =>
    obtain ⟨hnew, hrest⟩ := List.nodup_cons.1 h
    have hstep : insertAll (member :: members) object =
        insertAll members (insert member.1 member.2 object) := rfl
    rw [hstep, ih hrest, lookup_insert, lookup_cons]
    split_ifs with hk
    · subst hk
      rw [lookup_eq_none_iff.2 hnew, Option.none_or, Option.some_or]
    · rfl

/-- Objects in which the same is found under every key are equal. -/
theorem eq_of_lookup_eq (hmembers : Ordered members) (hobject : Ordered object)
    (h : ∀ k, members.lookup k = object.lookup k) : members = object := by
  have hdistinct : ∀ {members : List (String × Json)}, Ordered members →
      (members.map (·.1)).Nodup := by
    intro members hordered
    exact (List.pairwise_map.2 hordered).imp ne_of_lt
  refine List.Perm.eq_of_pairwise ?_ hmembers hobject
    (perm_of_lookup_eq (hdistinct hmembers) (hdistinct hobject) h)
  intro one other _ _ hlt hgt
  exact absurd hgt (lt_asymm hlt)

end Json

end Datamodel
