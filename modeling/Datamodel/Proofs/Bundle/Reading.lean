import Datamodel.Bundle.Basic
import Mathlib.Data.List.Basic

/-!
# What a bundle takes from an archive

The entries of an archive are gone through once, and the searches for the datamodel document and for
the descriptor share the walk. The walk is taken apart here into steps: as long as no entry stops
it, the bundle holds what the first document and the first descriptor among the entries passed so
far contain. The two searches never meet, because no name is that of a document and of a descriptor
as well. So a whole walk either gives the two first entries or ends at the first entry that stops
it.
-/

namespace Datamodel

namespace Archive

def first? (rule : String → Bool) (entries : List Entry) : Option Entry :=
  entries.find? fun entry => rule entry.name

def firstRead? (rule : String → Bool) (entries : List Entry) : Option BundleEntry :=
  (first? rule entries).bind fun entry => entry.content?.map (BundleEntry.mk entry.name)

/-- Entries of which a bundle can be read: the header in front of every entry is in order, and the
two entries that are wanted can be unpacked. -/
structure Readable (entries : List Entry) : Prop where
  headers : ∀ entry ∈ entries, entry.packed.isSome
  datamodel : ∀ entry ∈ first? isDatamodelEntry entries, entry.content?.isSome
  descriptor : ∀ entry ∈ first? isDescriptorEntry entries, entry.content?.isSome

instance (entries : List Entry) : Decidable (Readable entries) :=
  decidable_of_iff
    ((∀ entry ∈ entries, entry.packed.isSome) ∧
      (∀ entry ∈ first? isDatamodelEntry entries, entry.content?.isSome) ∧
        ∀ entry ∈ first? isDescriptorEntry entries, entry.content?.isSome)
    ⟨fun h => ⟨h.1, h.2.1, h.2.2⟩, fun h => ⟨h.headers, h.datamodel, h.descriptor⟩⟩

/-- An entry is wanted after others if it is the first of its kind. -/
def Wanted (before : List Entry) (entry : Entry) : Prop :=
  first? isDatamodelEntry before = none ∧ isDatamodelEntry entry.name = true ∨
    first? isDescriptorEntry before = none ∧ isDescriptorEntry entry.name = true

/-- An entry stops the walk, and what it is reported under: its number, or its name. -/
inductive Stops (before : List Entry) (entry : Entry) : String → Prop where
  | header (h : entry.packed = none) : Stops before entry ("#" ++ toString before.length)
  | content (hpacked : entry.packed.isSome) (hwanted : Wanted before entry)
      (h : entry.content? = none) : Stops before entry entry.name

end Archive

def Bundle.foundIn (entries : List Archive.Entry) : Bundle :=
  ⟨Archive.firstRead? isDatamodelEntry entries, Archive.firstRead? isDescriptorEntry entries⟩

/-! ### Names -/

theorem getLast?_of_isDatamodelEntry {name : String} (h : isDatamodelEntry name = true) :
    name.toList.getLast? = some 'l' := by
  rw [isDatamodelEntry, Bool.and_eq_true] at h
  obtain ⟨front, hfront⟩ := List.isSuffixOf_iff_suffix.1 h.1
  rw [← hfront, List.getLast?_append]
  rfl

theorem fileName_suffix (name : List Char) : fileName name <:+ name := by
  have h := List.reverse_suffix.2 (List.takeWhile_prefix (· != '/') (l := name.reverse))
  rwa [List.reverse_reverse] at h

theorem Text.eq_drop_of_afterMark? {mark s rest : List Char} (h : afterMark? mark s = some rest) :
    rest = s.drop mark.length := by
  rw [afterMark?] at h
  split at h
  · exact (Option.some.inj h).symm
  · contradiction

theorem getLast?_of_isDescriptorEntry {name : String} (h : isDescriptorEntry name = true) :
    name.toList.getLast? = some 'p' := by
  rw [isDescriptorEntry] at h
  split at h
  · contradiction
  · rename_i rest hrest
    rw [Bool.and_eq_true] at h
    have hsuffix : ".php".toList <:+ name.toList := by
      refine (List.isSuffixOf_iff_suffix.1 h.1).trans (List.IsSuffix.trans ?_ (fileName_suffix _))
      rw [Text.eq_drop_of_afterMark? hrest]
      exact List.drop_suffix _ _
    obtain ⟨front, hfront⟩ := hsuffix
    rw [← hfront, List.getLast?_append]
    rfl

/-- No descriptor is a datamodel document. -/
theorem isDescriptorEntry_of_isDatamodelEntry {name : String} (h : isDatamodelEntry name = true) :
    isDescriptorEntry name = false := by
  by_contra hboth
  rw [Bool.not_eq_false] at hboth
  have hlast := getLast?_of_isDescriptorEntry hboth
  rw [getLast?_of_isDatamodelEntry h] at hlast
  exact absurd hlast (by decide)

namespace Archive

variable {rule : String → Bool} {before : List Entry} {entry : Entry}

/-- What is wanted is no directory. -/
theorem Wanted.isDirectoryName (h : Wanted before entry) : isDirectoryName entry.name = false := by
  rcases h with ⟨-, hname⟩ | ⟨-, hname⟩
  · rw [Archive.isDirectoryName, getLast?_of_isDatamodelEntry hname]
    rfl
  · rw [Archive.isDirectoryName, getLast?_of_isDescriptorEntry hname]
    rfl

/-! ### The first entries, one more entry at a time -/

theorem first?_concat_of_none (hnone : first? rule before = none) (hrule : rule entry.name = true) :
    first? rule (before ++ [entry]) = some entry := by
  rw [first?] at hnone
  rw [first?, List.find?_append, hnone, Option.none_or, List.find?_singleton, if_pos hrule]

theorem first?_concat_of_not (h : ¬(first? rule before = none ∧ rule entry.name = true)) :
    first? rule (before ++ [entry]) = first? rule before := by
  rw [first?, List.find?_append, ← first?, List.find?_singleton]
  cases hfirst : first? rule before with
  | some found => rfl
  | none => rw [if_neg fun hrule => h ⟨hfirst, hrule⟩, Option.or_none]

theorem firstRead?_eq_none_iff (h : ∀ entry ∈ first? rule before, entry.content?.isSome) :
    firstRead? rule before = none ↔ first? rule before = none := by
  rw [firstRead?]
  cases hfirst : first? rule before with
  | none => simp
  | some found =>
    obtain ⟨content, hcontent⟩ := Option.isSome_iff_exists.1 (h found hfirst)
    simp [hcontent]

theorem firstRead?_concat_of_none {content : ByteArray} (hnone : first? rule before = none)
    (hrule : rule entry.name = true) (hcontent : entry.content? = some content) :
    firstRead? rule (before ++ [entry]) = some ⟨entry.name, content⟩ := by
  rw [firstRead?, first?_concat_of_none hnone hrule, Option.bind_some, hcontent]
  rfl

theorem firstRead?_concat_of_not (h : ¬(first? rule before = none ∧ rule entry.name = true)) :
    firstRead? rule (before ++ [entry]) = firstRead? rule before := by
  rw [firstRead?, first?_concat_of_not h]
  rfl

theorem content_first?_concat (h : ∀ entry ∈ first? rule before, entry.content?.isSome)
    (hentry : first? rule before = none ∧ rule entry.name = true → entry.content?.isSome) :
    ∀ found ∈ first? rule (before ++ [entry]), found.content?.isSome := by
  by_cases hnew : first? rule before = none ∧ rule entry.name = true
  · rw [first?_concat_of_none hnew.1 hnew.2]
    rintro found ⟨⟩
    exact hentry hnew
  · rwa [first?_concat_of_not hnew]

theorem Readable.concat (h : Readable before) (hpacked : entry.packed.isSome)
    (hentry : Wanted before entry → entry.content?.isSome) : Readable (before ++ [entry]) where
  headers := by
    rw [List.forall_mem_append, List.forall_mem_singleton]
    exact ⟨h.headers, hpacked⟩
  datamodel := content_first?_concat h.datamodel fun hnew => hentry (.inl hnew)
  descriptor := content_first?_concat h.descriptor fun hnew => hentry (.inr hnew)

/-- Once an entry of a kind is there, later ones do not count. -/
theorem first?_of_none (hnone : first? rule before = none) (hrule : rule entry.name = true)
    (after : List Entry) : first? rule (before ++ entry :: after) = some entry := by
  rw [first?, List.append_cons, List.find?_append, ← first?, first?_concat_of_none hnone hrule]
  rfl

theorem Stops.not_readable {label : String} (h : Stops before entry label) (after : List Entry) :
    ¬Readable (before ++ entry :: after) := by
  intro hreadable
  cases h with
  | header hnone =>
    have hsome := hreadable.headers entry (List.mem_append_right _ List.mem_cons_self)
    rw [hnone] at hsome
    contradiction
  | content hpacked hwanted hnone =>
    have hsome : entry.content?.isSome := by
      rcases hwanted with ⟨hnew, hrule⟩ | ⟨hnew, hrule⟩
      · exact hreadable.datamodel entry (first?_of_none hnew hrule after)
      · exact hreadable.descriptor entry (first?_of_none hnew hrule after)
    rw [hnone] at hsome
    contradiction

end Archive

/-! ### The walk -/

namespace Bundle

open Archive (Entry Readable Wanted Stops)

variable {before : List Entry}

theorem wants_foundIn (h : Readable before) (entry : Entry) :
    (foundIn before).wants entry.name = true ↔ Wanted before entry := by
  rw [wants, Bool.or_eq_true, Bool.and_eq_true, Bool.and_eq_true, Option.isNone_iff_eq_none,
    Option.isNone_iff_eq_none, Wanted]
  exact or_congr (and_congr_left' (Archive.firstRead?_eq_none_iff h.datamodel))
    (and_congr_left' (Archive.firstRead?_eq_none_iff h.descriptor))

/-- A wanted entry goes to its own place, whichever of the two kinds came first. -/
theorem take_foundIn {entry : Entry} {content : ByteArray} (hwanted : Wanted before entry)
    (hcontent : entry.content? = some content) :
    (foundIn before).take ⟨entry.name, content⟩ = foundIn (before ++ [entry]) := by
  rw [take, foundIn, foundIn]
  by_cases hdatamodel : isDatamodelEntry entry.name = true
  · have hother := isDescriptorEntry_of_isDatamodelEntry hdatamodel
    have hnone : Archive.first? isDatamodelEntry before = none := by
      rcases hwanted with ⟨hnone, -⟩ | ⟨-, hdescriptor⟩
      · exact hnone
      · rw [hother] at hdescriptor
        contradiction
    rw [if_pos hdatamodel, Archive.firstRead?_concat_of_none hnone hdatamodel hcontent,
      Archive.firstRead?_concat_of_not (by simp [hother])]
  · obtain ⟨hnone, hdescriptor⟩ := hwanted.resolve_left fun h => hdatamodel h.2
    rw [if_neg hdatamodel, Archive.firstRead?_concat_of_none hnone hdescriptor hcontent,
      Archive.firstRead?_concat_of_not fun h => hdatamodel h.2]

/-- One step of the walk: the next entry stops it, or it is passed and the bundle is that of one
more entry. -/
theorem collect_cases (h : Readable before) (entry : Entry) :
    (∃ label, Stops before entry label ∧
      ∀ after, (foundIn before).collect before.length (entry :: after) = .error label) ∨
    (Readable (before ++ [entry]) ∧
      ∀ after, (foundIn before).collect before.length (entry :: after) =
        (foundIn (before ++ [entry])).collect (before ++ [entry]).length after) := by
  rw [List.length_append, List.length_singleton]
  cases hpacked : entry.packed with
  | none =>
    refine .inl ⟨_, .header hpacked, fun after => ?_⟩
    rw [collect, hpacked]
  | some packed =>
    have hsome : entry.packed.isSome := by simp [hpacked]
    have hunpack : entry.content? = packed.unpack? := by
      rw [Entry.content?, hpacked, Option.bind_some]
    by_cases hwanted : Wanted before entry
    · have htest : (!Archive.isDirectoryName entry.name && (foundIn before).wants entry.name) =
          true := by
        rw [hwanted.isDirectoryName, (wants_foundIn h entry).2 hwanted]
        rfl
      cases hcontent : packed.unpack? with
      | none =>
        refine .inl ⟨_, .content hsome hwanted (hunpack.trans hcontent), fun after => ?_⟩
        rw [collect, hpacked]
        dsimp only
        rw [if_pos htest, hcontent]
      | some content =>
        have hread := hunpack.trans hcontent
        refine .inr ⟨h.concat hsome fun _ => by simp [hread], fun after => ?_⟩
        rw [collect, hpacked]
        dsimp only
        rw [if_pos htest, hcontent]
        dsimp only
        rw [take_foundIn hwanted hread]
    · have hsame : foundIn (before ++ [entry]) = foundIn before := by
        rw [foundIn, Archive.firstRead?_concat_of_not fun h => hwanted (.inl h),
          Archive.firstRead?_concat_of_not fun h => hwanted (.inr h)]
        rfl
      refine .inr ⟨h.concat hsome fun hnow => absurd hnow hwanted, fun after => ?_⟩
      have htest : ¬(!Archive.isDirectoryName entry.name && (foundIn before).wants entry.name) =
          true := by
        intro hboth
        exact hwanted ((wants_foundIn h entry).1 (Bool.and_eq_true _ _ ▸ hboth).2)
      rw [collect, hpacked, hsame]
      dsimp only
      rw [if_neg htest]

/-- A whole walk: all entries are passed, or it ends at one that stops it. -/
theorem collect_run (h : Readable before) (after : List Entry) :
    (Readable (before ++ after) ∧ (foundIn before).collect before.length after =
      .ok (foundIn (before ++ after))) ∨
    ∃ passed entry rest label, before ++ after = passed ++ entry :: rest ∧ Readable passed ∧
      Stops passed entry label ∧ (foundIn before).collect before.length after = .error label := by
  induction after generalizing before with
  | nil =>
    rw [List.append_nil]
    exact .inl ⟨h, rfl⟩
  | cons entry after ih =>
    rcases collect_cases h entry with ⟨label, hstops, hstep⟩ | ⟨hnext, hstep⟩
    · exact .inr ⟨before, entry, after, label, rfl, h, hstops, hstep after⟩
    · rw [hstep after, List.append_cons]
      exact ih hnext

theorem readable_nil : Readable [] where
  headers := by simp
  datamodel := by simp [Archive.first?]
  descriptor := by simp [Archive.first?]

/-- The entries of an archive give the two first ones if the bundle can be read. -/
theorem ofEntries_of_readable {entries : List Entry} (h : Readable entries) :
    ofEntries entries = .ok (foundIn entries) := by
  rcases collect_run readable_nil entries with ⟨-, hrun⟩
    | ⟨passed, entry, rest, label, hsplit, -, hstops, -⟩
  · exact hrun
  · rw [List.nil_append] at hsplit
    rw [hsplit] at h
    exact absurd h (hstops.not_readable rest)

/-- Where it cannot be read, the first entry that stops the walk is reported. -/
theorem ofEntries_of_not_readable {entries : List Entry} (h : ¬Readable entries) :
    ∃ passed entry rest label, entries = passed ++ entry :: rest ∧ Readable passed ∧
      Stops passed entry label ∧
      ofEntries entries = .error label := by
  rcases collect_run readable_nil entries with ⟨hreadable, -⟩ | hstopped
  · exact absurd hreadable h
  · exact hstopped

end Bundle

end Datamodel
