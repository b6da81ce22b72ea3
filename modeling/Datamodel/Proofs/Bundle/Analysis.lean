import Datamodel.Bundle.Analysis
import Datamodel.Proofs.Bundle.Reading
import Mathlib

/-!
# What an analysis depends on

Two entries of an archive decide what an analysis says. What else the archive holds does not matter,
as long as the header in front of every entry is in order. The two entries are treated alike: a
descriptor that cannot be read ends the analysis just as a document does, although placeholders
could stand for what it would have told.
-/

namespace Datamodel

open Archive (Entry first? firstRead? Readable Stops)

namespace Archive

/-- What is read of an entry is its name and its content. -/
def Entry.ReadAs (entry : Entry) (read : BundleEntry) : Prop :=
  read.name = entry.name ∧ entry.content? = some read.content

def Entry.nameAndContent (entry : Entry) : String × Option ByteArray :=
  (entry.name, entry.content?)

/-- Two archives agree on the first document and on the first descriptor. -/
structure SameFirst (entries others : List Entry) : Prop where
  datamodel : (first? isDatamodelEntry entries).map Entry.nameAndContent =
    (first? isDatamodelEntry others).map Entry.nameAndContent
  descriptor : (first? isDescriptorEntry entries).map Entry.nameAndContent =
    (first? isDescriptorEntry others).map Entry.nameAndContent

instance (entries others : List Entry) : Decidable (SameFirst entries others) :=
  decidable_of_iff (_ ∧ _) ⟨fun h => ⟨h.1, h.2⟩, fun h => ⟨h.datamodel, h.descriptor⟩⟩

/-- The name and version that a bundle goes by: those its descriptor tells, and placeholders where
there is no descriptor or it cannot be read. -/
def described (entries : List Entry) : ModuleDescriptor :=
  match (first? isDescriptorEntry entries).bind Entry.content? with
  | none => .unknown
  | some content => .parse (Text.decodeLossy content)

theorem firstRead?_readAs {rule : String → Bool} {entries : List Entry}
    (h : ∀ entry ∈ first? rule entries, entry.content?.isSome) :
    Option.Rel Entry.ReadAs (first? rule entries) (firstRead? rule entries) := by
  rw [firstRead?]
  cases hfirst : first? rule entries with
  | none => exact .none
  | some entry =>
    obtain ⟨content, hcontent⟩ := Option.isSome_iff_exists.1 (h entry hfirst)
    rw [Option.bind_some, hcontent]
    exact .some ⟨rfl, hcontent⟩

theorem firstRead?_eq_bind (rule : String → Bool) (entries : List Entry) :
    firstRead? rule entries = ((first? rule entries).map Entry.nameAndContent).bind fun found =>
      found.2.map (BundleEntry.mk found.1) := by
  rw [firstRead?, Option.bind_map]
  rfl

theorem SameFirst.foundIn_eq {entries others : List Entry} (h : SameFirst entries others) :
    Bundle.foundIn entries = Bundle.foundIn others := by
  simp only [Bundle.foundIn, firstRead?_eq_bind, h.datamodel, h.descriptor]

theorem module_foundIn {entries : List Entry}
    (h : ∀ entry ∈ first? isDescriptorEntry entries, entry.content?.isSome) :
    (Bundle.foundIn entries).module = described entries := by
  rw [Bundle.module, Bundle.foundIn, described]
  dsimp only
  rw [firstRead?]
  cases hfirst : first? isDescriptorEntry entries with
  | none => rfl
  | some entry =>
    obtain ⟨content, hcontent⟩ := Option.isSome_iff_exists.1 (h entry hfirst)
    rw [Option.bind_some, Option.bind_some, hcontent]
    rfl

/-- Where no content of a descriptor holds one of the two keys, the placeholders stand. -/
theorem described_eq_unknown {entries : List Entry}
    (h : ∀ entry ∈ first? isDescriptorEntry entries, ∀ content ∈ entry.content?,
      RegistrationKey.label.find? (Text.decodeLossy content) = none ∧
        RegistrationKey.version.find? (Text.decodeLossy content) = none) :
    described entries = .unknown := by
  rw [described]
  split
  · rfl
  · rename_i content hcontent
    obtain ⟨entry, hfirst, hread⟩ := Option.bind_eq_some_iff.1 hcontent
    obtain ⟨hlabel, hversion⟩ := h entry hfirst content hread
    rw [ModuleDescriptor.parse, hlabel, hversion]
    rfl

end Archive

section

variable {data : ByteArray} {entries : List Entry}

theorem read_of_readable (hentries : Archive.entries? data = some entries) (h : Readable entries) :
    Bundle.read data = .ok (Bundle.foundIn entries) := by
  rw [Bundle.read, hentries]
  dsimp only
  rw [Bundle.ofEntries_of_readable h]
  rfl

theorem analyze_of_readable (hentries : Archive.entries? data = some entries)
    (h : Readable entries) : analyze data = (Bundle.foundIn entries).summary := by
  rw [analyze, read_of_readable hentries h]
  rfl

theorem analyze_of_not_readable (hentries : Archive.entries? data = some entries)
    (h : ¬Readable entries) :
    ∃ passed entry rest label, entries = passed ++ entry :: rest ∧ Readable passed ∧
      Stops passed entry label ∧
      analyze data = .error (.unreadableEntry label) := by
  obtain ⟨passed, entry, rest, label, hsplit, hpassed, hstops, hrun⟩ :=
    Bundle.ofEntries_of_not_readable h
  refine ⟨passed, entry, rest, label, hsplit, hpassed, hstops, ?_⟩
  rw [analyze, Bundle.read, hentries]
  dsimp only
  rw [hrun]
  rfl

/-- A bundle is read as the first document and the first descriptor of its archive, in whichever
order they come, and another archive with the same two entries is analysed alike, whatever else
there is in the two archives. -/
theorem analyze_of_first_entries (hentries : Archive.entries? data = some entries)
    (h : Readable entries) : (∃ bundle, Bundle.read data = .ok bundle ∧
      Option.Rel Entry.ReadAs (first? isDatamodelEntry entries) bundle.datamodel ∧
      Option.Rel Entry.ReadAs (first? isDescriptorEntry entries) bundle.descriptor) ∧
    ∀ other others, Archive.entries? other = some others → Readable others →
      Archive.SameFirst others entries →
      analyze other = analyze data := by
  constructor
  · exact ⟨Bundle.foundIn entries, read_of_readable hentries h,
      Archive.firstRead?_readAs h.datamodel, Archive.firstRead?_readAs h.descriptor⟩
  · intro other others hothers hreadable hsame
    rw [analyze_of_readable hothers hreadable, analyze_of_readable hentries h, hsame.foundIn_eq]

/-- An archive of a descriptor, a document, and another document that cannot be unpacked. -/
def crowded : ByteArray :=
  ⟨#[80, 75, 3, 4, 10, 0, 0, 0, 0, 0, 0, 0, 33, 0, 0, 0, 0, 0, 0, 0, 0, 0, 0, 0, 0, 0, 12, 0, 0, 0,
    109, 111, 100, 117, 108, 101, 46, 97, 46, 112, 104, 112, 80, 75, 3, 4, 10, 0, 0, 0, 0, 0, 0, 0,
    33, 0, 212, 28, 209, 1, 4, 0, 0, 0, 4, 0, 0, 0, 13, 0, 0, 0, 100, 97, 116, 97, 109, 111, 100,
    101, 108, 46, 120, 109, 108, 60, 97, 47, 62, 80, 75, 3, 4, 10, 0, 0, 0, 93, 0, 0, 0, 33, 0, 0,
    0, 0, 0, 0, 0, 0, 0, 0, 0, 0, 0, 15, 0, 0, 0, 98, 47, 100, 97, 116, 97, 109, 111, 100, 101, 108,
    46, 120, 109, 108, 80, 75, 1, 2, 10, 0, 10, 0, 0, 0, 0, 0, 0, 0, 33, 0, 0, 0, 0, 0, 0, 0, 0, 0,
    0, 0, 0, 0, 12, 0, 0, 0, 0, 0, 0, 0, 0, 0, 0, 0, 0, 0, 0, 0, 0, 0, 109, 111, 100, 117, 108, 101,
    46, 97, 46, 112, 104, 112, 80, 75, 1, 2, 10, 0, 10, 0, 0, 0, 0, 0, 0, 0, 33, 0, 212, 28, 209, 1,
    4, 0, 0, 0, 4, 0, 0, 0, 13, 0, 0, 0, 0, 0, 0, 0, 0, 0, 0, 0, 0, 0, 42, 0, 0, 0, 100, 97, 116,
    97, 109, 111, 100, 101, 108, 46, 120, 109, 108, 80, 75, 1, 2, 10, 0, 10, 0, 0, 0, 93, 0, 0, 0,
    33, 0, 0, 0, 0, 0, 0, 0, 0, 0, 0, 0, 0, 0, 15, 0, 0, 0, 0, 0, 0, 0, 0, 0, 0, 0, 0, 0, 89, 0, 0,
    0, 98, 47, 100, 97, 116, 97, 109, 111, 100, 101, 108, 46, 120, 109, 108, 80, 75, 5, 6, 0, 0, 0,
    0, 3, 0, 3, 0, 178, 0, 0, 0, 134, 0, 0, 0, 0, 0]⟩

/-- An archive with the same descriptor and the same first document in the other order, and nothing
else. -/
def bare : ByteArray :=
  ⟨#[80, 75, 3, 4, 10, 0, 0, 0, 0, 0, 0, 0, 33, 0, 212, 28, 209, 1, 4, 0, 0, 0, 4, 0, 0, 0, 13, 0,
    0, 0, 100, 97, 116, 97, 109, 111, 100, 101, 108, 46, 120, 109, 108, 60, 97, 47, 62, 80, 75, 3,
    4, 10, 0, 0, 0, 0, 0, 0, 0, 33, 0, 0, 0, 0, 0, 0, 0, 0, 0, 0, 0, 0, 0, 12, 0, 0, 0, 109, 111,
    100, 117, 108, 101, 46, 97, 46, 112, 104, 112, 80, 75, 1, 2, 10, 0, 10, 0, 0, 0, 0, 0, 0, 0, 33,
    0, 212, 28, 209, 1, 4, 0, 0, 0, 4, 0, 0, 0, 13, 0, 0, 0, 0, 0, 0, 0, 0, 0, 0, 0, 0, 0, 0, 0, 0,
    0, 100, 97, 116, 97, 109, 111, 100, 101, 108, 46, 120, 109, 108, 80, 75, 1, 2, 10, 0, 10, 0, 0,
    0, 0, 0, 0, 0, 33, 0, 0, 0, 0, 0, 0, 0, 0, 0, 0, 0, 0, 0, 12, 0, 0, 0, 0, 0, 0, 0, 0, 0, 0, 0,
    0, 0, 47, 0, 0, 0, 109, 111, 100, 117, 108, 101, 46, 97, 46, 112, 104, 112, 80, 75, 5, 6, 0, 0,
    0, 0, 2, 0, 2, 0, 117, 0, 0, 0, 89, 0, 0, 0, 0, 0]⟩

theorem analyze_of_first_entries_crowded :
    ∃ entries others, Archive.entries? crowded = some entries ∧ Readable entries ∧
      Archive.entries? bare = some others ∧ Readable others ∧ Archive.SameFirst others entries ∧
      analyze bare = analyze crowded := by
  have hall : ((Archive.entries? crowded).any fun entries =>
      (Archive.entries? bare).any fun others =>
        decide (Readable entries ∧ Readable others ∧ Archive.SameFirst others entries)) = true := by
    decide +kernel
  obtain ⟨entries, hentries, hall⟩ := (Option.any_eq_true ..).1 hall
  obtain ⟨others, hothers, hall⟩ := (Option.any_eq_true ..).1 hall
  obtain ⟨hentriesRead, hothersRead, hsame⟩ := of_decide_eq_true hall
  exact ⟨entries, others, hentries, hentriesRead, hothers, hothersRead, hsame,
    (analyze_of_first_entries hentries hentriesRead).2 bare others hothers hothersRead hsame⟩

/-! ### The descriptor beside a document that can be read -/

/-- Where the document can be read, the summary is that of its root as long as the headers are in
order and the descriptor, if there is one, can be unpacked; it has placeholders where no descriptor
tells a name or a version. Otherwise the analysis ends at a broken header or at the descriptor. -/
theorem analyze_of_document {document : Entry} {content : ByteArray} {source : List Char}
    {root : Xml.Element} (hentries : Archive.entries? data = some entries)
    (hfirst : first? isDatamodelEntry entries = some document)
    (hcontent : document.content? = some content) (hsource : Text.decode content = .ok source)
    (hroot : Xml.parse source = .ok root) : ((∀ entry ∈ entries, entry.packed.isSome) →
      (∀ descriptor ∈ first? isDescriptorEntry entries, descriptor.content?.isSome) →
        analyze data = .ok (Summary.ofDocument root (Archive.described entries))) ∧
    ((∀ descriptor ∈ first? isDescriptorEntry entries, ∀ content ∈ descriptor.content?,
        RegistrationKey.label.find? (Text.decodeLossy content) = none ∧
          RegistrationKey.version.find? (Text.decodeLossy content) = none) →
      Archive.described entries = .unknown) ∧
    (¬((∀ entry ∈ entries, entry.packed.isSome) ∧
        ∀ descriptor ∈ first? isDescriptorEntry entries, descriptor.content?.isSome) →
      ∃ passed entry rest label, entries = passed ++ entry :: rest ∧ Readable passed ∧
        Stops passed entry label ∧
        (entry.packed = none ∨ first? isDescriptorEntry entries = some entry) ∧
        analyze data = .error (.unreadableEntry label)) := by
  have hdocument : ∀ entry ∈ first? isDatamodelEntry entries, entry.content?.isSome := by
    rw [hfirst]
    rintro entry ⟨⟩
    simp [hcontent]
  refine ⟨?_, Archive.described_eq_unknown, ?_⟩
  · intro hheaders hdescriptor
    have hfound : (Bundle.foundIn entries).datamodel = some ⟨document.name, content⟩ := by
      rw [Bundle.foundIn, firstRead?, hfirst, Option.bind_some, hcontent]
      rfl
    have hentryRoot : BundleEntry.root ⟨document.name, content⟩ = .ok root := by
      rw [BundleEntry.root, hsource]
      dsimp only
      rw [hroot]
    rw [analyze_of_readable hentries ⟨hheaders, hdocument, hdescriptor⟩, Bundle.summary, hfound]
    dsimp only
    rw [hentryRoot, Archive.module_foundIn hdescriptor]
    rfl
  · intro hnot
    have hunreadable : ¬Readable entries := fun h => hnot ⟨h.headers, h.descriptor⟩
    obtain ⟨passed, entry, rest, label, hsplit, hpassed, hstops, hrun⟩ :=
      analyze_of_not_readable hentries hunreadable
    refine ⟨passed, entry, rest, label, hsplit, hpassed, hstops, ?_, hrun⟩
    cases hstops with
    | header hnone => exact .inl hnone
    | content hpacked hwanted hnone =>
      rw [hsplit] at hdocument ⊢
      rcases hwanted with ⟨hnew, hrule⟩ | ⟨hnew, hrule⟩
      · have hsome := hdocument entry (Archive.first?_of_none hnew hrule rest)
        rw [hnone] at hsome
        contradiction
      · exact .inr (Archive.first?_of_none hnew hrule rest)

end

def blankDocument : ByteArray :=
  ⟨#[60, 97, 47, 62]⟩

theorem decode_blankDocument : Text.decode blankDocument = .ok "<a/>".toList := by
  decide +kernel

theorem parse_blankDocument : Xml.parse "<a/>".toList = .ok { name := "a" } := by
  cbv

/-- The descriptor of this archive is empty, so placeholders stand in the summary. -/
theorem analyze_of_document_bare :
    ∃ entries document, Archive.entries? bare = some entries ∧
      first? isDatamodelEntry entries = some document ∧
      document.content? = some blankDocument ∧ Text.decode blankDocument = .ok "<a/>".toList ∧
      Xml.parse "<a/>".toList = .ok { name := "a" } ∧ (∀ entry ∈ entries, entry.packed.isSome) ∧
      (∀ descriptor ∈ first? isDescriptorEntry entries, descriptor.content?.isSome) ∧
      analyze bare = .ok { name := "Unknown Extension", version := "Unknown Version" } := by
  have hall : ((Archive.entries? bare).any fun entries => decide (Readable entries ∧
      Archive.described entries = .unknown ∧
      (first? isDatamodelEntry entries).map Entry.nameAndContent =
        some ("datamodel.xml", some blankDocument))) = true := by
    decide +kernel
  obtain ⟨entries, hentries, hall⟩ := (Option.any_eq_true ..).1 hall
  obtain ⟨hreadable, hunknown, hdocument⟩ := of_decide_eq_true hall
  obtain ⟨document, hfirst, hread⟩ := Option.map_eq_some_iff.1 hdocument
  have hcontent := congrArg Prod.snd hread
  have hanalyze :=
    (analyze_of_document hentries hfirst hcontent decode_blankDocument parse_blankDocument).1
    hreadable.headers hreadable.descriptor
  rw [hunknown] at hanalyze
  exact ⟨entries, document, hentries, hfirst, hcontent, decode_blankDocument, parse_blankDocument,
    hreadable.headers, hreadable.descriptor, hanalyze⟩

/-- An archive of a document that can be read and of a descriptor that is compressed by an unknown
method. -/
def lockedDescriptor : ByteArray :=
  ⟨#[80, 75, 3, 4, 10, 0, 0, 0, 0, 0, 0, 0, 33, 0, 212, 28, 209, 1, 4, 0, 0, 0, 4, 0, 0, 0, 13, 0,
    0, 0, 100, 97, 116, 97, 109, 111, 100, 101, 108, 46, 120, 109, 108, 60, 97, 47, 62, 80, 75, 3,
    4, 10, 0, 0, 0, 93, 0, 0, 0, 33, 0, 0, 0, 0, 0, 0, 0, 0, 0, 0, 0, 0, 0, 12, 0, 0, 0, 109, 111,
    100, 117, 108, 101, 46, 97, 46, 112, 104, 112, 80, 75, 1, 2, 10, 0, 10, 0, 0, 0, 0, 0, 0, 0, 33,
    0, 212, 28, 209, 1, 4, 0, 0, 0, 4, 0, 0, 0, 13, 0, 0, 0, 0, 0, 0, 0, 0, 0, 0, 0, 0, 0, 0, 0, 0,
    0, 100, 97, 116, 97, 109, 111, 100, 101, 108, 46, 120, 109, 108, 80, 75, 1, 2, 10, 0, 10, 0, 0,
    0, 93, 0, 0, 0, 33, 0, 0, 0, 0, 0, 0, 0, 0, 0, 0, 0, 0, 0, 12, 0, 0, 0, 0, 0, 0, 0, 0, 0, 0, 0,
    0, 0, 47, 0, 0, 0, 109, 111, 100, 117, 108, 101, 46, 97, 46, 112, 104, 112, 80, 75, 5, 6, 0, 0,
    0, 0, 2, 0, 2, 0, 117, 0, 0, 0, 89, 0, 0, 0, 0, 0]⟩

/-- The descriptor keeps the document from being summarised. -/
theorem analyze_lockedDescriptor :
    (∃ entries document, Archive.entries? lockedDescriptor = some entries ∧
      first? isDatamodelEntry entries = some document ∧ document.content? = some blankDocument) ∧
    Text.decode blankDocument = .ok "<a/>".toList ∧ Xml.parse "<a/>".toList = .ok { name := "a" } ∧
    analyze lockedDescriptor = .error (.unreadableEntry "module.a.php") := by
  have hdocument : ((Archive.entries? lockedDescriptor).any fun entries => decide (
      (first? isDatamodelEntry entries).map Entry.nameAndContent =
        some ("datamodel.xml", some blankDocument))) = true := by
    decide +kernel
  obtain ⟨entries, hentries, hdocument⟩ := (Option.any_eq_true ..).1 hdocument
  obtain ⟨document, hfirst, hread⟩ := Option.map_eq_some_iff.1 (of_decide_eq_true hdocument)
  exact ⟨⟨entries, document, hentries, hfirst, congrArg Prod.snd hread⟩, decode_blankDocument,
    parse_blankDocument, by decide +kernel⟩

end Datamodel
