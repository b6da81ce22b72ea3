import Datamodel.Archive.Directory
import Datamodel.Bundle.Entry

/-!
# Bundles

A bundle is read for the first datamodel document and the first module descriptor among its entries.
Every entry's own header has to be readable, but only the two wanted entries are unpacked.
Directories are passed over.
-/

namespace Datamodel

structure BundleEntry where
  name : String
  content : ByteArray

/-- What a bundle is read for. -/
structure Bundle where
  datamodel : Option BundleEntry := none
  descriptor : Option BundleEntry := none

namespace Bundle

def wants (bundle : Bundle) (name : String) : Bool :=
  (bundle.datamodel.isNone && isDatamodelEntry name) ||
    (bundle.descriptor.isNone && isDescriptorEntry name)

def take (bundle : Bundle) (entry : BundleEntry) : Bundle :=
  if isDatamodelEntry entry.name then { bundle with datamodel := some entry }
  else { bundle with descriptor := some entry }

/-- Goes through entries from the one with number `index` on. An entry that cannot be read is an
error under its number if its header is at fault, and else under its name. -/
def collect (bundle : Bundle) (index : Nat) : List Archive.Entry → Except String Bundle
  | [] => .ok bundle
  | entry :: entries =>
    match entry.packed with
    | none => .error ("#" ++ toString index)
    | some packed =>
      if !Archive.isDirectoryName entry.name && bundle.wants entry.name then
        match packed.unpack? with
        | none => .error entry.name
        | some content => (bundle.take ⟨entry.name, content⟩).collect (index + 1) entries
      else
        bundle.collect (index + 1) entries

/-- The bundle of an archive's entries, or the entry that cannot be read. -/
def ofEntries (entries : List Archive.Entry) : Except String Bundle :=
  ({} : Bundle).collect 0 entries

end Bundle

end Datamodel
