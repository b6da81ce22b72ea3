import Datamodel.Bundle.Basic
import Datamodel.Summary.Document
import Datamodel.Xml.Document

/-!
# The analysis of a bundle

A bundle is summarised from its datamodel document, which has to be there and has to be well-formed
text. The module descriptor only gives the name and the version; bytes in it that are no text are
replaced.
-/

namespace Datamodel

inductive DocumentFault where
  | notText
  | badSyntax (cause : Xml.SyntaxCause)
  deriving DecidableEq, Repr

def DocumentFault.message : DocumentFault → String
  | .notText => "document is not valid UTF-8"
  | .badSyntax cause => cause.message

/-- Why a bundle cannot be summarised. -/
inductive BundleError where
  | notArchive
  | unreadableEntry (name : String)
  | noDatamodel
  /-- The document of an entry is at fault at an offset; its size is that of its text. -/
  | malformed (entry : String) (fault : DocumentFault) (offset size : Nat)
  deriving DecidableEq, Repr

namespace BundleError

def message : BundleError → String
  | .notArchive => "bundle is not a readable zip archive"
  | .unreadableEntry name => "failed to read archive entry '" ++ name ++ "'"
  | .noDatamodel => "no datamodel document found in the bundle"
  | .malformed entry .. => "malformed datamodel document '" ++ entry ++ "'"

def code : BundleError → String
  | .notArchive => "forge::analyzer::archive"
  | .unreadableEntry _ => "forge::analyzer::entry"
  | .noDatamodel => "forge::analyzer::missing_datamodel"
  | .malformed .. => "forge::analyzer::parse"

def help? : BundleError → Option String
  | .noDatamodel =>
    some "the bundle needs an entry ending in '.xml' whose name contains 'datamodel'"
  | _ => none

/-- The offset of a fault within its document, which is at most the document's size. -/
def offset? : BundleError → Option Nat
  | .malformed _ _ offset size => some (min offset size)
  | _ => none

/-- The place an error points at, with what is said there and how many bytes it covers. -/
def label? : BundleError → Option (String × Nat × Nat)
  | .malformed _ fault offset size =>
    some (fault.message, min offset size, if offset < size then 1 else 0)
  | _ => none

end BundleError

def BundleEntry.root (entry : BundleEntry) : Except BundleError Xml.Element :=
  match Text.decode entry.content with
  | .error offset =>
    .error (.malformed entry.name .notText offset (Text.size (Text.decodeLossy entry.content)))
  | .ok source =>
    match Xml.parse source with
    | .error error =>
      .error (.malformed entry.name (.badSyntax error.cause) error.offset (Text.size source))
    | .ok root => .ok root

def Bundle.module (bundle : Bundle) : ModuleDescriptor :=
  match bundle.descriptor with
  | none => .unknown
  | some entry => .parse (Text.decodeLossy entry.content)

def Bundle.summary (bundle : Bundle) : Except BundleError Summary :=
  match bundle.datamodel with
  | none => .error .noDatamodel
  | some entry => entry.root.map fun root => Summary.ofDocument root bundle.module

def Bundle.read (data : ByteArray) : Except BundleError Bundle :=
  match Archive.entries? data with
  | none => .error .notArchive
  | some entries => (Bundle.ofEntries entries).mapError .unreadableEntry

/-- The summary of the bundle in an archive. -/
def analyze (data : ByteArray) : Except BundleError Summary := do
  (← Bundle.read data).summary

end Datamodel
