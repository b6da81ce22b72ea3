import Datamodel.Main
import Datamodel.Proofs.Bundle.Analysis
import Datamodel.Proofs.Bundle.Registration
import Datamodel.Proofs.Definition.Determined
import Datamodel.Proofs.Definition.Edits
import Datamodel.Proofs.Definition.Labels
import Datamodel.Proofs.Definition.Listing
import Datamodel.Proofs.Definition.Summary
import Datamodel.Proofs.Definition.Verbatim
import Datamodel.Proofs.Lint.Fields
import Datamodel.Proofs.Lint.Omission
import Datamodel.Proofs.Lint.Reserved
import Datamodel.Proofs.Lint.Verdict
import Datamodel.Proofs.Markup.Script
import Datamodel.Proofs.Storage.Generation
import Datamodel.Proofs.Summary.Containers
import Datamodel.Proofs.Summary.Shapes
import Datamodel.Proofs.Xml.CharacterData
import Datamodel.Proofs.Xml.Rendering
