import ServiceModel.Document.Limited
import ServiceModel.Log.Setup
import ServiceModel.Proofs.Accumulation
import ServiceModel.Proofs.Assembly
import ServiceModel.Proofs.Decoding
import ServiceModel.Proofs.Identifier.Language
import ServiceModel.Proofs.Identifier.Parts
import ServiceModel.Proofs.Independence
import ServiceModel.Proofs.Isolation
import ServiceModel.Proofs.Location
import ServiceModel.Proofs.Modes
import ServiceModel.Proofs.Naming
import ServiceModel.Proofs.Pointer
import ServiceModel.Proofs.Pointing
import ServiceModel.Proofs.Preservation
import ServiceModel.Proofs.Recasting
import ServiceModel.Proofs.Relocation
import ServiceModel.Proofs.Reordering
import ServiceModel.Proofs.Repetition
import ServiceModel.Proofs.Report
import ServiceModel.Proofs.RoundTrip
import ServiceModel.Proofs.Shape.Language
import ServiceModel.Proofs.Structural
import ServiceModel.Proofs.Totality
import ServiceModel.Proofs.Validity
