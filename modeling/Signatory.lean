import Signatory.Ledger.Remote
import Signatory.Main
import Signatory.Proofs.Console
import Signatory.Proofs.Ledger.Submission
import Signatory.Proofs.Service.Allotment
import Signatory.Proofs.Service.Dispatch
import Signatory.Proofs.Service.Eviction
import Signatory.Proofs.Service.Removal
import Signatory.Proofs.Service.Serial
import Signatory.Proofs.Service.Whereabouts
import Signatory.Proofs.Transaction.Message
import Signatory.Proofs.Service.Locality
import Signatory.Proofs.Service.Recovery
import Signatory.Proofs.Service.Deeds
import Signatory.Proofs.Service.Extract
import Signatory.Proofs.Service.Lockstep
import Signatory.Proofs.Service.Isolation
import Signatory.Proofs.Service.Erasure
import Signatory.Proofs.Service.Parts
import Signatory.Proofs.Sync
import Signatory.Proofs.Ledger.Settlement
import Signatory.Proofs.Transaction.Spelling
import Signatory.Proofs.Transaction.Document
import Signatory.Proofs.Transaction.Hash
import Signatory.Proofs.Ledger.Naming
import Signatory.Proofs.Service.Answering
import Signatory.Proofs.Service.Signing
import Signatory.Proofs.Service.Failing
import Signatory.Proofs.Ledger.Footprint
import Signatory.Proofs.Ledger.Quantity
import Signatory.Proofs.Command
import Signatory.Proofs.CommandLine
import Signatory.Proofs.Dialogue
import Signatory.Proofs.Service.Standalone
import Signatory.Proofs.Service.Exit
