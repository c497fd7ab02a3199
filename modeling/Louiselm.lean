import Louiselm.Admission.Atomicity
import Louiselm.Admission.Lifecycle
import Louiselm.Admission.Pruning
import Louiselm.Admission.QuarantineCommand
import Louiselm.Admission.QuarantineRuns
import Louiselm.Attention.Deliveries
import Louiselm.Attention.StoredStates
import Louiselm.Broker.BeadsMutationRuns
import Louiselm.Broker.CommandRestore
import Louiselm.Broker.DelegationRuns
import Louiselm.Broker.DependencyRuns
import Louiselm.Broker.LifecycleRuns
import Louiselm.Broker.PostureRuns
import Louiselm.Broker.RunEnvelopeRuns
import Louiselm.Broker.SkillRequestRuns
import Louiselm.Broker.WithdrawalRuns
import Louiselm.Capture.Disposal
import Louiselm.Capture.GenerationCosts
import Louiselm.Capture.GenerationOptions
import Louiselm.Capture.Retries
import Louiselm.Capture.Spellings
import Louiselm.Endorsement.Distrust
import Louiselm.Endorsement.Lineage
import Louiselm.Forensics.Redact
import Louiselm.Launch.IdentityRuns
import Louiselm.Pairing.DeliveryRuns
import Louiselm.Permission.OptionSense
import Louiselm.Permission.Order
import Louiselm.Permission.RuleIdentity
import Louiselm.Provider.Chunks
import Louiselm.Provider.ExtensionExpiry
import Louiselm.Provider.Holds
import Louiselm.Provider.PolicyReading
import Louiselm.Review.Escape
import Louiselm.Review.PackageDiff
import Louiselm.Review.ScanLoops
import Louiselm.Routing.Approval
import Louiselm.Routing.ReaderRuns
import Louiselm.Routing.Selection
import Louiselm.Session.PermissionRuns
import Louiselm.Session.RecordingRuns
import Louiselm.Session.Transcript
import Louiselm.Trust.RecoveryRuns
import Louiselm.Trust.Sshsig
import Louiselm.Usage.Acp
import Louiselm.Usage.IndexRuns
import Louiselm.Workflow.Accepted
import Louiselm.Workflow.BeadAcceptance
import Louiselm.Workflow.ParkObserver
import Louiselm.Workflow.RunDisposal
