import Mathlib.Data.Finset.Insert
import Mathlib.Tactic.Common
import Louiselm.Base.Checks
import Louiselm.Base.Json
import Louiselm.Base.Text
import Louiselm.Canonical.Digest

/-!
# Signed launch receipts and their shape

`skills-core/src/launch_receipt.rs`: the receipt types with their canonical documents,
and the validation of one receipt that needs no predecessor. `SkillInputs` and its
validation are those of `session_manifest.rs`, `Condition` and `LaunchRole` those of
`conformance/admission.rs` and `launch_protocol.rs`.
-/

namespace Louiselm.Launch
open Base Canonical Json

/-- SSHSIG namespace and schema for the bytes a Launch supervisor signs. -/
def receiptSchema : String := "louiselm.launch.receipt/8"

/-- Schema for the payload plus its launcher signature. -/
def signedReceiptSchema : String := "louiselm.launch.signed-receipt/7"

/-- Largest canonical payload or signed envelope accepted at the trust boundary. -/
def maxReceiptBytes : Nat := 64 * 1024

def maxIdentifierBytes : Nat := 128

def maxSignatureBytes : Nat := 16 * 1024

/-- `isolation.rs`: the contract launch evidence must answer. -/
def contractVersion : String := "louiselm.isolation/2"

/-- `launch.rs`: most broker-loss grace a launcher accepts. -/
def maxBrokerLossGraceMs : UInt32 := 5000

/-! ### Closed enumerations -/

/-- Public lifecycle state reported by the launcher contract. -/
inductive SessionState where
  | starting
  | running
  | parked
  | terminal
deriving DecidableEq, Repr

/-- Bounded classification of a confirmed supervised process exit. -/
inductive ProcessExitClassification where
  | success
  | failure
  | signaled
deriving DecidableEq, Repr

/-- Closed mechanical causes that can require an outcome without a new authorization. -/
inductive ReceiptCause where
  | launchAcknowledged
  | launchFinalizationFailed
  | brokerLost
  | controllerLost
  | acknowledgementFailed
  | resumeActivationFailed
  | relayFailed
  | agentIdentityLost
  | conformanceInvalid
deriving DecidableEq, Repr

/-- The exact condition that stops current evidence from admitting a launch. -/
inductive Condition where
  | missing
  | stale
  | incomplete
  | containmentFailure
  | guardUnavailable
deriving DecidableEq, Repr

/-- The explicitly approved authority role of one Session launch. -/
inductive LaunchRole where
  | agent
  | fixedVerifier
deriving DecidableEq, Repr

def SessionState.name : SessionState → String
  | .starting => "starting"
  | .running => "running"
  | .parked => "parked"
  | .terminal => "terminal"

def ProcessExitClassification.name : ProcessExitClassification → String
  | .success => "success"
  | .failure => "failure"
  | .signaled => "signaled"

def ReceiptCause.name : ReceiptCause → String
  | .launchAcknowledged => "launch_acknowledged"
  | .launchFinalizationFailed => "launch_finalization_failed"
  | .brokerLost => "broker_lost"
  | .controllerLost => "controller_lost"
  | .acknowledgementFailed => "acknowledgement_failed"
  | .resumeActivationFailed => "resume_activation_failed"
  | .relayFailed => "relay_failed"
  | .agentIdentityLost => "agent_identity_lost"
  | .conformanceInvalid => "conformance_invalid"

def Condition.name : Condition → String
  | .missing => "missing"
  | .stale => "stale"
  | .incomplete => "incomplete"
  | .containmentFailure => "containment_failure"
  | .guardUnavailable => "guard_unavailable"

def LaunchRole.name : LaunchRole → String
  | .agent => "agent"
  | .fixedVerifier => "fixed_verifier"

instance : Serialize SessionState :=
  serializeName SessionState.name (by intro a b; cases a <;> cases b <;> decide)

instance : Serialize ProcessExitClassification :=
  serializeName ProcessExitClassification.name (by intro a b; cases a <;> cases b <;> decide)

instance : Serialize ReceiptCause :=
  serializeName ReceiptCause.name (by intro a b; cases a <;> cases b <;> decide)

instance : Serialize Condition :=
  serializeName Condition.name (by intro a b; cases a <;> cases b <;> decide)

instance : Serialize LaunchRole :=
  serializeName LaunchRole.name (by intro a b; cases a <;> cases b <;> decide)

/-! ### Receipts -/

/-- Durable broker authorization bound into a privileged result. -/
structure Authorization where
  authorizationId : String
  requestId : String
  requestDigest : String
deriving DecidableEq, Repr

/-- Why the supervisor performed one non-launch lifecycle action. -/
inductive ReceiptAuthority where
  | authorized (authorization : Authorization)
  | cause (cause : ReceiptCause)
  | processExited (classification : ProcessExitClassification)
deriving DecidableEq, Repr

/-- Host conformance evidence this launch was actually admitted under. -/
inductive ConformanceEvidence where
  | certified (reportDigest : String)
  | waived (condition : Condition) (reportDigest : Option String)
  | unevaluated
deriving DecidableEq, Repr

/-- Exact mode and view, shared by manifests, launch requests and receipts. -/
inductive SkillInputs where
  | off (viewDigest : String)
  | enabled (generationDigest viewDigest : String)
deriving DecidableEq, Repr

/-- Exact launch inputs and measured evidence established by sequence zero. -/
structure LaunchEvidence where
  role : LaunchRole
  conformance : ConformanceEvidence
  launchRequestDigest : String
  runtimeMeasurementDigest : String
  skills : SkillInputs
  sessionInputManifestId : String
  isolationContract : String
  isolationBackendId : String
  kernelIdentity : String
  isolationEvidenceDigest : String
  brokerLossGraceMs : UInt32
  capabilityChannelIds : List String
deriving DecidableEq, Repr

/-- Supervisor-established authority after restricted initialization. -/
structure StartEvidence where
  agentPid : UInt32
  assignedUid : UInt32
  assignedGid : UInt32
  toolIsolationDigest : String
  senderGuardRequired : Bool
deriving DecidableEq, Repr

/-- Privileged lifecycle result recorded by one receipt. -/
inductive ReceiptOutcome where
  | launch (authorization : Authorization) (evidence : LaunchEvidence)
  | start (authority : ReceiptAuthority) (evidence : StartEvidence)
  | park (authority : ReceiptAuthority)
  | resume (authorization : Authorization)
  | interrupt (authorization : Authorization)
  | disposal (authority : ReceiptAuthority)
deriving DecidableEq, Repr

/-- Exact statement signed for one privileged lifecycle outcome. -/
structure ReceiptPayload where
  schema : String
  sessionId : String
  runId : String
  requestId : String
  envelopeRevision : UInt64
  sequence : UInt64
  previousReceiptDigest : Option String
  releaseId : String
  signingKeyId : String
  outcome : ReceiptOutcome
  resultingState : SessionState
deriving DecidableEq, Repr

/-- Signed receipt stored by the broker and linked by every successor. -/
structure SignedReceipt where
  schema : String
  payload : ReceiptPayload
  signature : String
deriving DecidableEq, Repr

/-! ### Canonical documents -/

def Authorization.members (a : Authorization) : List (String × Json) :=
  [("authorization_id", toJson a.authorizationId), ("request_id", toJson a.requestId),
    ("request_digest", toJson a.requestDigest)]

instance : Serialize Authorization where
  toJson a := .obj a.members
  depth := 1
  fits := fun a => by
    simp (disch := decide) only [Authorization.members, fits_obj, fits_members_cons,
      fits_members_nil, fits_toJson, and_self]
  toJson_inj := by
    rintro ⟨⟩ ⟨⟩ h
    simpa [Authorization.members] using h

/-- Internally tagged by `kind`; an authorization is flattened beside its tag. -/
def ReceiptAuthority.members : ReceiptAuthority → List (String × Json)
  | .authorized a => ("kind", .str "authorized") :: a.members
  | .cause c => [("kind", .str "cause"), ("cause", toJson c)]
  | .processExited c => [("kind", .str "process_exited"), ("classification", toJson c)]

instance : Serialize ReceiptAuthority where
  toJson a := .obj a.members
  depth := 1
  fits := fun a => by
    cases a <;>
      simp (disch := decide) only [ReceiptAuthority.members, Authorization.members,
        fits_obj, fits_members_cons, fits_members_nil, fits_str, fits_toJson, and_self]
  toJson_inj := by
    rintro (⟨⟨⟩⟩ | c | c) (⟨⟨⟩⟩ | d | d) h <;>
      simp_all [ReceiptAuthority.members, Authorization.members]

/-- Internally tagged by `status`. -/
def ConformanceEvidence.members : ConformanceEvidence → List (String × Json)
  | .certified d => [("status", .str "certified"), ("report_digest", toJson d)]
  | .waived c d =>
    [("status", .str "waived"), ("condition", toJson c), ("report_digest", toJson d)]
  | .unevaluated => [("status", .str "unevaluated")]

instance : Serialize ConformanceEvidence where
  toJson e := .obj e.members
  depth := 1
  fits := fun e => by
    cases e <;>
      simp (disch := decide) only [ConformanceEvidence.members, fits_obj,
        fits_members_cons, fits_members_nil, fits_str, fits_toJson, and_self]
  toJson_inj := by
    rintro (d | ⟨c, d⟩ | _) (e | ⟨f, e⟩ | _) h <;> simp_all [ConformanceEvidence.members]

/-- Internally tagged by `mode`. -/
def SkillInputs.members : SkillInputs → List (String × Json)
  | .off v => [("mode", .str "off"), ("view_digest", toJson v)]
  | .enabled g v =>
    [("mode", .str "enabled"), ("generation_digest", toJson g), ("view_digest", toJson v)]

instance : Serialize SkillInputs where
  toJson s := .obj s.members
  depth := 1
  fits := fun s => by
    cases s <;>
      simp (disch := decide) only [SkillInputs.members, fits_obj, fits_members_cons,
        fits_members_nil, fits_str, fits_toJson, and_self]
  toJson_inj := by
    rintro (v | ⟨g, v⟩) (w | ⟨k, w⟩) h <;> simp_all [SkillInputs.members]

def LaunchEvidence.members (e : LaunchEvidence) : List (String × Json) :=
  [("role", toJson e.role), ("conformance", toJson e.conformance),
    ("launch_request_digest", toJson e.launchRequestDigest),
    ("runtime_measurement_digest", toJson e.runtimeMeasurementDigest), ("skills", toJson e.skills),
    ("session_input_manifest_id", toJson e.sessionInputManifestId),
    ("isolation_contract", toJson e.isolationContract),
    ("isolation_backend_id", toJson e.isolationBackendId),
    ("kernel_identity", toJson e.kernelIdentity),
    ("isolation_evidence_digest", toJson e.isolationEvidenceDigest),
    ("broker_loss_grace_ms", toJson e.brokerLossGraceMs),
    ("capability_channel_ids", toJson e.capabilityChannelIds)]

instance : Serialize LaunchEvidence where
  toJson e := .obj e.members
  depth := 2
  fits := fun e => by
    simp (disch := decide) only [LaunchEvidence.members, fits_obj, fits_members_cons,
        fits_members_nil,
      fits_toJson, and_self]
  toJson_inj := by
    rintro ⟨⟩ ⟨⟩ h
    simpa [LaunchEvidence.members] using h

def StartEvidence.members (e : StartEvidence) : List (String × Json) :=
  [("agent_pid", toJson e.agentPid), ("assigned_uid", toJson e.assignedUid),
    ("assigned_gid", toJson e.assignedGid), ("tool_isolation_digest", toJson e.toolIsolationDigest),
    ("sender_guard_required", toJson e.senderGuardRequired)]

instance : Serialize StartEvidence where
  toJson e := .obj e.members
  depth := 1
  fits := fun e => by
    simp (disch := decide) only [StartEvidence.members, fits_obj, fits_members_cons,
        fits_members_nil,
      fits_toJson, and_self]
  toJson_inj := by
    rintro ⟨⟩ ⟨⟩ h
    simpa [StartEvidence.members] using h

/-- Internally tagged by `action`. -/
def ReceiptOutcome.members : ReceiptOutcome → List (String × Json)
  | .launch a e => [("action", .str "launch"), ("authorization", toJson a), ("evidence", toJson e)]
  | .start a e => [("action", .str "start"), ("authority", toJson a), ("evidence", toJson e)]
  | .park a => [("action", .str "park"), ("authority", toJson a)]
  | .resume a => [("action", .str "resume"), ("authorization", toJson a)]
  | .interrupt a => [("action", .str "interrupt"), ("authorization", toJson a)]
  | .disposal a => [("action", .str "disposal"), ("authority", toJson a)]

instance : Serialize ReceiptOutcome where
  toJson o := .obj o.members
  depth := 3
  fits := fun o => by
    cases o <;>
      simp (disch := decide) only [ReceiptOutcome.members, fits_obj, fits_members_cons,
        fits_members_nil, fits_str, fits_toJson, and_self]
  toJson_inj := by
    rintro (⟨a, e⟩ | ⟨a, e⟩ | a | a | a | a) (⟨b, f⟩ | ⟨b, f⟩ | b | b | b | b) h <;>
      simp_all [ReceiptOutcome.members]

def ReceiptPayload.members (p : ReceiptPayload) : List (String × Json) :=
  [("schema", toJson p.schema), ("session_id", toJson p.sessionId), ("run_id", toJson p.runId),
    ("request_id", toJson p.requestId), ("envelope_revision", toJson p.envelopeRevision),
    ("sequence", toJson p.sequence), ("previous_receipt_digest", toJson p.previousReceiptDigest),
    ("release_id", toJson p.releaseId), ("signing_key_id", toJson p.signingKeyId),
    ("outcome", toJson p.outcome), ("resulting_state", toJson p.resultingState)]

instance : Serialize ReceiptPayload where
  toJson p := .obj p.members
  depth := 4
  fits := fun p => by
    simp (disch := decide) only [ReceiptPayload.members, fits_obj, fits_members_cons,
        fits_members_nil,
      fits_toJson, and_self]
  toJson_inj := by
    rintro ⟨⟩ ⟨⟩ h
    simpa [ReceiptPayload.members] using h

def SignedReceipt.members (r : SignedReceipt) : List (String × Json) :=
  [("schema", toJson r.schema), ("payload", toJson r.payload), ("signature", toJson r.signature)]

instance : Serialize SignedReceipt where
  toJson r := .obj r.members
  depth := 5
  fits := fun r => by
    simp (disch := decide) only [SignedReceipt.members, fits_obj, fits_members_cons,
        fits_members_nil,
      fits_toJson, and_self]
  toJson_inj := by
    rintro ⟨⟩ ⟨⟩ h
    simpa [SignedReceipt.members] using h

/-- The empty Instruction view that skills-off must name, `instruction_view.rs`. -/
structure ViewDescription where
  schema : String
  generation : Option String
  agent : Option String
  packages : List String

instance : Serialize ViewDescription where
  toJson d := .obj [("schema", toJson d.schema), ("generation", toJson d.generation),
    ("agent", toJson d.agent), ("packages", toJson d.packages)]
  depth := 2
  fits := fun d => by
    simp (disch := decide) [fits_obj, fits_toJson]
  toJson_inj := by
    rintro ⟨⟩ ⟨⟩ h
    simpa using h

/-! ### Errors -/

/-- Receipt construction or verification failure. -/
inductive ReceiptError where
  | oversized
  | malformed (reason : String)
  | nonCanonical
  | unsupportedSchema (schema : String)
  | invalidIdentifier (field : String)
  | invalidDigest (field : String)
  | genesisHasPredecessor
  | missingPredecessor
  | launchNotGenesis
  | genesisNotLaunch
  | contradictoryResult
  | contradictoryCause
  | authorizationRequestMismatch
  | launchRequestMismatch
  | unsupportedIsolationContract (contract : String)
  | invalidBrokerLossGrace
  | missingChannel
  | duplicateChannel (channel : String)
  | unsortedChannels
  | invalidSignatureEncoding
  | emptyChain
  | expectedSequence (expected found : UInt64)
  | sequenceOverflow
  | wrongPredecessor (sequence : UInt64)
  | foreignSession
  | foreignRun
  | releaseChanged
  | signingKeyChanged
  | envelopeRevisionRegressed (previous found sequence : UInt64)
  | invalidTransition (sequence : UInt64)
  | duplicateRequestId (requestId : String)
  | invalidSignature (sequence : UInt64)
deriving DecidableEq, Repr

/-! ### Field checks -/

def validateIdentifier (field value : String) : Except ReceiptError Unit :=
  require (Text.bounded maxIdentifierBytes Text.isIdentifierChar value) (.invalidIdentifier field)

def validateToken (field value : String) : Except ReceiptError Unit :=
  require (Text.bounded maxIdentifierBytes Text.isAsciiGraphic value) (.invalidIdentifier field)

/-- Whether a text is the displayed form of a digest. -/
def isCanonicalDigest (value : String) : Bool :=
  match Digest.parse value with
  | .ok digest => digest.toString == value
  | .error _ => false

def validateDigest (field value : String) : Except ReceiptError Unit :=
  require (isCanonicalDigest value) (.invalidDigest field)

/-- Every displayed digest is canonical. -/
@[simp] theorem isCanonicalDigest_toString (d : Digest) : isCanonicalDigest d.toString = true := by
  simp [isCanonicalDigest]

def checkSize (bytes : Bytes) : Except ReceiptError Unit :=
  require (decide (bytes.length ≤ maxReceiptBytes)) .oversized

def validateAuthorization (authorization : Authorization) (receiptRequestId : String) :
    Except ReceiptError Unit := do
  validateIdentifier "authorization_id" authorization.authorizationId
  validateIdentifier "authorization.request_id" authorization.requestId
  validateDigest "authorization.request_digest" authorization.requestDigest
  require (authorization.requestId == receiptRequestId) .authorizationRequestMismatch

/-- The loop over channel identities, which must be valid and strictly ascending. -/
def validateChannels : Option String → List String → Except ReceiptError Unit
  | _, [] => .ok ()
  | previous, id :: ids => do
    validateIdentifier "capability_channel_id" id
    match previous with
    | none => .ok ()
    | some earlier => do
      require (earlier != id) (.duplicateChannel id)
      require (decide (earlier ≤ id)) .unsortedChannels
    validateChannels (some id) ids

section

variable (sha256 : Sha256) (fmt : JsonFormat)

/-- `instruction_view.rs`: the identity of the canonical empty Instruction view. -/
def emptyDigest : Digest :=
  Digest.of sha256 (fmt.toVec
    (ViewDescription.mk "louiselm.skills.instruction-view/1" none none []))

/-- A non-blank text in the displayed form, as `session_manifest/validation.rs` checks it. -/
def validViewDigest (value : String) : Bool := !Text.isBlank value && isCanonicalDigest value

/-- Every displayed digest names a view. -/
@[simp] theorem validViewDigest_toString (d : Digest) : validViewDigest d.toString = true := by
  have h : d.toString.toList = 's' :: ("ha256:".toList ++ d.hex.toList) := by
    rw [Digest.toString, String.toList_append]
    rfl
  have hb : Text.isBlank d.toString = false := by
    rw [Text.isBlank, h]
    rfl
  simp [validViewDigest, hb]

/-- Check canonical mode bindings without establishing provenance. -/
def SkillInputs.validate : SkillInputs → Bool
  | .off view =>
    validViewDigest view && view == (emptyDigest sha256 fmt).toString
  | .enabled generation view => validViewDigest view && validViewDigest generation

def validateConformance : ConformanceEvidence → Except ReceiptError Unit
  | .certified report => validateDigest "conformance_report_digest" report
  | .waived _ (some report) => validateDigest "conformance_report_digest" report
  | .waived _ none => .ok ()
  | .unevaluated => .ok ()

def validateLaunchEvidence (evidence : LaunchEvidence) : Except ReceiptError Unit := do
  validateConformance evidence.conformance
  validateDigest "launch_request_digest" evidence.launchRequestDigest
  validateDigest "runtime_measurement_digest" evidence.runtimeMeasurementDigest
  validateDigest "session_input_manifest_id" evidence.sessionInputManifestId
  validateDigest "isolation_evidence_digest" evidence.isolationEvidenceDigest
  require (evidence.skills.validate sha256 fmt) (.invalidIdentifier "skills")
  require (evidence.isolationContract == contractVersion)
    (.unsupportedIsolationContract evidence.isolationContract)
  require (decide (evidence.brokerLossGraceMs ≤ maxBrokerLossGraceMs)) .invalidBrokerLossGrace
  validateToken "isolation_backend_id" evidence.isolationBackendId
  validateToken "kernel_identity" evidence.kernelIdentity
  require (!evidence.capabilityChannelIds.isEmpty) .missingChannel
  validateChannels none evidence.capabilityChannelIds

/-! ### One receipt -/

/-- The authorization an outcome carries, if it was not a cause. -/
def ReceiptOutcome.authorization : ReceiptOutcome → Option Authorization
  | .launch authorization _ => some authorization
  | .park (.authorized authorization) => some authorization
  | .disposal (.authorized authorization) => some authorization
  | .resume authorization => some authorization
  | .interrupt authorization => some authorization
  | _ => none

/-- Whether an action may leave the Session in `state`. -/
def ReceiptOutcome.resultMatches (outcome : ReceiptOutcome) (state : SessionState) : Bool :=
  match outcome with
  | .launch .. => state == .starting
  | .start .. => state == .running
  | .resume _ => state == .running
  | .interrupt _ => state == .running || state == .parked
  | .park _ => state == .parked
  | .disposal _ => state == .terminal

/-- Authorities under which a Session may be parked. -/
def parkAuthority : ReceiptAuthority → Bool
  | .authorized _ => true
  | .cause .brokerLost => true
  | .cause .conformanceInvalid => true
  | .cause .controllerLost => true
  | .cause .acknowledgementFailed => true
  | .cause .resumeActivationFailed => true
  | _ => false

/-- Authorities under which a Session may be disposed of. -/
def disposalAuthority : ReceiptAuthority → Bool
  | .authorized _ => true
  | .cause .controllerLost => true
  | .cause .acknowledgementFailed => true
  | .cause .relayFailed => true
  | .cause .agentIdentityLost => true
  | .cause .launchFinalizationFailed => true
  | .processExited _ => true
  | _ => false

namespace ReceiptPayload

/-- The exact bytes the launcher signs. -/
def canonicalBytes (payload : ReceiptPayload) : Bytes := fmt.toVec payload

/-- Sequence zero names no predecessor and every later receipt names one. -/
def validatePredecessor (payload : ReceiptPayload) : Except ReceiptError Unit :=
  match payload.previousReceiptDigest with
  | none => require (payload.sequence == 0) .missingPredecessor
  | some predecessor =>
    if payload.sequence = 0 then .error .genesisHasPredecessor
    else validateDigest "previous_receipt_digest" predecessor

/-- The last two arms of the outcome match, shared by all actions but launch and start. -/
def validateLater (payload : ReceiptPayload) : Except ReceiptError Unit :=
  if payload.sequence = 0 then .error .genesisNotLaunch
  else
    match payload.outcome.authorization with
    | some authorization => validateAuthorization authorization payload.requestId
    | none => .ok ()

/-- The outcome match, in the order of its guarded arms. -/
def validateOutcome (payload : ReceiptPayload) : Except ReceiptError Unit :=
  match payload.outcome with
  | .launch authorization evidence => do
    require (payload.sequence == 0) .launchNotGenesis
    validateAuthorization authorization payload.requestId
    validateLaunchEvidence sha256 fmt evidence
    require (authorization.requestDigest == evidence.launchRequestDigest) .launchRequestMismatch
  | .start authority evidence => do
    require (authority == .cause .launchAcknowledged) .contradictoryCause
    require (evidence.agentPid != 0 && evidence.assignedUid != 0 && evidence.assignedGid != 0)
      (.malformed "invalid Agent authority identity")
    validateDigest "tool_isolation_digest" evidence.toolIsolationDigest
    require (payload.sequence != 0) .genesisNotLaunch
  | .park authority =>
    if parkAuthority authority then payload.validateLater else .error .contradictoryCause
  | .disposal authority =>
    if disposalAuthority authority then payload.validateLater else .error .contradictoryCause
  | .resume _ => payload.validateLater
  | .interrupt _ => payload.validateLater

/-- Validate all invariants that do not require the preceding receipt. -/
def validate (payload : ReceiptPayload) : Except ReceiptError Unit := do
  checkSize (payload.canonicalBytes fmt)
  require (payload.schema == receiptSchema) (.unsupportedSchema payload.schema)
  validateIdentifier "session_id" payload.sessionId
  validateIdentifier "run_id" payload.runId
  validateIdentifier "request_id" payload.requestId
  validateDigest "release_id" payload.releaseId
  validateDigest "signing_key_id" payload.signingKeyId
  payload.validatePredecessor
  payload.validateOutcome sha256 fmt
  require (payload.outcome.resultMatches payload.resultingState) .contradictoryResult

end ReceiptPayload

namespace SignedReceipt

/-- The exact envelope bytes stored and hashed by the next receipt. -/
def canonicalBytes (receipt : SignedReceipt) : Bytes := fmt.toVec receipt

/-- The chain identity of the complete signed envelope. -/
def digest (receipt : SignedReceipt) : Digest := Digest.of sha256 (receipt.canonicalBytes fmt)

/-- Validate envelope and payload shape without asserting cryptography. -/
def validate (receipt : SignedReceipt) : Except ReceiptError Unit := do
  checkSize (receipt.canonicalBytes fmt)
  require (receipt.schema == signedReceiptSchema) (.unsupportedSchema receipt.schema)
  require (receipt.signature != "" && receipt.signature.utf8ByteSize ≤ maxSignatureBytes)
    .invalidSignatureEncoding
  receipt.payload.validate sha256 fmt

end SignedReceipt

end
end Louiselm.Launch
