import Louiselm.Launch.Receipt

/-!
# Lifecycle requests and their evaluation

`skills-core/src/launch_protocol.rs`: the closed lifecycle request, the mechanical status of
one Launch supervisor, and the stateless evaluation of a request against both a status and
the durable record of an earlier completion.
-/

namespace Louiselm.Launch.Protocol
open Base Canonical

/-- `launch.rs`: the version of every protocol message. -/
def protocolVersion : UInt32 := 1

def lifecycleRequestSchema : String := "louiselm.launch.lifecycle-request/1"

def supervisorStatusSchema : String := "louiselm.launch.supervisor-status/4"

/-- Most ordered receipts that may await durable storage. -/
def maxPendingReceipts : UInt32 := 8

/-! ### Closed enumerations -/

/-- An authorized public lifecycle mutation. -/
inductive LifecycleAction where
  | park
  | resume
  | interrupt
  | disposal
deriving DecidableEq, Repr

/-- An operation visible while the supervisor is still completing it. -/
inductive PendingAction where
  | launch
  | park
  | resume
  | interrupt
  | disposal
deriving DecidableEq, Repr

/-- Where an in-flight lifecycle operation is blocked. -/
inductive PendingPhase where
  | applying
  | signing
  | awaitingDurableAck
  | activating
deriving DecidableEq, Repr

/-- The supervisor's view of its broker connection. -/
inductive BrokerConnection where
  | connected
  | grace
  | disconnected
  | reconciling
deriving DecidableEq, Repr

/-- Aggregate state of the Session's capability channels. -/
inductive ChannelState where
  | disabled
  | enabled
  | revoked
  | closed
deriving DecidableEq, Repr

/-- Stable machine-readable protocol failure code. -/
inductive ErrorCode where
  | messageTooLarge
  | malformedMessage
  | unsupportedSchema
  | unsupportedVersion
  | invalidRequest
  | subjectMismatch
  | requestIdConflict
  | operationPending
  | stateMismatch
  | receiptSequenceMismatch
  | envelopeRevisionMismatch
  | invalidTransition
  | lifecycleMechanicUnavailable
  | conformanceUnavailable
  | receiptChainInvalid
  | signingKeyRevoked
  | signingUnavailable
  | durabilityUnavailable
  | brokerUnavailable
  | sessionIdentityExhausted
  | identityAssignmentInvalid
  | credentialUnavailable
  | providerDisclosureDenied
  | capabilityDenied
deriving DecidableEq, Repr

/-- Stable recovery direction for a protocol failure. -/
inductive NextAction where
  | retrySameRequest
  | refreshStatus
  | wait
  | reconnectBroker
  | inspectReceiptChain
  | newRequestId
  | contactOperator
  | none
deriving DecidableEq, Repr

def LifecycleAction.name : LifecycleAction → String
  | .park => "park"
  | .resume => "resume"
  | .interrupt => "interrupt"
  | .disposal => "disposal"

instance : Serialize LifecycleAction :=
  serializeName LifecycleAction.name (by intro a b; cases a <;> cases b <;> decide)

/-! ### Errors -/

/-- The safe message and recovery metadata of each code. -/
def errorMetadata : ErrorCode → String × Bool × NextAction
  | .messageTooLarge => ("protocol message is too large", false, .none)
  | .malformedMessage => ("protocol message is malformed", false, .none)
  | .unsupportedSchema => ("protocol schema is not supported", false, .contactOperator)
  | .unsupportedVersion => ("protocol version is not supported", false, .contactOperator)
  | .invalidRequest => ("protocol request is invalid", false, .none)
  | .subjectMismatch => ("request subject does not match this session", false, .refreshStatus)
  | .requestIdConflict => ("request id was reused for different bytes", false, .newRequestId)
  | .operationPending => ("another lifecycle operation is pending", true, .wait)
  | .stateMismatch => ("expected session state is stale", false, .refreshStatus)
  | .receiptSequenceMismatch => ("expected receipt sequence is stale", false, .refreshStatus)
  | .envelopeRevisionMismatch => ("expected envelope revision is stale", false, .refreshStatus)
  | .invalidTransition =>
    ("lifecycle action is invalid from current state", false, .refreshStatus)
  | .lifecycleMechanicUnavailable =>
    ("Session lifecycle mechanic is unavailable", false, .contactOperator)
  | .conformanceUnavailable =>
    ("host conformance requires fresh evidence and operator recovery", false, .contactOperator)
  | .signingKeyRevoked => ("Launcher signing key revoked", false, .contactOperator)
  | .receiptChainInvalid => ("launcher receipt chain is invalid", false, .inspectReceiptChain)
  | .signingUnavailable => ("launcher receipt signing is unavailable", true, .retrySameRequest)
  | .durabilityUnavailable =>
    ("durable receipt storage is unavailable", true, .retrySameRequest)
  | .brokerUnavailable => ("control broker is unavailable", true, .reconnectBroker)
  | .sessionIdentityExhausted => ("no session identity is available", true, .wait)
  | .identityAssignmentInvalid =>
    ("broker-assigned session identity is invalid", false, .contactOperator)
  | .credentialUnavailable =>
    ("configured Provider credential is unavailable", false, .contactOperator)
  | .providerDisclosureDenied =>
    ("Provider metadata disclosure refused; review the supported profile and authorize its " ++
      "exact digest", false, .contactOperator)
  | .capabilityDenied => ("broker capability is unavailable", false, .contactOperator)

/-- A stable, sanitized protocol failure. -/
structure ProtocolError where
  code : ErrorCode
  message : String
  retryable : Bool
  currentState : Option SessionState
  expectedSequence : Option UInt64
  nextAction : NextAction
deriving DecidableEq, Repr

namespace ProtocolError

/-- An error whose presentation fields are derived from its code. -/
def new (code : ErrorCode) (currentState : Option SessionState)
    (expectedSequence : Option UInt64) : ProtocolError :=
  let (message, retryable, nextAction) := errorMetadata code
  { code, message, retryable, currentState, expectedSequence, nextAction }

/-- Reject an error whose derived fields contradict its code. -/
def validate (error : ProtocolError) : Except ProtocolError Unit :=
  require (error == new error.code error.currentState error.expectedSequence)
    (new .invalidRequest none none)

end ProtocolError

/-! ### Field checks -/

def validateSchema (value expected : String) : Except ProtocolError Unit :=
  require (value == expected) (.new .unsupportedSchema none none)

def validateVersion (value : UInt32) : Except ProtocolError Unit :=
  require (value == protocolVersion) (.new .unsupportedVersion none none)

def validateIdentifier (value : String) : Except ProtocolError Unit :=
  require (Text.bounded maxIdentifierBytes Text.isIdentifierChar value)
    (.new .invalidRequest none none)

def validateDigest (value : String) : Except ProtocolError Unit :=
  require (isCanonicalDigest value) (.new .invalidRequest none none)

/-! ### Requests -/

/-- A compare-and-swap lifecycle mutation from the Control broker. -/
structure LifecycleRequest where
  schema : String
  protocolVersion : UInt32
  requestId : String
  sessionId : String
  runId : String
  authorizationId : String
  action : LifecycleAction
  expectedState : SessionState
  expectedReceiptSequence : Option UInt64
  envelopeRevision : UInt64
deriving DecidableEq, Repr

def LifecycleRequest.members (r : LifecycleRequest) : List (String × Json) :=
  [("schema", toJson r.schema), ("protocol_version", toJson r.protocolVersion),
    ("request_id", toJson r.requestId), ("session_id", toJson r.sessionId),
    ("run_id", toJson r.runId), ("authorization_id", toJson r.authorizationId),
    ("action", toJson r.action), ("expected_state", toJson r.expectedState),
    ("expected_receipt_sequence", toJson r.expectedReceiptSequence),
    ("envelope_revision", toJson r.envelopeRevision)]

instance : Serialize LifecycleRequest where
  toJson r := .obj r.members
  depth := 1
  fits := fun r => by
    simp (disch := decide) [LifecycleRequest.members, fits_toJson]
  toJson_inj := by
    rintro ⟨⟩ ⟨⟩ h
    simpa [LifecycleRequest.members] using h

namespace LifecycleRequest

variable (sha256 : Sha256) (fmt : JsonFormat)

/-- The bytes used for idempotency. -/
def canonicalBytes (request : LifecycleRequest) : Bytes := fmt.toVec request

/-- The content address that tells a retry from a conflict. -/
def digest (request : LifecycleRequest) : Digest := Digest.of sha256 (request.canonicalBytes fmt)

/-- Whether the expected sequence has the shape of the expected state. -/
def sequenceShapeMatches (request : LifecycleRequest) : Bool :=
  match request.expectedState with
  | .starting =>
    request.expectedReceiptSequence == none || request.expectedReceiptSequence == some 0
  | .running | .parked | .terminal => request.expectedReceiptSequence.isSome

/-- Validate version, schema, bounded identifiers and the compare-and-swap shape. -/
def validate (request : LifecycleRequest) : Except ProtocolError Unit := do
  validateSchema request.schema lifecycleRequestSchema
  validateVersion request.protocolVersion
  validateIdentifier request.requestId
  validateIdentifier request.sessionId
  validateIdentifier request.runId
  validateIdentifier request.authorizationId
  require request.sequenceShapeMatches (.new .invalidRequest none none)

end LifecycleRequest

/-! ### Supervisor status -/

/-- Canonical wire summary of a signed receipt chain's current head. -/
structure ReceiptHead where
  sequence : UInt64
  digest : String
deriving DecidableEq, Repr

/-- One serialized operation in progress. -/
structure PendingOperation where
  requestId : String
  action : PendingAction
  phase : PendingPhase
deriving DecidableEq, Repr

/-- Mechanical status authored by one Launch supervisor. -/
structure SupervisorStatus where
  schema : String
  protocolVersion : UInt32
  sessionId : String
  runId : String
  state : SessionState
  brokerConnection : BrokerConnection
  envelopeRevision : UInt64
  channelState : ChannelState
  launcherHead : Option ReceiptHead
  brokerHead : Option ReceiptHead
  pendingReceiptCount : UInt32
  pendingOperation : Option PendingOperation
  processExit : Option ProcessExitClassification
  lastFailure : Option ProtocolError
deriving DecidableEq, Repr

namespace SupervisorStatus

variable (status : SupervisorStatus)

/-- Where the broker's receipts end. -/
def currentSequence : Option UInt64 := status.brokerHead.map (·.sequence)

def invalidStatus : ProtocolError := .new .invalidRequest (some status.state) status.currentSequence

/-- How many signed receipts the broker has not acknowledged. -/
def signedGap : Except ProtocolError UInt64 :=
  match status.launcherHead, status.brokerHead with
  | none, none => .ok 0
  | some launcher, none =>
    if launcher.sequence.toNat + 1 < UInt64.size then .ok (launcher.sequence + 1)
    else .error status.invalidStatus
  | some launcher, some broker =>
    if launcher.sequence > broker.sequence then .ok (launcher.sequence - broker.sequence)
    else if launcher.sequence = broker.sequence ∧ launcher.digest = broker.digest then .ok 0
    else .error status.invalidStatus
  | none, some _ => .error status.invalidStatus

/-- Whether the receipts agree with the phase of a pending operation. -/
def phaseReceiptMatches (signedGap : UInt64) : PendingPhase → Bool
  | .applying => status.pendingReceiptCount.toUInt64 ≥ signedGap
  | .signing => status.pendingReceiptCount.toUInt64 > signedGap
  | .awaitingDurableAck => signedGap > 0 && status.pendingReceiptCount.toUInt64 ≥ signedGap
  | .activating => signedGap == 0 && status.launcherHead.isSome

/-- Whether the state agrees with a pending operation. -/
def pendingStateMatches (pending : PendingOperation) : Bool :=
  let terminatedAfterMechanic := status.state == .terminal && pending.phase != .applying
  match pending.action, pending.phase with
  | .launch, .applying => status.state == .starting
  | .launch, .signing | .launch, .awaitingDurableAck =>
    status.state == .starting || status.state == .running
  | .park, .applying => status.state == .running
  | .park, .signing | .park, .awaitingDurableAck =>
    status.state == .parked || terminatedAfterMechanic
  | .resume, .applying => status.state == .parked
  | .resume, .signing | .resume, .awaitingDurableAck =>
    status.state == .running || terminatedAfterMechanic
  | .resume, .activating => status.state == .running && status.channelState == .revoked
  | _, .activating => false
  | .interrupt, _ =>
    status.state == .running || status.state == .parked || terminatedAfterMechanic
  | .disposal, .applying => status.state == .running || status.state == .parked
  | .disposal, .signing | .disposal, .awaitingDurableAck => status.state == .terminal

/-- Whether the heads agree with a pending launch. -/
def launchHeadMatches (pending : PendingOperation) : Bool :=
  let launcher := status.launcherHead.map (·.sequence)
  let broker := status.currentSequence
  match status.state, pending.action, pending.phase with
  | .starting, .launch, .applying => launcher == none || launcher == some 0
  | .starting, .launch, .signing => launcher.isNone && broker.isNone
  | .starting, .launch, .awaitingDurableAck => launcher == some 0 && broker.isNone
  | .running, .launch, .signing => launcher == some 0 && broker == some 0
  | .running, .launch, .awaitingDurableAck => launcher == some 1 && broker == some 0
  | _, .launch, _ => false
  | _, _, _ => true

/-- Whether channels and launcher head agree with the state. -/
def stateMatches : Bool :=
  match status.state with
  | .starting => status.channelState == .disabled && status.launcherHead.all (·.sequence == 0)
  | .running => status.channelState != .closed && status.launcherHead.any fun head =>
      head.sequence > 0 || status.pendingOperation.any fun pending =>
        pending.action == .launch && pending.phase == .signing
  | .parked => (status.channelState == .disabled || status.channelState == .revoked) &&
      status.launcherHead.isSome
  | .terminal => status.channelState == .closed && (status.launcherHead.isSome ||
      (status.pendingOperation.isNone && status.lastFailure.isSome))

/-- The part of the shape that depends on whether an operation is pending. -/
def validatePending (signedGap : UInt64) : Except ProtocolError Unit :=
  match status.pendingOperation with
  | some pending => do
    validateIdentifier pending.requestId
    require (status.phaseReceiptMatches signedGap pending.phase) status.invalidStatus
    require (status.pendingStateMatches pending) status.invalidStatus
    require (status.launchHeadMatches pending) status.invalidStatus
  | none =>
    require (!(status.pendingReceiptCount == 0 && status.launcherHead != status.brokerHead))
      status.invalidStatus

/-- Cross-field state, head, channel and pending-operation invariants. -/
def validateStatusShape : Except ProtocolError Unit := do
  forM status.launcherHead fun head => validateDigest head.digest
  forM status.brokerHead fun head => validateDigest head.digest
  let gap ← status.signedGap
  require (status.pendingReceiptCount ≤ maxPendingReceipts &&
    status.pendingReceiptCount.toUInt64 ≥ gap) status.invalidStatus
  status.validatePending gap
  forM status.lastFailure ProtocolError.validate
  require (status.processExit.isNone || status.state == .terminal) status.invalidStatus
  require (status.stateMatches &&
    (status.brokerConnection == .connected || status.channelState != .enabled))
    status.invalidStatus

/-- Validate a closed supervisor status value. -/
def validate : Except ProtocolError Unit := do
  validateSchema status.schema supervisorStatusSchema
  validateVersion status.protocolVersion
  validateIdentifier status.sessionId
  validateIdentifier status.runId
  status.validateStatusShape

end SupervisorStatus

/-! ### Evaluation -/

/-- A completed request record supplied by the broker's durable lookup. -/
structure CompletedRequest where
  requestId : String
  requestDigest : String
  receipt : SignedReceipt
deriving DecidableEq, Repr

/-- Pure instructions for producing one authorized lifecycle receipt. -/
structure ReceiptIntent where
  sessionId : String
  runId : String
  authorizationId : String
  requestId : String
  requestDigest : String
  action : LifecycleAction
  envelopeRevision : UInt64
  sequence : UInt64
  previousReceiptDigest : String
  resultingState : SessionState
deriving DecidableEq, Repr

/-- Result of stateless request evaluation. -/
inductive RequestDisposition where
  | replay (receipt : SignedReceipt)
  | execute (intent : ReceiptIntent)
deriving DecidableEq, Repr

/-- The only legal public transition for a state and an action. -/
def transition : SessionState → LifecycleAction → Except ProtocolError SessionState
  | .running, .park | .parked, .interrupt => .ok .parked
  | .running, .interrupt | .parked, .resume => .ok .running
  | .running, .disposal | .parked, .disposal => .ok .terminal
  | state, _ => .error (.new .invalidTransition (some state) none)

/-- The outcome of an authorized action. -/
def LifecycleAction.outcome (action : LifecycleAction) (authorization : Authorization) :
    ReceiptOutcome :=
  match action with
  | .park => .park (.authorized authorization)
  | .resume => .resume authorization
  | .interrupt => .interrupt authorization
  | .disposal => .disposal (.authorized authorization)

def authorizedLifecycleOutcome (receipt : SignedReceipt) :
    Option (Authorization × LifecycleAction) :=
  match receipt.payload.outcome with
  | .park (.authorized authorization) => some (authorization, .park)
  | .resume authorization => some (authorization, .resume)
  | .interrupt authorization => some (authorization, .interrupt)
  | .disposal (.authorized authorization) => some (authorization, .disposal)
  | _ => none

section

variable (sha256 : Sha256) (fmt : JsonFormat)

/-- The request identity of a durable completed-request lookup. -/
def CompletedRequest.new (request : LifecycleRequest) (receipt : SignedReceipt) :
    CompletedRequest :=
  ⟨request.requestId, (request.digest sha256 fmt).toString, receipt⟩

/-- The receipt statement of an intent. -/
def ReceiptIntent.statement (intent : ReceiptIntent) (releaseId signingKeyId : String) :
    ReceiptPayload where
  schema := receiptSchema
  sessionId := intent.sessionId
  runId := intent.runId
  requestId := intent.requestId
  envelopeRevision := intent.envelopeRevision
  sequence := intent.sequence
  previousReceiptDigest := some intent.previousReceiptDigest
  releaseId := releaseId
  signingKeyId := signingKeyId
  outcome := intent.action.outcome ⟨intent.authorizationId, intent.requestId, intent.requestDigest⟩
  resultingState := intent.resultingState

/-- The canonical receipt statement after the mechanic succeeds. -/
def ReceiptIntent.receiptPayload (intent : ReceiptIntent) (releaseId signingKeyId : String) :
    Except ReceiptError ReceiptPayload := do
  let payload := intent.statement releaseId signingKeyId
  payload.validate sha256 fmt
  return payload

def validateCompleted (completed : CompletedRequest) (state : SessionState)
    (sequence : Option UInt64) : Except ProtocolError Unit := do
  let invalid := ProtocolError.new .receiptChainInvalid (some state) sequence
  (validateIdentifier completed.requestId).mapError fun _ => invalid
  (validateDigest completed.requestDigest).mapError fun _ => invalid
  (completed.receipt.validate sha256 fmt).mapError fun _ => invalid
  match authorizedLifecycleOutcome completed.receipt with
  | none => .error invalid
  | some (authorization, _) =>
    require (completed.receipt.payload.requestId == completed.requestId &&
      authorization.requestId == completed.requestId &&
      authorization.requestDigest == completed.requestDigest) invalid

def validateReplay (completed : CompletedRequest) (request : LifecycleRequest)
    (state : SessionState) (sequence : Option UInt64) : Except ProtocolError Unit := do
  let invalid := ProtocolError.new .receiptChainInvalid (some state) sequence
  let payload := completed.receipt.payload
  match authorizedLifecycleOutcome completed.receipt with
  | none => .error invalid
  | some (authorization, action) => do
    let expectedResult ← (transition request.expectedState request.action).mapError fun _ => invalid
    let expectedReceiptSequence := request.expectedReceiptSequence.bind fun value =>
      if value.toNat + 1 < UInt64.size then some (value + 1) else none
    require (payload.sessionId == request.sessionId && payload.runId == request.runId &&
      payload.envelopeRevision == request.envelopeRevision &&
      some payload.sequence == expectedReceiptSequence && action == request.action &&
      payload.resultingState == expectedResult &&
      authorization.authorizationId == request.authorizationId) invalid

/-- Evaluate one lifecycle mutation without changing supervisor or broker state. Exact replay
is decided before pending and compare-and-swap checks. -/
def evaluateRequest (status : SupervisorStatus) (completed : Option CompletedRequest)
    (request : LifecycleRequest) : Except ProtocolError RequestDisposition := do
  status.validate
  request.validate
  let error code := ProtocolError.new code (some status.state) status.currentSequence
  require (request.sessionId == status.sessionId && request.runId == status.runId)
    (error .subjectMismatch)
  match completed with
  | some completed => do
    require (completed.requestId == request.requestId) (error .invalidRequest)
    validateCompleted sha256 fmt completed status.state status.currentSequence
    if completed.requestDigest == (request.digest sha256 fmt).toString then
      validateReplay completed request status.state status.currentSequence
      return .replay completed.receipt
    else .error (error .requestIdConflict)
  | none => do
    require status.pendingOperation.isNone (error .operationPending)
    require (!(request.action == .resume &&
      (status.pendingReceiptCount != 0 || status.launcherHead != status.brokerHead)))
      (error .durabilityUnavailable)
    require (request.expectedState == status.state) (error .stateMismatch)
    require (request.expectedReceiptSequence == status.currentSequence)
      (error .receiptSequenceMismatch)
    require (request.envelopeRevision == status.envelopeRevision) (error .envelopeRevisionMismatch)
    let resultingState ← (transition status.state request.action).mapError
      fun _ => error .invalidTransition
    match status.launcherHead with
    | none => .error (.new .receiptSequenceMismatch (some status.state) none)
    | some head =>
      if head.sequence.toNat + 1 < UInt64.size then
        return .execute {
          sessionId := request.sessionId
          runId := request.runId
          authorizationId := request.authorizationId
          requestId := request.requestId
          requestDigest := (request.digest sha256 fmt).toString
          action := request.action
          envelopeRevision := request.envelopeRevision
          sequence := head.sequence + 1
          previousReceiptDigest := head.digest
          resultingState }
      else
        .error (.new .receiptSequenceMismatch (some status.state) (some head.sequence))

end
end Louiselm.Launch.Protocol
