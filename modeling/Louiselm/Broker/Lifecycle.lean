import Louiselm.Broker.RecordFiles
import Louiselm.Provider.Budget

/-!
# Lifecycle requests at the broker

`skills-core/src/broker/lifecycle.rs`, the taint of `skill_quarantine.rs` that it reads, and
`lifecycle_service.rs`: who may ask for which action, what is on record of the requests of each
Session, the path of one request until it is sent, and the actions that a status offers. The
supervisor's answers and the clock readings are given. The packets that arrive before an answer,
the trust in the signed history and the preparation of a guarded Resume are left out.
-/

namespace Louiselm.Broker.Lifecycle
open Base Canonical Launch
open Launch.Protocol (CompletedRequest ErrorCode LaunchAuthorization LifecycleAction
  LifecycleRequest ProtocolError ReceiptHead RequestDisposition SupervisorStatus
  authorizedLifecycleOutcome evaluateRequest transition)
open Base.Program (query probe ofExcept fail)
open Broker.Authorization (Records Stored readRecord)
open Provider

/-- Most request files of a Session that are looked through. -/
def maxRequests : Nat := 4096

/-! ### Callers -/

/-- An authenticated caller with its current scope. -/
inductive LifecycleCaller where
  | operator (uid : UInt32)
  | coordinator (sessionId runId : String) (descendants : List String)
      (envelopeRevision expiresAtMs : UInt64)
  | providerBudget (runId : String)
  | skillQuarantine (runId : String)
  | agent
deriving DecidableEq, Repr

namespace LifecycleCaller

/-- The one scope rule of requests and of status. -/
def allows (targetSession targetRun : String) (targetRevision : UInt64) (action : LifecycleAction)
    (launch : LaunchAuthorization) (nowMs : UInt64) : LifecycleCaller → Bool
  | operator uid => uid == launch.controllerUid
  | coordinator sessionId runId descendants envelopeRevision expiresAtMs =>
    isRecordIdentifier sessionId && sessionId != targetSession && runId == targetRun &&
      envelopeRevision == targetRevision && nowMs < expiresAtMs && action != .resume &&
      descendants.contains targetSession
  | providerBudget runId => runId == targetRun && action == .park
  | skillQuarantine runId => runId == targetRun && action == .park
  | agent => false

variable (caller : LifecycleCaller)

def permits (launch : LaunchAuthorization) (request : LifecycleRequest) (nowMs : UInt64) : Bool :=
  caller.allows request.sessionId request.runId request.envelopeRevision request.action launch nowMs

/-- Put actions into the order of their declaration. -/
def sortActions (actions : List LifecycleAction) : List LifecycleAction :=
  actions.insertionSort fun a b => a.ctorIdx ≤ b.ctorIdx

/-- The actions that the caller may request right now. -/
def allowedActions (launch : LaunchAuthorization) (state : SessionState) (resumeWithheld : Bool)
    (nowMs : UInt64) : List LifecycleAction :=
  let actions := [LifecycleAction.park, .resume, .interrupt, .disposal].filter fun action =>
    (transition state action).isOk && !(resumeWithheld && action == .resume) &&
      caller.allows launch.sessionId launch.runId launch.envelopeRevision action launch nowMs
  sortActions actions

def identity : LifecycleCaller → String
  | operator uid => "operator:" ++ toString uid
  | coordinator sessionId .. => "coordinator:" ++ sessionId
  | providerBudget _ => "provider-budget"
  | skillQuarantine _ => "skill-quarantine"
  | agent => "agent"

end LifecycleCaller

/-! ### Records -/

structure AcceptedRequest where
  request : LifecycleRequest
  caller : String
deriving DecidableEq, Repr

inductive QuarantineMarker where
  | generic (schema : String)
  | skillTaint (schema digest : String)
deriving DecidableEq, Repr

def quarantineMarkerSchema : String := "louiselm.quarantine-marker/1"

def sessionTaintSchema : String := "louiselm.session-taint/1"

/-- Source of a Session output taint. -/
inductive TaintSource where
  | quarantine (digest : String)
  | evidenceUnreadable
deriving DecidableEq, Repr

/-- Immutable provenance of a quarantined Session. -/
structure SessionTaint where
  schema : String
  sessionId : String
  runId : String
  skillGenerationId : String
  source : TaintSource
  detectedAtMs : UInt64
  digest : String
deriving DecidableEq, Repr

def TaintSource.toJson : TaintSource → Json
  | quarantine digest => .obj [("kind", .str "quarantine"), ("digest", .str digest)]
  | evidenceUnreadable => .obj [("kind", .str "evidence_unreadable")]

/-- The hash and the JSON text of the broker, and the lengths of its files. -/
structure Format where
  sha256 : Sha256
  json : JsonFormat
  acceptedBytes : AcceptedRequest → Nat
  errorBytes : ProtocolError → Nat
  markerBytes : QuarantineMarker → Nat
  taintBytes : SessionTaint → Nat

/-- What the broker keeps in the directory of one Session. -/
structure SessionRecords where
  requests : Records AcceptedRequest
  failures : Records ProtocolError
  quarantined : Option (Stored QuarantineMarker)
  taint : Option (Stored SessionTaint)
  taintReference : Option (Stored QuarantineMarker)

/-- The durable state of the broker: the directories of Sessions, the Provider ledgers of Runs
and the receipt chains. -/
structure BrokerState where
  sessions : String → SessionRecords
  ledgers : String → Budget.Ledger
  receipts : Files

section

variable (format : Format)

/-- The name of a request's files. -/
def requestName (requestId : String) : String := (Digest.of format.sha256 (utf8 requestId)).hex

def requests (sessionId : String) : Directory BrokerState BrokerError AcceptedRequest where
  files := fun broker => (broker.sessions sessionId).requests
  put := fun requests broker => { broker with
    sessions := Function.update broker.sessions sessionId
      { broker.sessions sessionId with requests } }
  bytes := format.acceptedBytes
  lift := id
  files_put := fun _ _ => by simp
  put_put := fun _ _ _ => by simp

def failures (sessionId : String) : Directory BrokerState BrokerError ProtocolError where
  files := fun broker => (broker.sessions sessionId).failures
  put := fun failures broker => { broker with
    sessions := Function.update broker.sessions sessionId
      { broker.sessions sessionId with failures } }
  bytes := format.errorBytes
  lift := id
  files_put := fun _ _ => by simp
  put_put := fun _ _ _ => by simp

/-! ### Quarantine -/

def readFile {α : Type} (bytes : α → Nat) : Option (Stored α) → Except BrokerError (Option α)
  | none => .ok none
  | some stored => (stored.read bytes).map some

def SessionTaint.bodyDigest (taint : SessionTaint) : String :=
  (Digest.of format.sha256 (utf8 (format.json.print (.arr [.str taint.schema, .str taint.sessionId,
    .str taint.runId, .str taint.skillGenerationId, taint.source.toJson,
    .num (.nat taint.detectedAtMs)])))).toString

def SessionTaint.validate (taint : SessionTaint) (sessionId : String) : Except BrokerError Unit :=
  require (taint.schema == sessionTaintSchema && taint.sessionId == sessionId &&
    isRecordIdentifier taint.sessionId && isRecordIdentifier taint.runId &&
    (Digest.parse taint.skillGenerationId).isOk && taint.detectedAtMs != 0 &&
    (match taint.source with
      | .quarantine digest => (Digest.parse digest).isOk
      | .evidenceUnreadable => true) &&
    taint.digest == taint.bodyDigest format) .storage

def QuarantineMarker.validate : QuarantineMarker → Except BrokerError Unit
  | generic schema => require (schema == quarantineMarkerSchema) .storage
  | skillTaint schema digest => do
    require (schema == quarantineMarkerSchema) .storage
    require (Digest.parse digest).isOk .storage

def readMarker (stored : Option (Stored QuarantineMarker)) :
    Except BrokerError (Option QuarantineMarker) := do
  let marker ← readFile format.markerBytes stored
  forM marker QuarantineMarker.validate
  return marker

def skillTaint (broker : BrokerState) (sessionId : String) :
    Except BrokerError (Option SessionTaint) := do
  require (isRecordIdentifier sessionId) .invalidGrant
  let taint ← readFile format.taintBytes (broker.sessions sessionId).taint
  forM taint (·.validate format sessionId)
  return taint

/-- A reference to a taint must be to the one that is there. -/
def QuarantineMarker.refersTo (taint : Option SessionTaint) : QuarantineMarker → Bool
  | generic _ => true
  | skillTaint _ digest => taint.map (·.digest) == some digest

/-- Whether quarantine prohibits capability enablement. -/
def isQuarantined (broker : BrokerState) (sessionId : String) : Except BrokerError Bool := do
  require (isRecordIdentifier sessionId) .invalidGrant
  let taint ← skillTaint format broker sessionId
  let marker ← readMarker format (broker.sessions sessionId).quarantined
  let reference ← readMarker format (broker.sessions sessionId).taintReference
  require (marker.all (·.refersTo taint) && reference.all (·.refersTo taint)) .storage
  match reference with
  | some (.generic _) => .error .storage
  | _ => return marker.isSome || taint.isSome

/-! ### Outcomes on record -/

/-- The recorded refusal of a request. -/
def failure (broker : BrokerState) (request : LifecycleRequest) :
    Except BrokerError (Option ProtocolError) := do
  let error ← readRecord format.errorBytes (broker.sessions request.sessionId).failures
    (requestName format request.requestId)
  forM error fun error => error.validate.mapError .policy
  return error

/-- One file of the scan for a request without an outcome. -/
def checkOutcome (broker : BrokerState) (receipts : List SignedReceipt)
    (item : (String × Stored AcceptedRequest) × Nat) : Except BrokerError Unit := do
  require (decide (item.2 < maxRequests)) .storage
  let accepted ← item.1.2.read format.acceptedBytes
  accepted.request.validate.mapError .policy
  if receipts.any (·.payload.requestId == accepted.request.requestId) then return ()
  let failed ← failure format broker accepted.request
  require failed.isSome (.policy (.new .operationPending none none))

/-- Refuse where a request of the Session has no outcome yet. -/
def checkPending (broker : BrokerState) (sessionId : String) (receipts : List SignedReceipt) :
    Except BrokerError Unit :=
  (broker.sessions sessionId).requests.zipIdx.forM (checkOutcome format broker receipts)

/-- Persist a supervisor's refusal before it is returned. -/
def recordFailure (request : LifecycleRequest) (error : ProtocolError) :
    Program BrokerState BrokerError Unit := do
  ofExcept (request.validate.mapError .policy)
  ofExcept (error.validate.mapError .policy)
  let name := requestName format request.requestId
  match ← (requests format request.sessionId).read name with
  | none => fail .invalidGrant
  | some accepted => do
    ofExcept (require (accepted.request == request) .invalidGrant)
    match ← query (failure format · request) .storage with
    | some stored => do
      ofExcept (require (stored == error) .invalidGrant)
      probe .storage
      probe .storage
    | none => do
      probe .storage
      probe .storage
      (failures format request.sessionId).create name error

/-! ### Preparing a request -/

/-- Quarantine keeps a Resume from being executed. -/
def checkQuarantine (request : LifecycleRequest) (refusal : BrokerError) :
    Program BrokerState BrokerError Unit := do
  let quarantined ← query (isQuarantined format · request.sessionId) .storage
  ofExcept (require (!quarantined) refusal)

/-- The error of a request that another one without an outcome keeps back. -/
def pendingError (refusal : BrokerError) : BrokerError → BrokerError
  | .policy _ => refusal
  | other => other

/-- Keep the request that is there, or write it where no other one is without an outcome. -/
def reserve (caller : LifecycleCaller) (request : LifecycleRequest) (receipts : List SignedReceipt)
    (refusal : BrokerError) : Option AcceptedRequest → Program BrokerState BrokerError Unit
  | some _ => do
    -- an earlier write may have succeeded before its durability check failed
    probe .storage
    probe .storage
  | none => do
    query (fun broker => (checkPending format broker request.sessionId receipts).mapError
      (pendingError refusal)) .storage
    probe .storage
    probe .storage
    probe .storage
    (requests format request.sessionId).create (requestName format request.requestId)
      ⟨request, caller.identity⟩

/-- A refusal that shows the state and the sequence of a status. -/
def refusal (status : SupervisorStatus) (code : ErrorCode) : BrokerError :=
  .policy (.new code (some status.state) status.currentSequence)

/-- What is made of an authorized request once the store is locked. -/
def prepareLocked (status : SupervisorStatus) (caller : LifecycleCaller)
    (request : LifecycleRequest)
    (receipts : List SignedReceipt) : Program BrokerState BrokerError RequestDisposition := do
  let accepted ← (requests format request.sessionId).read (requestName format request.requestId)
  ofExcept (require (accepted.all (· == ⟨request, caller.identity⟩))
    (refusal status .requestIdConflict))
  let completed := (receipts.find? (·.payload.requestId == request.requestId)).map
    (CompletedRequest.new format.sha256 format.json request)
  ofExcept (require (!(completed.isSome && accepted.isNone)) (refusal status .requestIdConflict))
  let failed ← query (failure format · request) .storage
  ofExcept (failed.elim (.ok ()) (.error ∘ .policy))
  (if completed.isNone && request.action == .resume then
    checkQuarantine format request (refusal status .invalidRequest) else pure ())
  let disposition ← ofExcept
    ((evaluateRequest format.sha256 format.json status completed request).mapError .policy)
  reserve format caller request receipts (refusal status .operationPending) accepted
  return disposition

/-- Authorize and durably reserve one exact request before it is sent. -/
def prepare (launch : LaunchAuthorization) (status : SupervisorStatus) (caller : LifecycleCaller)
    (request : LifecycleRequest) (nowMs : UInt64) (receipts : List SignedReceipt) :
    Program BrokerState BrokerError RequestDisposition := do
  ofExcept (launch.validate.mapError .policy)
  ofExcept (status.validate.mapError .policy)
  ofExcept (request.validate.mapError .policy)
  ofExcept (require (launch.sessionId == request.sessionId && launch.runId == request.runId)
    (refusal status .subjectMismatch))
  ofExcept (require (launch.envelopeRevision == request.envelopeRevision)
    (refusal status .envelopeRevisionMismatch))
  ofExcept (require (caller.permits launch request nowMs) (refusal status .invalidRequest))
  prepareLocked format status caller request receipts

/-- An authorized outcome must answer the exact request that was accepted. -/
def checkReceipt (broker : BrokerState) (receipt : SignedReceipt) : Except BrokerError Unit := do
  (receipt.validate format.sha256 format.json).mapError .receiptRefused
  match authorizedLifecycleOutcome receipt with
  | none => return ()
  | some (authority, action) => do
    let accepted ← readRecord format.acceptedBytes
      (broker.sessions receipt.payload.sessionId).requests (requestName format authority.requestId)
    match accepted with
    | none => .error .receiptUnauthorized
    | some ⟨request, _⟩ => do
      require (request.authorizationId == authority.authorizationId &&
        request.requestId == authority.requestId &&
        (request.digest format.sha256 format.json).toString == authority.requestDigest &&
        request.action == action && request.sessionId == receipt.payload.sessionId &&
        request.runId == receipt.payload.runId &&
        request.envelopeRevision == receipt.payload.envelopeRevision) .receiptUnauthorized
      let failed ← failure format broker request
      require failed.isNone .receiptUnauthorized

end

/-! ### The Session's worker -/

section

variable (format : Format) (store : ReceiptStore)

/-- The Session's stored receipts. -/
def chain (sessionId : String) : Program BrokerState BrokerError (List SignedReceipt) :=
  query (fun broker => store.chain format.sha256 format.json broker.receipts sessionId) .storage

/-- The refusals of the Provider ledger that its hold can meet. -/
def ledgerError : Budget.BrokerError → BrokerError
  | .invalidGrant => .invalidGrant
  | _ => .storage

/-- The hold that stops a Run's Provider requests. -/
def currentHold (broker : BrokerState) (runId : String) :
    Except BrokerError (Option Budget.ProviderHold) :=
  Except.mapError ledgerError do
    let extensions ← Budget.extensionsLocked runId (broker.ledgers runId)
    Budget.readHold runId (broker.ledgers runId) extensions.length

def held (runId : String) : Program BrokerState BrokerError (Option Budget.ProviderHold) :=
  query (currentHold · runId) .storage

/-- The supervisor's answer, held against the durable chain. -/
def checkStatus (broker : BrokerState) (launch : LaunchAuthorization) (answer : SupervisorStatus) :
    Except BrokerError Unit := do
  answer.validate.mapError .policy
  require (answer.sessionId == launch.sessionId && answer.runId == launch.runId &&
    answer.envelopeRevision == launch.envelopeRevision) .invalidGrant
  let head ← store.head format.sha256 format.json broker.receipts launch.sessionId
  require (answer.brokerHead == head) .invalidGrant
  let reached ← store.state format.sha256 format.json broker.receipts launch.sessionId
  require (!(reached == some .terminal && answer.state != .terminal)) .invalidGrant

/-- Ask the supervisor for its status, which it answers as given. -/
def supervisorStatus (launch : LaunchAuthorization) (answer : SupervisorStatus) :
    Program BrokerState BrokerError SupervisorStatus := do
  query (checkStatus format store · launch answer) .storage
  return answer

/-- The clock of one lifecycle request: when it came in, when it was prepared, and when the
caller's scope was looked at again. -/
structure Readings where
  receivedMs : UInt64
  preparedMs : UInt64
  permittedMs : UInt64
deriving DecidableEq, Repr

def replayedReceipt : RequestDisposition → Option SignedReceipt
  | .replay receipt => some receipt
  | .execute _ => none

/-- A held Run may read an outcome, not execute a Resume. -/
def checkHold (request : LifecycleRequest) (recorded : List SignedReceipt) :
    Program BrokerState BrokerError Unit := do
  let hold ← held request.runId
  if hold.isSome && !(recorded.any (·.payload.requestId == request.requestId)) then do
    let failed ← query (failure format · request) .storage
    ofExcept (require failed.isSome (.policy (.new .invalidRequest none none)))
  else return ()

/-- A prepared request is answered from the record, or its caller's scope is looked at again. -/
def dispatch (launch : LaunchAuthorization) (status : SupervisorStatus) (caller : LifecycleCaller)
    (request : LifecycleRequest) (nowMs : UInt64) (disposition : RequestDisposition) :
    Program BrokerState BrokerError RequestDisposition :=
  if (replayedReceipt disposition).isSome && request.action != .resume then return disposition
  else do
    -- a replayed Resume goes on to ask whether its activation is over
    ofExcept (require (!((replayedReceipt disposition).isSome &&
      status.pendingOperation.any (·.requestId == request.requestId)))
      (refusal status .operationPending))
    if caller.permits launch request nowMs then return disposition
    else do
      let error := ProtocolError.new .invalidRequest (some status.state) status.currentSequence
      recordFailure format request error
      fail (.policy error)

/-- One lifecycle request until it is answered from the record or ready to be sent. -/
def requestLifecycle (launch : LaunchAuthorization) (caller : LifecycleCaller)
    (request : LifecycleRequest) (answer : SupervisorStatus) (clock : Readings) :
    Program BrokerState BrokerError RequestDisposition := do
  ofExcept (request.validate.mapError .policy)
  ofExcept (require (caller.permits launch request clock.receivedMs)
    (.policy (.new .invalidRequest none none)))
  let recorded ← chain format store launch.sessionId
  (if request.action == .resume then checkHold format request recorded else pure ())
  let status ← supervisorStatus format store launch answer
  let receipts ← chain format store launch.sessionId
  let disposition ← prepare format launch status caller request clock.preparedMs receipts
  dispatch format launch status caller request clock.permittedMs disposition

/-! ### Status -/

/-- A status as its caller is shown it: the supervisor's facts and the actions on offer. -/
structure SessionStatus where
  supervisor : SupervisorStatus
  allowedActions : List LifecycleAction
deriving DecidableEq, Repr

/-- The actions are strictly ascending. -/
def ascending : List LifecycleAction → Bool
  | a :: b :: rest => decide (a.ctorIdx < b.ctorIdx) && ascending (b :: rest)
  | _ => true

def SessionStatus.validate (status : SessionStatus) : Except ProtocolError Unit := do
  status.supervisor.validate
  require (!(status.supervisor.pendingOperation.isSome && !status.allowedActions.isEmpty))
    status.supervisor.invalidStatus
  require (ascending status.allowedActions &&
    status.allowedActions.all fun action => (transition status.supervisor.state action).isOk)
    status.supervisor.invalidStatus

def SessionStatus.compose (supervisor : SupervisorStatus) (allowedActions : List LifecycleAction) :
    Except ProtocolError SessionStatus := do
  supervisor.validate
  let allowedActions := LifecycleCaller.sortActions allowedActions
  require (decide (allowedActions.IsChain (· ≠ ·))) supervisor.invalidStatus
  let status : SessionStatus := { supervisor, allowedActions }
  status.validate
  return status

/-- The status of a Session for one caller. Its posture, its admission and its recovery come from
elsewhere and are not shown here; what the supervisor and the quarantine say may refuse them. -/
def sessionStatus (launch : LaunchAuthorization) (caller : LifecycleCaller)
    (answer : SupervisorStatus) (nowMs : UInt64)
    (evidence : SupervisorStatus → Bool → Except BrokerError Unit) :
    Program BrokerState BrokerError SessionStatus := do
  let status ← supervisorStatus format store launch answer
  let quarantined ← query (isQuarantined format · launch.sessionId) .storage
  let hold ← held launch.runId
  let actions := if status.pendingOperation.isSome then [] else
    caller.allowedActions launch status.state (quarantined || hold.isSome) nowMs
  ofExcept (evidence status quarantined)
  ofExcept ((SessionStatus.compose status actions).mapError .policy)

end
end Louiselm.Broker.Lifecycle
