import Louiselm.Broker.Permissions
import Louiselm.Broker.Projections
import Louiselm.Broker.RecordFiles

/-!
# Skill requests and their outcomes

`skills-core/src/broker/skill_requests.rs` over `skill_request.rs`: what a Session asks to have
admitted, the one outcome that it gets, and the condition that the outbox is told of in
between. The evidence of an Admission is what its source returns to a call, and so is the reply
of `getrandom`. The staging files beside the observations of Runs are left out.
-/

namespace Louiselm.Broker.SkillRequests
open Base Canonical
open Base.Program (query write ofExcept fail)
open Broker.Authorization (Records Stored)

/-! ### Requests -/

/-- Whose request it is, as the broker's own authorization has it. -/
structure Binding where
  sessionId : String
  runId : String
  envelopeRevision : UInt64
  controllerUid : UInt32
deriving DecidableEq, Repr

structure Record where
  binding : Binding
  request : SkillRequest
  operationId : String
  createdAtMs : UInt64
deriving DecidableEq, Repr

namespace Record

def subject (record : Record) : AttentionSubject :=
  match record.request.subject with
  | .session => .session record.binding.sessionId
  | .run => .run record.binding.runId
  | .supply => .supply (toString record.binding.controllerUid)

def condition (record : Record) : AttentionCondition where
  linkedRunId := none
  subject := record.subject
  operationId := record.operationId
  createdAtMs := record.createdAtMs
  reason := .skillApprovalPending

def valid (record : Record) : Bool :=
  record.request.valid && 0 < record.createdAtMs && record.binding.controllerUid != 0 &&
    isRecordIdentifier record.binding.sessionId && isRecordIdentifier record.binding.runId &&
    canonicalUuid record.operationId &&
    (record.request.subject != .run || canonicalUuid record.binding.runId)

end Record

/-- Durable request outcome; none of them changes launch or supply authority. -/
inductive SkillRequestOutcome where
  | pending
  | approved
  | rejected
  | cancelled
deriving DecidableEq, Repr

/-- What is returned to the requesting subject. -/
structure SkillRequestStatus where
  requestId : String
  operationId : String
  subject : SkillSubject
  sessionId : String
  runId : String
  outcome : SkillRequestOutcome
  packages : List String
  agents : List String
  admission : Option String
deriving DecidableEq, Repr

def Record.status (record : Record) (outcome : SkillRequestOutcome) (admission : Option String) :
    SkillRequestStatus where
  requestId := record.request.requestId
  operationId := record.operationId
  subject := record.request.subject
  sessionId := record.binding.sessionId
  runId := record.binding.runId
  outcome := outcome
  packages := record.request.packages
  agents := record.request.agents
  admission := admission

/-- The lifecycle of a Run in the capture service's store. -/
inductive RunState where
  | admitted
  | active
  | parked
  | coldParked
  | resuming
  | disposed
deriving DecidableEq, Repr

/-- A Run as it was observed, with the revision of its own record. -/
structure RunLifecycle where
  runId : String
  revision : UInt64
  state : RunState
deriving DecidableEq, Repr

/-- What the evidence says of an operation and its request: the Generation that admits it. -/
abbrev AdmissionSource : Type := String → SkillRequest → Except BrokerError (Option String)

/-! ### The store -/

/-- The files of the five directories under their names, and the outbox. -/
structure Store where
  requests : Records Record
  outcomes : Records SkillRequestOutcome
  ended : Records AttentionSubject
  runs : Records RunLifecycle
  admissions : Records String
  outbox : Outbox

/-- A store that was opened on nothing. -/
def Store.empty : Store := ⟨[], [], [], [], [], .empty⟩

/-- The digest, and the lengths of the files. -/
structure Format where
  sha256 : Sha256
  recordBytes : Record → Nat
  outcomeBytes : SkillRequestOutcome → Nat
  subjectBytes : AttentionSubject → Nat
  runBytes : RunLifecycle → Nat
  digestBytes : String → Nat
  entryBytes : Projection → Nat

section

variable (format : Format)

def requestFiles : Directory Store BrokerError Record where
  files := (·.requests)
  put := fun requests s => { s with requests }
  bytes := format.recordBytes
  lift := id
  files_put := fun _ _ => rfl
  put_put := fun _ _ _ => rfl

def outcomeFiles : Directory Store BrokerError SkillRequestOutcome where
  files := (·.outcomes)
  put := fun outcomes s => { s with outcomes }
  bytes := format.outcomeBytes
  lift := id
  files_put := fun _ _ => rfl
  put_put := fun _ _ _ => rfl

def endedFiles : Directory Store BrokerError AttentionSubject where
  files := (·.ended)
  put := fun ended s => { s with ended }
  bytes := format.subjectBytes
  lift := id
  files_put := fun _ _ => rfl
  put_put := fun _ _ _ => rfl

def runFiles : Directory Store BrokerError RunLifecycle where
  files := (·.runs)
  put := fun runs s => { s with runs }
  bytes := format.runBytes
  lift := id
  files_put := fun _ _ => rfl
  put_put := fun _ _ _ => rfl

def admissionFiles : Directory Store BrokerError String where
  files := (·.admissions)
  put := fun admissions s => { s with admissions }
  bytes := format.digestBytes
  lift := id
  files_put := fun _ _ => rfl
  put_put := fun _ _ _ => rfl

def mailbox : Mailbox Store where
  outbox := (·.outbox)
  put := fun outbox s => { s with outbox }
  bytes := format.entryBytes
  outbox_put := fun _ _ => rfl
  put_put := fun _ _ _ => rfl
  put_outbox := fun _ => rfl

def requestPath (session request : String) : String :=
  (Digest.of format.sha256 (utf8 (session ++ "\x00" ++ request))).hex ++ ".json"

def outcomePath (operation : String) : String := operation ++ ".json"

def runPath (run : String) : String := run ++ ".json"

def endedPath (subject : AttentionSubject) : String :=
  (Digest.of format.sha256 (utf8 (subject.parts.1 ++ ":" ++ subject.parts.2))).hex ++ ".json"

/-- Make a file durable that is there already. -/
def syncFile : Program Store BrokerError Unit := query (fun _ => .ok ()) .storage

end

/-! ### Reading -/

section

variable (format : Format)

/-- A request under its name. -/
def checkRecord (item : String × Record) : Except BrokerError Record := do
  require (item.2.valid &&
    item.1 == requestPath format item.2.binding.sessionId item.2.request.requestId) .storage
  return item.2

/-- Every request there is. -/
def records : Program Store BrokerError (List Record) := do
  query (fun s : Store => require (decide (s.requests.length ≤ 4096)) .storage) .storage
  let items ← (requestFiles format).scan
  ofExcept (items.mapM (checkRecord format))

def record (operationId : String) : Program Store BrokerError Record := do
  match (← records format).find? (·.operationId == operationId) with
  | some record => return record
  | none => fail .invalidGrant

/-- The status of a request. An Admission is reported with the digest that was recorded. -/
def result (record : Record) : Program Store BrokerError SkillRequestStatus := do
  match ← (outcomeFiles format).read (outcomePath record.operationId) with
  | none => return record.status .pending none
  | some .pending => fail .invalidGrant
  | some .approved => do
    syncFile
    match ← (admissionFiles format).read record.operationId with
    | none => fail .invalidGrant
    | some digest => do
      ofExcept (require (Digest.parse digest).toOption.isSome .invalidGrant)
      syncFile
      return record.status .approved (some digest)
  | some outcome => do
    syncFile
    return record.status outcome none

/-- Whether a subject has its end marker. A supply never ends. -/
def ended (subject : AttentionSubject) : Program Store BrokerError Bool := do
  if subject.isSupply then return false
  else
    match ← (endedFiles format).read (endedPath format subject) with
    | none => return false
    | some prior => do
      ofExcept (require (prior == subject) .invalidGrant)
      return true

/-! ### Settling -/

def finishRecord (record : Record) (outcome : SkillRequestOutcome) :
    Program Store BrokerError Unit := do
  match ← (outcomeFiles format).read (outcomePath record.operationId) with
  | some prior => do
    ofExcept (require (prior == outcome) .requestMismatch)
    syncFile
  | none => (outcomeFiles format).create (outcomePath record.operationId) outcome

/-- The change that opens the condition of a request. -/
def Record.pendingItem (record : Record) : Named :=
  ("skill-pending-" ++ record.operationId, .upsert record.condition)

/-- The change that clears it. -/
def Record.finishedItem (record : Record) : Named :=
  ("skill-finished-" ++ record.operationId, .clear record.condition)

/-- Tell the outbox of a request, and of its end where it has one. -/
def project (record : Record) : Program Store BrokerError Unit := do
  (mailbox format).send record.pendingItem
  let status ← result format record
  if status.outcome ≠ .pending then (mailbox format).send record.finishedItem
  else return

/-- Cancel a request that has no outcome. -/
def cancel (record : Record) : Program Store BrokerError Unit := do
  let status ← result format record
  if status.outcome = .pending then finishRecord format record .cancelled
  else return

/-! ### Calls -/

/-- The Run of a request for one must have been observed, and not as disposed. -/
def checkRun (binding : Binding) (request : SkillRequest) : Program Store BrokerError Unit := do
  if request.subject ≠ .run then return
  else match ← (runFiles format).read (runPath binding.runId) with
  | none => fail .invalidGrant
  | some observed => ofExcept (require (!(observed.runId != binding.runId ||
      observed.revision == 0 || observed.state == .disposed)) .invalidGrant)

/-- A new request is valid, neither its Session nor its subject has ended, there is room for it,
and its Run is there. -/
def checkNew (record : Record) : Program Store BrokerError Unit := do
  ofExcept (require record.valid .invalidGrant)
  let sessionEnded ← ended format (.session record.binding.sessionId)
  ofExcept (require (!sessionEnded) .invalidGrant)
  let subjectEnded ← ended format record.subject
  ofExcept (require (!subjectEnded) .invalidGrant)
  let held ← records format
  ofExcept (require (decide (held.length < 4096)) .invalidGrant)
  checkRun format record.binding record.request

def accept (binding : Binding) (request : SkillRequest) (permission : Option ApprovedSkillRequests)
    (nowMs : UInt64) (operationUuid : Except BrokerError String) :
    Program Store BrokerError SkillRequestStatus := do
  ofExcept (require (permission.any (·.permits request nowMs)) .invalidGrant)
  let path := requestPath format binding.sessionId request.requestId
  match ← (requestFiles format).read path with
  | some record => do
    ofExcept (require (record.valid && record.binding == binding && record.request == request)
      .requestMismatch)
    syncFile
    project format record
    result format record
  | none => do
    let operationId ← ofExcept operationUuid
    let record : Record := ⟨binding, request, operationId, nowMs⟩
    checkNew format record
    (requestFiles format).create path record
    project format record
    result format record

/-- The operator's answer. -/
def finish (operatorUid : UInt32) (operationId : String) (outcome : SkillRequestOutcome) :
    Program Store BrokerError SkillRequestStatus := do
  let record ← record format operationId
  ofExcept (require (operatorUid == record.binding.controllerUid &&
    (outcome == .rejected || outcome == .cancelled)) .controllerMismatch)
  finishRecord format record outcome
  project format record
  result format record

/-- Record the Generation that admits a request. -/
def recordAdmission (record : Record) (generation : String) : Program Store BrokerError Unit := do
  match ← (admissionFiles format).read record.operationId with
  | some prior => do
    ofExcept (require (prior == generation) .requestMismatch)
    syncFile
  | none => (admissionFiles format).create record.operationId generation

/-- The outcome of a request that has none, from the evidence there is. -/
def settle (record : Record) (source : AdmissionSource) : Program Store BrokerError Unit := do
  let isEnded ← ended format record.subject
  if isEnded then finishRecord format record .cancelled
  else
    match ← ofExcept (source record.operationId record.request) with
    | some generation => do
      recordAdmission format record generation
      finishRecord format record .approved
    | none => return

def resolve (record : Record) (source : AdmissionSource) : Program Store BrokerError Unit := do
  let status ← result format record
  if status.outcome ≠ .pending then project format record
  else
    settle format record source
    project format record

/-- Leave the end marker of a subject. -/
def markEnded (subject : AttentionSubject) : Program Store BrokerError Unit := do
  match ← (endedFiles format).read (endedPath format subject) with
  | some prior => do
    ofExcept (require (prior == subject) .invalidGrant)
    syncFile
  | none => (endedFiles format).create (endedPath format subject) subject

/-- End a subject and cancel its requests. -/
def endLocked (subject : AttentionSubject) : Program Store BrokerError Unit := do
  ofExcept (require (!subject.isSupply) .invalidGrant)
  markEnded format subject
  let all ← records format
  (all.filter fun record => record.subject == subject).forM fun record => do
    cancel format record
    project format record

def endSubject (subject : AttentionSubject) : Program Store BrokerError Unit :=
  endLocked format subject

/-- Publish the terminal receipt of a subject, then end it. -/
def terminalReceipt (subject : AttentionSubject) (append : Except BrokerError Unit) :
    Program Store BrokerError Unit := do
  ofExcept append
  endLocked format subject

/-- End the Run of a request where it was observed as disposed. -/
def endDisposed (record : Record) : Program Store BrokerError Unit := do
  match record.subject with
  | .run id => do
    let observed ← (runFiles format).read (runPath id)
    if observed.any fun fact =>
        fact.runId == id && 0 < fact.revision && fact.state == .disposed then
      endLocked format (.run id)
    else return
  | _ => return

/-- Cancel a request whose subject has ended. -/
def cancelEnded (record : Record) : Program Store BrokerError Unit := do
  let isEnded ← ended format record.subject
  if isEnded then cancel format record
  else return

def reconcileRecord (record : Record) : Program Store BrokerError Unit := do
  endDisposed format record
  cancelEnded format record
  project format record

def reconcile : Program Store BrokerError Unit := do
  let all ← records format
  all.forM (reconcileRecord format)

/-- Whether an observation of a Run may replace the one before. -/
def RunLifecycle.follows (observed prior : RunLifecycle) : Bool :=
  !(prior.runId != observed.runId || observed.revision < prior.revision ||
    (observed.revision == prior.revision && observed != prior) ||
    (prior.state == .disposed && observed.state != .disposed))

def observeRun (observed : RunLifecycle) : Program Store BrokerError Unit := do
  ofExcept (require (canonicalUuid observed.runId && observed.revision != 0) .invalidGrant)
  let path := runPath observed.runId
  let prior ← (runFiles format).read path
  ofExcept (require (prior.all observed.follows) .requestMismatch)
  write (fun s : Store => { s with
    runs := (path, .whole observed) :: s.runs.filter fun item => item.1 != path }) .storage
  if observed.state = .disposed then endLocked format (.run observed.runId)
  else return

end

end Louiselm.Broker.SkillRequests
