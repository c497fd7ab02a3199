import Louiselm.Broker.Projections
import Louiselm.Broker.RecordFiles

/-!
# Posture conditions of one Session

`skills-core/src/broker/posture_attention.rs` over `posture.rs`: the conditions that the failing
dimensions of a Session open, kept in one record with the changes that the outbox has still to
be told. The directories hold the files of one Session; the staging files beside its record are
left out. An array over the dimensions is a function of them.
-/

namespace Louiselm.Broker.PostureAttention
open Base Canonical
open Base.Program (query write ofExcept)
open Broker.Authorization (Records)

/-! ### Postures -/

/-- One independently evaluated posture dimension. -/
inductive DimensionName where
  | managedSupply
  | nativeSupply
  | runtime
  | isolation
  | network
  | providerDisclosure
deriving DecidableEq, Repr

namespace DimensionName

/-- Every required dimension, in presentation order. -/
def all : List DimensionName :=
  [.managedSupply, .nativeSupply, .runtime, .isolation, .network, .providerDisclosure]

def name : DimensionName → String
  | .managedSupply => "managed_supply"
  | .nativeSupply => "native_supply"
  | .runtime => "runtime"
  | .isolation => "isolation"
  | .network => "network"
  | .providerDisclosure => "provider_disclosure"

def acceptsFailure (dimension : DimensionName) (code : FailureCode) : Bool :=
  [.evidenceMissing, .evidenceInvalidated, .quarantined, .auditPersistenceUnavailable,
    .unknownFailure].contains code ||
    match dimension with
    | .managedSupply => [.rootTrustFailed, .signatureInvalid, .witnessMissing].contains code
    | .nativeSupply => code == .nativeSupplyUncertain
    | .runtime => [.rootTrustFailed, .signatureInvalid, .runtimeDrift].contains code
    | .isolation => code == .isolationFailed
    | .network => code == .brokerUnavailable
    | .providerDisclosure => code == .providerDisclosureMissing

theorem mem_all (d : DimensionName) : d ∈ all := by cases d <;> decide

theorem nodup_all : all.Nodup := by decide

theorem name_inj {a b : DimensionName} : a.name = b.name ↔ a = b := by
  cases a <;> cases b <;> simp [name]

end DimensionName

inductive DimensionState where
  | verified
  | failed
  | waived
deriving DecidableEq, Repr

/-- Normalized result for one dimension. -/
structure DimensionPosture where
  state : DimensionState
  failureCode : Option FailureCode
deriving DecidableEq, Repr

/-- One Session's posture. -/
structure Posture where
  sessionId : String
  runId : String
  dimensions : DimensionName → DimensionPosture

/-- Whom a posture is held against. -/
structure Authorization where
  sessionId : String
  runId : String
  requestDigest : String
deriving DecidableEq, Repr

/-! ### The record -/

/-- The open condition of each dimension. -/
abbrev Slots : Type := DimensionName → Option AttentionCondition

structure Record where
  sessionId : String
  runId : String
  requestDigest : String
  observedAtMs : UInt64
  revision : UInt64
  ended : Bool
  conditions : Slots
  pending : List ProjectionChange

/-- The open conditions in the order of the dimensions. -/
def listed (slots : Slots) : List AttentionCondition := DimensionName.all.filterMap slots

/-- The Run of a Session, where it can be linked. -/
def linkedRun (runId : String) : Option String := if canonicalUuid runId then some runId else none

namespace Record

def condition (record : Record) (condition : AttentionCondition) : Except BrokerError Unit := do
  condition.validate
  require (decide (condition.createdAtMs ≤ record.observedAtMs)) .invalidGrant
  require (!(condition.subject != .session record.sessionId ||
    condition.linkedRunId != linkedRun record.runId ||
    condition.reason.fields.1 != "skill_unverified")) .requestMismatch

/-- The code of a reason that a posture gives. -/
def codeOf : AttentionReason → Option FailureCode
  | .skillUnverified code => some code
  | _ => none

/-- A slot is empty, or has a condition that its dimension can have. -/
def checkSlot (record : Record) (dimension : DimensionName) : Except BrokerError Unit :=
  match record.conditions dimension with
  | none => .ok ()
  | some condition => do
    record.condition condition
    require ((codeOf condition.reason).any dimension.acceptsFailure) .invalidGrant

def checkPending (record : Record) : ProjectionChange → Except BrokerError Unit
  | .upsert condition => do
    record.condition condition
    require (!record.ended && (listed record.conditions).contains condition) .invalidGrant
  | .clear condition => record.condition condition
  | .clearSubject _ => .error .invalidGrant

def validate (record : Record) : Except BrokerError Unit := do
  require (!(!isRecordIdentifier record.sessionId || !isRecordIdentifier record.runId ||
    (Digest.parse record.requestDigest).toOption.isNone || record.observedAtMs == 0 ||
    decide (6 < record.pending.length) || (!record.pending.isEmpty && record.revision == 0) ||
    (record.ended && !(listed record.conditions).isEmpty))) .invalidGrant
  DimensionName.all.forM record.checkSlot
  record.pending.forM record.checkPending

end Record

/-! ### Turning the slots -/

/-- What names the condition of a dimension that is open since a revision. -/
def conditionBytes (requestDigest : String) (revision : UInt64) (dimension : DimensionName) :
    Bytes :=
  utf8 (requestDigest ++ ":" ++ toString revision ++ ":" ++ dimension.name)

/-- How a Session is observed. -/
structure Observation where
  auth : Authorization
  posture : Posture
  waiting : Bool
  quarantined : Bool
  nowMs : UInt64

section

variable (sha256 : Sha256) (observation : Observation) (revision : UInt64)

/-- A new condition of a dimension. -/
def conditionOf (dimension : DimensionName) (reason : AttentionReason) : AttentionCondition where
  subject := .session observation.auth.sessionId
  linkedRunId := linkedRun observation.auth.runId
  operationId :=
    conditionId sha256 (conditionBytes observation.auth.requestDigest revision dimension)
  createdAtMs := observation.nowMs
  reason := reason

/-- Close a slot. -/
def recover (previous : Option AttentionCondition) :
    Option AttentionCondition × List ProjectionChange :=
  (none, previous.toList.map .clear)

/-- The reason that a failing dimension has. -/
def reasonOf (dimension : DimensionName) : Except BrokerError AttentionReason :=
  if observation.quarantined then .ok (.skillUnverified .quarantined)
  else
    match (observation.posture.dimensions dimension).failureCode with
    | some code => .ok (.skillUnverified code)
    | none => .error .invalidGrant

/-- What becomes of one slot, and the change that tells of it. The first one has the condition
of a quarantined Session; one that waits opens conditions, and one that does not keeps those
that it has up to date. -/
def turn (dimension : DimensionName) (previous : Option AttentionCondition) :
    Except BrokerError (Option AttentionCondition × List ProjectionChange) :=
  if observation.quarantined && dimension != .managedSupply then .ok (recover previous)
  else
    match if observation.quarantined then DimensionState.failed
      else (observation.posture.dimensions dimension).state with
    | .failed =>
      if observation.waiting || observation.quarantined || previous.isSome then do
        let reason ← reasonOf observation dimension
        if previous.any (·.reason = reason) then return (previous, [])
        else
          let condition := { previous.getD
              (conditionOf sha256 observation revision dimension reason)
            with reason }
          return (some condition, [.upsert condition])
      else .ok (previous, [])
    | .verified => .ok (recover previous)
    | .waived => .ok (recover previous)

/-- The loop over the dimensions. -/
def turnAll (record : Record) : List DimensionName → Except BrokerError Record
  | [] => .ok record
  | dimension :: dimensions => do
    let (slot, changes) ← turn sha256 observation revision dimension (record.conditions dimension)
    turnAll { record with
      conditions := Function.update record.conditions dimension slot
      pending := record.pending ++ changes } dimensions

end

/-! ### Operations -/

/-- The Session's file, the marks of the Runs that ended, and the outbox. -/
structure Store where
  file : Option Record
  endedRuns : Records String
  outbox : Outbox

/-- The digest, and the lengths of the files. -/
structure Format where
  sha256 : Sha256
  recordBytes : Record → Nat
  runBytes : String → Nat
  entryBytes : Projection → Nat

def endedRunFiles (format : Format) : Directory Store BrokerError String where
  files := (·.endedRuns)
  put := fun records s => { s with endedRuns := records }
  bytes := format.runBytes
  lift := id
  files_put := fun _ _ => rfl
  put_put := fun _ _ _ => rfl

/-- The name of a pending change. -/
def changeName (sha256 : Sha256) (session : String) (revision : UInt64) (index : Nat) : String :=
  "posture-" ++ (Digest.of sha256 (utf8 session)).hex ++ "-" ++ toString revision ++ "-" ++
    toString index

/-- The record beside the outbox. -/
def episodes (format : Format) : Episodes Store Record where
  outbox := (·.outbox)
  put := fun outbox s => { s with outbox }
  bytes := format.entryBytes
  outbox_put := fun _ _ => rfl
  put_put := fun _ _ _ => rfl
  put_outbox := fun _ => rfl
  write := fun record s => { s with file := some record }
  pending := (·.pending)
  settle := fun record => { record with pending := [] }
  changeName := fun record => changeName format.sha256 record.sessionId record.revision
  validate := Record.validate
  size := format.recordBytes
  limit := maxRecordBytes

def recordName (identifier : String) : Except BrokerError String :=
  if isRecordIdentifier identifier then .ok (identifier ++ ".json") else .error .invalidGrant

section

variable (format : Format) (session : String)

def save (record : Record) : Program Store BrokerError Unit := (episodes format).save record

def flush (record : Record) : Program Store BrokerError Record := (episodes format).flush record

/-- Whether a Run has its mark. -/
def runEnded (run : String) : Program Store BrokerError Bool := do
  let name ← ofExcept (recordName run)
  match ← (endedRunFiles format).read name with
  | none => return false
  | some prior => do
    ofExcept (require (prior == run) .requestMismatch)
    return true

/-- The record of the Session. -/
def read : Program Store BrokerError (Option Record) := do
  let _ ← ofExcept (recordName session)
  match ← query (fun s : Store => .ok s.file) .storage with
  | none => return none
  | some record => do
    ofExcept (require (decide (format.recordBytes record ≤ maxRecordBytes)) .storage)
    ofExcept record.validate
    ofExcept (require (record.sessionId == session) .requestMismatch)
    return some record

/-- The records there are, of which there is at most one. -/
def recordsLocked : Program Store BrokerError (Option Record) := do
  match ← query (fun s : Store => .ok s.file) .storage with
  | none => return none
  | some record => do
    ofExcept (require (decide (format.recordBytes record ≤ maxRecordBytes)) .storage)
    ofExcept record.validate
    ofExcept (require (record.sessionId == session) .invalidGrant)
    return some record

/-- The record of a Session that has none. -/
def Record.new (auth : Authorization) : Record where
  sessionId := auth.sessionId
  runId := auth.runId
  requestDigest := auth.requestDigest
  observedAtMs := 0
  revision := 0
  ended := false
  conditions := fun _ => none
  pending := []

/-- Turn the slots of a record without pending changes. -/
def project (observation : Observation) (record : Record) : Program Store BrokerError Unit := do
  ofExcept (require (decide (record.revision.toNat + 1 < UInt64.size)) .invalidGrant)
  let revision := record.revision + 1
  let turned ← ofExcept (turnAll format.sha256 observation revision record DimensionName.all)
  let next := if turned.pending.isEmpty then turned else { turned with revision }
  save format next
  let _ ← flush format next
  return

def observe (observation : Observation) : Program Store BrokerError Unit := do
  let auth := observation.auth
  ofExcept (require (!(observation.nowMs == 0 || observation.posture.sessionId != auth.sessionId ||
    observation.posture.runId != auth.runId)) .requestMismatch)
  if ← runEnded format auth.runId then return
  else
    let prior ← read format auth.sessionId
    if prior.isNone && !observation.waiting && !observation.quarantined then return
    else
      if prior.isNone then
        let _ ← recordsLocked format session
      let found := prior.getD (.new auth)
      ofExcept (require (found.requestDigest == auth.requestDigest && found.runId == auth.runId)
        .requestMismatch)
      let record ← flush format found
      if record.ended then return
      else
        ofExcept (require (decide (record.observedAtMs ≤ observation.nowMs)) .invalidGrant)
        project format observation { record with observedAtMs := observation.nowMs }

def endLocked : Program Store BrokerError Unit := do
  match ← read format session with
  | none => return
  | some found => do
    let record ← flush format found
    if record.ended then return
    else
      ofExcept (require (decide (record.revision.toNat + 1 < UInt64.size)) .invalidGrant)
      let next := { record with
        ended := true, revision := record.revision + 1, conditions := fun _ => none
        pending := (listed record.conditions).map .clear }
      save format next
      let _ ← flush format next
      return

def reconcile : Program Store BrokerError Unit := do
  match ← recordsLocked format session with
  | none => return
  | some record => do
    if ← runEnded format record.runId then endLocked format record.sessionId
    else
      let _ ← flush format record
      return

/-- End the Sessions of a Run. -/
def endSessions (run : String) : Program Store BrokerError Unit := do
  match ← recordsLocked format session with
  | none => return
  | some record =>
    if record.runId = run then endLocked format record.sessionId else return

def endRun (run : String) : Program Store BrokerError Unit := do
  ofExcept (require (canonicalUuid run) .invalidGrant)
  if !(← runEnded format run) then
    let name ← ofExcept (recordName run)
    (endedRunFiles format).create name run
  endSessions format session run

end

end Louiselm.Broker.PostureAttention
