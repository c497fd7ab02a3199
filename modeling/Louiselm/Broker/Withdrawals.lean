import Mathlib.Data.Finset.Card
import Mathlib.Data.Prod.Lex
import Louiselm.Broker.Projections

/-!
# Withdrawal conditions of one operator

`skills-core/src/broker/withdrawal_attention.rs`: the conditions that withdrawal alerts open,
kept in one record with the changes that the outbox has still to be told. The record is
replaced whole. A file is named by its operator; the staging files beside it are left out.
-/

namespace Louiselm.Broker.WithdrawalAttention
open Base Canonical
open Base.Program (query write ofExcept)
open Endorsement (Urgency WithdrawalAlert)

def maxConditions : Nat := 4096

/-- The state has active conditions and both sides of a pending difference. -/
def maxStateBytes : Nat := 16 * 1024 * 1024

structure Record where
  operatorUid : UInt32
  revision : UInt64
  localLayerObserved : Bool
  retainedSessions : Finset String
  conditions : List AttentionCondition
  pending : List ProjectionChange

/-- The record of an operator who has none. -/
def Record.default (operatorUid : UInt32) : Record := ⟨operatorUid, 0, false, ∅, [], []⟩

/-- The package and the withdrawal that a condition is about. -/
def conditionKey (condition : AttentionCondition) : Option (String × String) :=
  condition.reason.withdrawal.map fun details => (details.packageDigest, details.withdrawalDigest)

/-! ### Validation -/

namespace Record

def condition (record : Record) (condition : AttentionCondition) : Except BrokerError Unit := do
  condition.validate
  require (!(condition.subject != .supply (toString record.operatorUid) ||
    (conditionKey condition).isNone)) .invalidGrant

/-- The loop over the conditions, with the pairs and the operations seen before. -/
def checkConditions (record : Record) :
    List (Option (String × String)) → List String → List AttentionCondition →
      Except BrokerError Unit
  | _, _, [] => .ok ()
  | seen, operations, condition :: conditions => do
    record.condition condition
    require (!(seen.contains (conditionKey condition) ||
      operations.contains condition.operationId)) .invalidGrant
    record.checkConditions (conditionKey condition :: seen) (condition.operationId :: operations)
      conditions

/-- A pending change opens a condition of the record, or clears one that it has no longer. -/
def checkPending (record : Record) : ProjectionChange → Except BrokerError Unit
  | .upsert condition =>
    if record.conditions.contains condition then record.condition condition else .error
        .invalidGrant
  | .clear condition =>
    if !record.conditions.any (·.operationId == condition.operationId) then
      record.condition condition
    else .error .invalidGrant
  | .clearSubject _ => .error .invalidGrant

def validate (record : Record) : Except BrokerError Unit := do
  require (!(record.operatorUid == 0 || decide (maxConditions < record.conditions.length) ||
    decide (maxConditions * 2 < record.pending.length) ||
    decide (4096 < record.retainedSessions.card) ||
    decide (∃ id ∈ record.retainedSessions, isRecordIdentifier id = false) ||
    (record.revision == 0 && (!record.conditions.isEmpty || !record.pending.isEmpty))))
    .invalidGrant
  record.checkConditions [] [] record.conditions
  record.pending.forM record.checkPending

end Record

/-! ### The desired conditions -/

/-- Conditions by the pair they are about, in the order of the pairs. -/
abbrev Desired : Type := List ((String × String) × AttentionCondition)

/-- The pair that an alert is about. -/
def pairOf (alert : WithdrawalAlert) : String × String := (alert.member, alert.withdrawal)

/-- What an alert says that is for display. -/
def detailsOf (alert : WithdrawalAlert) : WithdrawalDetails :=
  ⟨alert.member, alert.withdrawal, alert.endorser, alert.urgency⟩

/-- What names the condition of a pair that is open since a revision. -/
def conditionBytes (operatorUid : UInt32) (revision : UInt64) (pair : String × String) : Bytes :=
  utf8 ("withdrawal:" ++ toString operatorUid ++ ":" ++ toString revision ++ ":" ++ pair.1 ++ ":" ++
    pair.2)

section

variable (sha256 : Sha256)

/-- The condition of an alert: the one there is, with what the alert says now, or a new one. -/
def conditionOf (record : Record) (revision nowMs : UInt64) (alert : WithdrawalAlert) :
    AttentionCondition :=
  let previous := record.conditions.find? fun condition =>
    conditionKey condition == some (pairOf alert)
  { subject := .supply (toString record.operatorUid)
    linkedRunId := none
    operationId := (previous.map (·.operationId)).getD
      (conditionId sha256 (conditionBytes record.operatorUid revision (pairOf alert)))
    createdAtMs := (previous.map (·.createdAtMs)).getD nowMs
    reason := .endorsementWithdrawn (detailsOf alert) }

/-- The condition with the urgency of what is relied on. -/
def urgent (condition : AttentionCondition) (details : WithdrawalDetails) : AttentionCondition :=
  { condition with reason := .endorsementWithdrawn { details with urgency := .reliedOn } }

/-- Take one more alert up: a pair that is there already can only become more urgent. -/
def addAlert (record : Record) (revision nowMs : UInt64) (desired : Desired)
    (alert : WithdrawalAlert) : Except BrokerError Desired :=
  match desired.lookup (pairOf alert) with
  | some existing =>
    match existing.reason.withdrawal with
    | none => .error .invalidGrant
    | some previous =>
      if previous.endorser ≠ alert.endorser then .error .requestMismatch
      else if alert.urgency = .reliedOn then
        .ok (desired.map fun item =>
          if item.1 = pairOf alert then (pairOf alert, urgent existing previous) else item)
      else .ok desired
  | none => do
    let condition := conditionOf sha256 record revision nowMs alert
    condition.validate
    return desired.orderedInsert (fun a b => toLex a.1 ≤ toLex b.1) (pairOf alert, condition)

/-- What clears the conditions whose pair is not desired. -/
def clears (desired : Desired) (conditions : List AttentionCondition) :
    Except BrokerError (List ProjectionChange) :=
  match conditions with
  | [] => .ok []
  | condition :: conditions =>
    match conditionKey condition with
    | none => .error .invalidGrant
    | some pair => do
      let rest ← clears desired conditions
      return if (desired.lookup pair).isSome then rest else .clear condition :: rest

/-- What opens the desired conditions that the record does not have as they are. -/
def upserts (desired : Desired) (conditions : List AttentionCondition) : List ProjectionChange :=
  ((desired.map Prod.snd).filter (!conditions.contains ·)).map .upsert

end

/-! ### Operations -/

/-- The operator's file and the outbox. -/
structure Store where
  file : Option Record
  outbox : Outbox

/-- The digest, and the lengths of the files. -/
structure Format where
  sha256 : Sha256
  recordBytes : Record → Nat
  entryBytes : Projection → Nat

/-- The name of a pending change. -/
def changeName (operatorUid : UInt32) (revision : UInt64) (index : Nat) : String :=
  "withdrawal-" ++ toString operatorUid ++ "-" ++ toString revision ++ "-" ++ toString index

/-- The record beside the outbox. -/
def episodes (format : Format) : Episodes Store Record where
  outbox := (·.outbox)
  put := fun outbox s => { s with outbox }
  bytes := format.entryBytes
  outbox_put := fun _ _ => rfl
  put_put := fun _ _ _ => rfl
  put_outbox := fun _ => rfl
  write := fun record s => { s with file := some record }
  pending := (·.pending)
  settle := fun record => { record with pending := [] }
  changeName := fun record => changeName record.operatorUid record.revision
  validate := Record.validate
  size := format.recordBytes
  limit := maxStateBytes

section

variable (format : Format) (operatorUid : UInt32)

/-- Read a bounded file. -/
def readFile (s : Store) : Except BrokerError (Option Record) :=
  match s.file with
  | none => .ok none
  | some record => if format.recordBytes record ≤
        maxStateBytes then .ok (some record) else .error .storage

def load : Program Store BrokerError Record := do
  let file ← query (readFile format) .storage
  let record := file.getD (.default operatorUid)
  ofExcept record.validate
  ofExcept (require (record.operatorUid == operatorUid) .controllerMismatch)
  return record

def save (record : Record) : Program Store BrokerError Unit := (episodes format).save record

def flush (record : Record) : Program Store BrokerError Record := (episodes format).flush record

def replay : Program Store BrokerError Unit := do
  match ← query (readFile format) .storage with
  | none => return
  | some record =>
    ofExcept record.validate
    ofExcept (require (record.operatorUid == operatorUid) .invalidGrant)
    let _ ← flush format record
    return

/-- Turn the conditions of a record without pending changes into those of the alerts. -/
def project (alerts : List WithdrawalAlert) (nowMs : UInt64) (changed : Bool) (record : Record) :
    Program Store BrokerError Unit := do
  ofExcept (require (decide (record.revision.toNat + 1 < UInt64.size)) .invalidGrant)
  let revision := record.revision + 1
  let desired ← ofExcept (alerts.foldlM (addAlert format.sha256 record revision nowMs) [])
  let cleared ← ofExcept (clears desired record.conditions)
  let pending := record.pending ++ cleared ++ upserts desired record.conditions
  if pending.isEmpty then
    if changed then save format record else return
  else
    let next := { record with pending, revision, conditions := desired.map Prod.snd }
    save format next
    let _ ← flush format next
    return

def observe (alerts : List WithdrawalAlert) (nowMs : UInt64) (localLayerPresent : Bool)
    (retainedSessions : Finset String) : Program Store BrokerError Unit := do
  ofExcept (require (!(operatorUid == 0 || nowMs == 0 || decide (maxConditions < alerts.length)))
    .invalidGrant)
  let loaded ← load format operatorUid
  let record ← flush format loaded
  let newlyObservedLayer := localLayerPresent && !record.localLayerObserved
  let pinsChanged := record.retainedSessions != retainedSessions
  project format alerts nowMs (newlyObservedLayer || pinsChanged) { record with
      localLayerObserved := record.localLayerObserved || localLayerPresent, retainedSessions }

end

end Louiselm.Broker.WithdrawalAttention
