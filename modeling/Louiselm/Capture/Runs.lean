import Mathlib.Data.List.AList
import Louiselm.Base.CheckedArith
import Louiselm.Base.Checks
import Louiselm.Base.Program
import Louiselm.Canonical.Digest

/-!
# Runs and their generated-work budget

`capture-service/src/runs.rs`: one record a Run, replaced as a whole under the store's lock.
Parsing a UUID, SHA-256, the order of the directory and the cleanup adapter are parameters.
Records are kept as the values that are written and read back.
-/

namespace Louiselm.Capture
open Base Canonical

/-! ### Records -/

/-- A reservation not yet turned into outputs. -/
structure PendingGeneration where
  mutationId : String
  kind : String
  units : UInt64
deriving DecidableEq, Repr

/-- One durable generated output. -/
structure GeneratedOutput where
  mutationId : String
  kind : String
  externalId : String
deriving DecidableEq, Repr

/-- A Run's generated-work accounting. -/
structure GeneratedWorkBudget where
  ceiling : UInt64
  consumed : UInt64
  reserved : UInt64
  pending : List PendingGeneration
  outputs : List GeneratedOutput
deriving DecidableEq, Repr

/-- One operator attempt to resume. -/
structure ResumeAttempt where
  operationId : String
  deadlineMs : UInt64
  result : String
deriving DecidableEq, Repr

/-- One claim to release when a cold Park expires. -/
structure CleanupEntry where
  issueId : String
  completed : Bool
deriving DecidableEq, Repr

/-- A retained Run. -/
structure Run where
  schemaVersion : UInt8
  revision : UInt64
  id : String
  sessionId : Option String
  agent : Option String
  acpSessionId : Option String
  workingDir : Option String
  loadSession : Option Bool
  state : String
  parkTtlMs : UInt64
  parkedAtMs : Option UInt64
  parkExpiresAtMs : UInt64
  triggeringMutationId : Option String
  resumeAttempt : Option ResumeAttempt
  generatedWork : GeneratedWorkBudget
  generateTokenSha256 : String
  cleanup : List CleanupEntry
deriving DecidableEq, Repr

/-- The projection of a Run that operators see. -/
structure RunView where
  id : String
  revision : UInt64
  state : String
  sessionId : Option String
  generatedWorkCeiling : UInt64
  generatedWorkConsumed : UInt64
  generatedWorkReserved : UInt64
  pendingMutationIds : List String
  triggeringMutationId : Option String
  parkExpiresAtMs : UInt64
  resumeOperationId : Option String
  resumeDeadlineMs : Option UInt64

def runView (run : Run) : RunView where
  id := run.id
  revision := run.revision
  state := run.state
  sessionId := run.sessionId
  generatedWorkCeiling := run.generatedWork.ceiling
  generatedWorkConsumed := run.generatedWork.consumed
  generatedWorkReserved := run.generatedWork.reserved
  pendingMutationIds := run.generatedWork.pending.map (·.mutationId)
  triggeringMutationId := run.triggeringMutationId
  parkExpiresAtMs := run.parkExpiresAtMs
  resumeOperationId := run.resumeAttempt.map (·.operationId)
  resumeDeadlineMs := run.resumeAttempt.map (·.deadlineMs)

/-! ### Requests and answers -/

structure RunAdmission where
  id : String
  generatedWorkCeiling : UInt64
  parkTtlMs : UInt64

structure RunSession where
  id : String
  sessionId : String
  agent : String
  acpSessionId : String
  workingDir : String
  loadSession : Bool

structure GeneratedWorkReservation where
  runId : String
  token : String
  mutationId : String
  kind : String
  units : UInt64

structure RunDraft where
  id : String
  sessionId : String
  agent : String
  acpSessionId : String
  workingDir : String
  loadSession : Bool
  claimedIssueIds : List String

/-- The answer to a reservation. -/
inductive ReserveResult where
  | reserved
  | pending
  | consumed
  | exhausted
deriving DecidableEq, Repr

/-- The answer to an attempt to resume. -/
inductive ResumeResult where
  | active
  | resuming
  | coldParked
deriving DecidableEq, Repr

/-- One claim to release, and who releases it. -/
structure ReapAction where
  issueId : String
  actor : String

/-- What releases claims. It answers for each entry of each Run's cleanup journal, so one
claim can be released at one place and fail at another. -/
abbrev CleanupAdapter := (runId : String) → (index : Nat) → ReapAction → Except String Unit

structure ReapSummary where
  disposed : Nat
  failed : List (String × String)

/-- Why a step on a Run was refused. -/
inductive RunStoreError where
  | invalid (reason : String)
  | io
deriving DecidableEq, Repr

/-- The Run records under the store's root. -/
abbrev RunStore := AList fun _ : String => Run

/-- A step of the service on its Runs. -/
abbrev Action (α : Type) := Program RunStore RunStoreError α

/-! ### Checks -/

/-- The output of a mutation, the first one when there are several. -/
def Run.generatedIssue (run : Run) (mutationId : String) : Option String :=
  (run.generatedWork.outputs.find? (·.mutationId == mutationId)).map (·.externalId)

def advanceRevision (run : Run) : Except RunStoreError Run :=
  match checkedAdd run.revision 1 with
  | none => .error (.invalid "Run revision overflowed")
  | some revision => .ok { run with revision }

def requireRevision (run : Run) (expected : UInt64) : Except RunStoreError Unit :=
  require (run.revision == expected) (.invalid ("stale Run revision: expected " ++
    toString expected ++ ", found " ++ toString run.revision))

def resumeResult (run : Run) : Except RunStoreError ResumeResult :=
  match run.resumeAttempt.map (·.result) with
  | some "active" => .ok .active
  | some "resuming" => .ok .resuming
  | some "cold_parked" => .ok .coldParked
  | _ => .error (.invalid "stored resume attempt is invalid")

def validateToken (token : String) : Except RunStoreError Unit :=
  require (decide (16 ≤ token.utf8ByteSize)) (.invalid "generate token is malformed")

section

variable (uuid : String → Option String) (sha256 : Sha256)

/-- A canonical UUID: `uuid` parses a text and prints what it parsed. -/
def validateId (id : String) : Except RunStoreError Unit :=
  match uuid id with
  | none => .error (.invalid "Run id must be a UUID")
  | some canonical =>
    require (canonical == id.toLower) (.invalid "Run id must use canonical UUID text")

def validateAdmission (admission : RunAdmission) : Except RunStoreError Unit := do
  validateId uuid admission.id
  require (admission.generatedWorkCeiling != 0 && admission.parkTtlMs != 0)
    (.invalid "admitted Run ceiling and Park TTL must be positive")

def validateSession (session : RunSession) : Except RunStoreError Unit := do
  validateId uuid session.id
  require (session.sessionId != "" && session.agent != "" && session.acpSessionId != "" &&
      session.workingDir != "") (.invalid "Run Session fields must be non-empty")

def validateDraft (draft : RunDraft) : Except RunStoreError Unit := do
  validateId uuid draft.id
  require (draft.sessionId != "" && draft.agent != "" && draft.acpSessionId != "" &&
      draft.workingDir != "" && draft.loadSession && draft.claimedIssueIds.all (· != ""))
    (.invalid "Run fields must be non-empty and reloadable")

def validateReservation (reservation : GeneratedWorkReservation) :
    Except RunStoreError Unit := do
  validateId uuid reservation.runId
  validateId uuid reservation.mutationId
  validateToken reservation.token
  require (reservation.kind != "" && reservation.units != 0)
    (.invalid "generated-work reservation requires a kind and positive units")

def tokenSha256 (token : String) : String := (Digest.of sha256 (utf8 token)).hex

def verifyToken (run : Run) (token : String) : Except RunStoreError Unit := do
  validateToken token
  require (run.generateTokenSha256 == tokenSha256 sha256 token)
    (.invalid "generate capability is invalid")

/-! ### The store -/

/-- Run an operation under the store's lock. -/
def locked {α : Type} (operation : Action α) : Action α := do
  Program.probe .io
  let result ← operation
  Program.probe .io
  return result

/-- Load one retained Run record. -/
def loadRun (id : String) : Action Run := do
  Program.ofExcept (validateId uuid id)
  match ← Program.query (fun store => .ok (store.lookup id)) .io with
  | none => Program.fail (.invalid "Run was not found")
  | some run => do
    Program.ofExcept (require (run.schemaVersion == 4 && run.revision != 0 && run.id == id &&
      run.generatedWork.ceiling != 0 && run.parkTtlMs != 0) (.invalid "stored Run is invalid"))
    return run

/-- Replace a Run's record durably. -/
def writeAtomic (run : Run) : Action Unit := Program.write (·.insert run.id run) .io

/-- What a step answers, and the record it writes first. -/
structure Plan (α : Type) where
  next : Option Run
  answer : α

/-- Load a Run, decide, write what was decided and answer. -/
def update {α : Type} (id : String) (decide : Run → Except RunStoreError (Plan α)) :
    Action α :=
  locked do
    let run ← loadRun uuid id
    let plan ← Program.ofExcept (decide run)
    match plan.next with
    | none => return plan.answer
    | some next => do
      writeAtomic next
      return plan.answer

/-! ### Admission -/

/-- A Run that was only admitted. -/
def admittedRun (admission : RunAdmission) (token : String) : Run where
  schemaVersion := 4
  revision := 1
  id := admission.id
  sessionId := none
  agent := none
  acpSessionId := none
  workingDir := none
  loadSession := none
  state := "admitted"
  parkTtlMs := admission.parkTtlMs
  parkedAtMs := none
  parkExpiresAtMs := 0
  triggeringMutationId := none
  resumeAttempt := none
  generatedWork := {
    ceiling := admission.generatedWorkCeiling
    consumed := 0
    reserved := 0
    pending := []
    outputs := [] }
  generateTokenSha256 := tokenSha256 sha256 token
  cleanup := []

/-- Persist one admitted Run. Whether its record exists is seen without a failure. -/
def admitRun (admission : RunAdmission) (token : String) : Action Unit := do
  Program.ofExcept (validateAdmission uuid admission)
  Program.ofExcept (validateToken token)
  locked do
    let run := admittedRun sha256 admission token
    if ← Program.observe fun store => (store.lookup admission.id).isSome then do
      let stored ← loadRun uuid admission.id
      Program.ofExcept (require (stored == run)
        (.invalid "Run UUID conflicts with existing record"))
    else writeAtomic run

/-- Attach the Session before the Run can generate work. -/
def attachPlan (session : RunSession) (run : Run) : Except RunStoreError (Plan Unit) :=
  let same := run.sessionId == some session.sessionId && run.agent == some session.agent &&
    run.acpSessionId == some session.acpSessionId &&
    run.workingDir == some session.workingDir && run.loadSession == some session.loadSession
  if run.state = "active" ∧ same then .ok ⟨none, ()⟩
  else if run.state ≠ "admitted" then
    .error (.invalid "only an admitted Run can attach a Session")
  else do
    let next ← advanceRevision { run with
      sessionId := some session.sessionId
      agent := some session.agent
      acpSessionId := some session.acpSessionId
      workingDir := some session.workingDir
      loadSession := some session.loadSession
      state := "active" }
    return ⟨some next, ()⟩

def attach (session : RunSession) : Action Unit := do
  Program.ofExcept (validateSession uuid session)
  update uuid session.id (attachPlan session)

/-! ### Generated work -/

/-- Park a Run that asked for more than its ceiling allows. -/
def exhaust (run : Run) (mutationId : String) (nowMs : UInt64) : Except RunStoreError Run := do
  match checkedAdd nowMs run.parkTtlMs with
  | none => .error (.invalid "Park expiry overflows epoch milliseconds")
  | some parkExpiresAtMs =>
    advanceRevision { run with
      state := "parked"
      parkedAtMs := some nowMs
      parkExpiresAtMs
      triggeringMutationId := some mutationId }

/-- Reserve capacity before an external mutation begins. -/
def reservePlan (reservation : GeneratedWorkReservation) (nowMs : UInt64) (run : Run) :
    Except RunStoreError (Plan ReserveResult) := do
  verifyToken sha256 run reservation.token
  let work := run.generatedWork
  if work.outputs.any (·.mutationId == reservation.mutationId) then return ⟨none, .consumed⟩
  else if work.pending.any (·.mutationId == reservation.mutationId) then
    return ⟨none, .pending⟩
  else if run.state ≠ "active" then
    if run.state = "parked" then return ⟨none, .exhausted⟩
    else .error (.invalid "generated work requires an active attached Run")
  else
    match (checkedAdd work.consumed work.reserved).bind (checkedAdd · reservation.units) with
    | none => .error (.invalid "generated-work accounting overflow")
    | some occupied =>
      if occupied > work.ceiling then do
        let next ← exhaust run reservation.mutationId nowMs
        return ⟨some next, .exhausted⟩
      else
        match checkedAdd work.reserved reservation.units with
        | none => .error (.invalid "generated-work reservation overflow")
        | some reserved => do
          let pending := work.pending ++
            [⟨reservation.mutationId, reservation.kind, reservation.units⟩]
          let next ← advanceRevision { run with
            generatedWork := { work with reserved, pending } }
          return ⟨some next, .reserved⟩

def reserveGeneratedWork (reservation : GeneratedWorkReservation) (nowMs : UInt64) :
    Action ReserveResult := do
  Program.ofExcept (validateReservation uuid reservation)
  update uuid reservation.runId (reservePlan sha256 reservation nowMs)

/-- The first pending reservation of a mutation, between the others. -/
def locate (mutationId : String) : List PendingGeneration →
    Option (List PendingGeneration × PendingGeneration × List PendingGeneration)
  | [] => none
  | pending :: rest =>
    if pending.mutationId = mutationId then some ([], pending, rest)
    else (locate mutationId rest).map fun (before, found, after) =>
      (pending :: before, found, after)

/-- Convert one unit of a pending reservation into a durable output. -/
def confirmPlan (token mutationId issueId : String) (run : Run) :
    Except RunStoreError (Plan Unit) := do
  verifyToken sha256 run token
  let work := run.generatedWork
  if run.generatedIssue mutationId = some issueId then return ⟨none, ()⟩
  else
    match locate mutationId work.pending with
    | none => .error (.invalid "generated-work reservation was not found")
    | some (before, pending, after) =>
      let remaining := pending.units - 1
      let kept := if remaining = 0 then [] else [{ pending with units := remaining }]
      match checkedAdd work.consumed 1 with
      | none => .error (.invalid "generated-work consumption overflow")
      | some consumed => do
        let next ← advanceRevision { run with
          generatedWork := { work with
            reserved := work.reserved - 1
            consumed
            pending := before ++ kept ++ after
            outputs := work.outputs ++ [⟨mutationId, pending.kind, issueId⟩] } }
        return ⟨some next, ()⟩

def confirmGeneratedWork (runId token mutationId issueId : String) : Action Unit := do
  Program.ofExcept do
    validateId uuid runId
    validateId uuid mutationId
    require (issueId != "") (.invalid "generated issue id is empty")
  update uuid runId (confirmPlan sha256 token mutationId issueId)

/-- Release one reservation after a mutation definitely did not start. -/
def releasePlan (token mutationId : String) (run : Run) : Except RunStoreError (Plan Unit) := do
  verifyToken sha256 run token
  let work := run.generatedWork
  match locate mutationId work.pending with
  | none => return ⟨none, ()⟩
  | some (before, pending, after) => do
    let next ← advanceRevision { run with
      generatedWork := { work with
        reserved := work.reserved - pending.units
        pending := before ++ after } }
    return ⟨some next, ()⟩

def releaseGeneratedWork (runId token mutationId : String) : Action Unit := do
  Program.ofExcept do
    validateId uuid runId
    validateId uuid mutationId
  update uuid runId (releasePlan sha256 token mutationId)

/-! ### Park and resume -/

/-- Persist one cold Park. Repeating the same Park is safe. -/
def parkColdPlan (draft : RunDraft) (nowMs : UInt64) (run : Run) :
    Except RunStoreError (Plan Unit) := do
  require (run.sessionId == some draft.sessionId && run.agent == some draft.agent &&
      run.acpSessionId == some draft.acpSessionId &&
      run.workingDir == some draft.workingDir && run.loadSession == some draft.loadSession)
    (.invalid "cold Park identity differs from admitted Run")
  let cleanup := draft.claimedIssueIds.map (CleanupEntry.mk · false)
  if run.state = "cold_parked" ∧ run.cleanup = cleanup then return ⟨none, ()⟩
  else if run.state ≠ "active" ∧ run.state ≠ "parked" then
    .error (.invalid "only an active or Parked admitted Run can be cold-Parked")
  else
    match checkedAdd nowMs run.parkTtlMs with
    | none => .error (.invalid "Park expiry overflowed")
    | some parkExpiresAtMs => do
      let next ← advanceRevision { run with
        state := "cold_parked"
        parkedAtMs := some nowMs
        parkExpiresAtMs
        cleanup }
      return ⟨some next, ()⟩

def parkCold (draft : RunDraft) (nowMs : UInt64) : Action Unit := do
  Program.ofExcept (validateDraft uuid draft)
  update uuid draft.id (parkColdPlan draft nowMs)

/-- Raise only the ceiling of a Parked Run. -/
def raisePlan (expectedRevision ceiling : UInt64) (run : Run) :
    Except RunStoreError (Plan RunView) := do
  requireRevision run expectedRevision
  if run.state ≠ "parked" ∧ run.state ≠ "cold_parked" then
    .error (.invalid "only a Parked Run ceiling can be raised")
  else if ceiling ≤ run.generatedWork.ceiling then
    .error (.invalid "generated-work ceiling must increase")
  else do
    let next ← advanceRevision { run with
      generatedWork := { run.generatedWork with ceiling } }
    return ⟨some next, runView next⟩

def raiseGeneratedWorkCeiling (id : String) (expectedRevision ceiling : UInt64) :
    Action RunView := do
  Program.ofExcept (validateId uuid id)
  update uuid id (raisePlan expectedRevision ceiling)

/-- Begin an idempotent operator resume attempt. -/
def beginResumePlan (expectedRevision : UInt64) (operationId : String) (nowMs leaseMs : UInt64)
    (run : Run) : Except RunStoreError (Plan ResumeResult) := do
  if run.resumeAttempt.map (·.operationId) = some operationId then do
    let result ← resumeResult run
    return ⟨none, result⟩
  else do
    requireRevision run expectedRevision
    if run.state ≠ "parked" ∧ run.state ≠ "cold_parked" then
      .error (.invalid "only a Parked Run can resume")
    else
      match checkedAdd nowMs leaseMs with
      | none => .error (.invalid "resume deadline overflowed")
      | some deadlineMs => do
        let cold := run.state == "cold_parked"
        let state := if cold then "resuming" else "active"
        let next ← advanceRevision { run with
          state
          resumeAttempt := some ⟨operationId, deadlineMs, state⟩ }
        return ⟨some next, if cold then .resuming else .active⟩

def beginResume (id : String) (expectedRevision : UInt64) (operationId : String)
    (nowMs leaseMs : UInt64) : Action ResumeResult := do
  Program.ofExcept do
    validateId uuid id
    validateId uuid operationId
    require (leaseMs != 0) (.invalid "resume lease must be positive")
  update uuid id (beginResumePlan expectedRevision operationId nowMs leaseMs)

/-- Finalize one cold reconstruction attempt without extending its lease. -/
def finalizeResumePlan (expectedRevision : UInt64) (operationId : String) (succeeded : Bool)
    (run : Run) : Except RunStoreError (Plan ResumeResult) :=
  match run.resumeAttempt with
  | none => .error (.invalid "Run has no resume attempt")
  | some attempt => do
    require (attempt.operationId == operationId) (.invalid "resume operation differs")
    if attempt.result ≠ "resuming" then do
      let result ← resumeResult run
      return ⟨none, result⟩
    else do
      requireRevision run expectedRevision
      let state := if succeeded then "active" else "cold_parked"
      let next ← advanceRevision { run with
        state
        parkExpiresAtMs := if succeeded then 0 else attempt.deadlineMs
        resumeAttempt := some ⟨operationId, attempt.deadlineMs, state⟩ }
      return ⟨some next, if succeeded then .active else .coldParked⟩

def finalizeResume (id : String) (expectedRevision : UInt64) (operationId : String)
    (succeeded : Bool) : Action ResumeResult := do
  Program.ofExcept do
    validateId uuid id
    validateId uuid operationId
  update uuid id (finalizeResumePlan expectedRevision operationId succeeded)

/-! ### Reaping -/

variable (cleanup : CleanupAdapter)

/-- Release the claims still open, each one recorded before the next; `done` are the entries
already passed. -/
def releaseClaims : Run → List CleanupEntry → List CleanupEntry → Action (Except String Run)
  | run, _, [] => return .ok run
  | run, done, entry :: rest =>
    if entry.completed then releaseClaims run (done ++ [entry]) rest
    else
      match run.sessionId with
      | none => Program.fail (.invalid "Parked Run has no Session")
      | some session =>
        match cleanup run.id done.length ⟨entry.issueId, "reaper/" ++ session⟩ with
        | .error failure => return .error failure
        | .ok () => do
          let done := done ++ [{ entry with completed := true }]
          let run ← Program.ofExcept (advanceRevision { run with cleanup := done ++ rest })
          writeAtomic run
          releaseClaims run done rest

/-- When a Run is due to be reaped. -/
def Run.deadline (run : Run) : Option UInt64 :=
  if run.state = "resuming" then run.resumeAttempt.map (·.deadlineMs)
  else if run.state = "cold_parked" then some run.parkExpiresAtMs
  else none

/-- Reap one Run when it is due. -/
def reapRun (nowMs : UInt64) (id : String) (summary : ReapSummary) : Action ReapSummary := do
  let run ← loadRun uuid id
  if run.deadline.all (nowMs < ·) then return summary
  else
    match ← releaseClaims cleanup run [] run.cleanup with
    | .error failure => return { summary with failed := summary.failed ++ [(id, failure)] }
    | .ok run => do
      let run ← Program.ofExcept (advanceRevision { run with state := "disposed" })
      writeAtomic run
      return { summary with disposed := summary.disposed + 1 }

/-- Reap the Runs of a directory listing in turn; names that are no Run id are passed over. -/
def reapRuns (nowMs : UInt64) : List String → ReapSummary → Action ReapSummary
  | [], summary => return summary
  | id :: ids, summary =>
    if (validateId uuid id).isOk then do
      let summary ← reapRun uuid cleanup nowMs id summary
      reapRuns nowMs ids summary
    else reapRuns nowMs ids summary

/-- Reap due cold Parks, in the order `listing` gives the directory. -/
def reapExpired (listing : List String → List String) (nowMs : UInt64) : Action ReapSummary :=
  locked do
    let ids ← Program.query (fun store => .ok (listing store.keys)) .io
    reapRuns uuid cleanup nowMs ids ⟨0, []⟩

end
end Louiselm.Capture
