import Mathlib.Algebra.GroupWithZero.Nat
import Louiselm.Base.Checks
import Louiselm.Base.Numbered
import Louiselm.Base.Program

/-!
# The Provider request budget of one Run

`skills-core/src/broker/provider_requests.rs` and the operator extension of
`provider_extension.rs` and `provider_service.rs`: create-once records of attempts, holds and
extensions in the directories of one Run. An operation runs under the ledger's lock. A new
record's file appears with its bytes; an empty directory and an absent one are not told apart.
-/

namespace Louiselm.Provider.Budget
open Base

/-- Largest total request budget one Run may be granted. -/
def maxRunRequests : Nat := 10000

/-! ### Records -/

/-- One spent unit. -/
structure Reservation where
  runId : String
  sessionId : String
  sequence : Nat
  maxRunRequests : Nat
  reservedAtMs : UInt64
deriving DecidableEq, Repr

/-- Why a Run's Provider requests stopped. -/
inductive HoldReason where
  | exhausted
  | expired
deriving DecidableEq, Repr

/-- A durable Run-wide stop. -/
structure ProviderHold where
  runId : String
  reason : HoldReason
  heldAtMs : UInt64
deriving DecidableEq, Repr

/-- One operator extension, retried with the same fields. -/
structure ExtensionRequest where
  requestId : String
  additionalRequests : Nat
  expiresAtMs : Option UInt64
deriving DecidableEq, Repr

/-- A recorded extension. -/
structure Extension where
  runId : String
  request : ExtensionRequest
  operatorUid : UInt32
  approvedAtMs : UInt64
  lifts : ProviderHold
deriving DecidableEq, Repr

/-- Refusal at the operator extension boundary. -/
inductive ExtensionError where
  | invalidRequest
  | notHeld
  | insufficient
  | expiryOutOfRange
  | conflict
deriving DecidableEq, Repr

/-- A ledger operation that was refused. -/
inductive BrokerError where
  | invalidGrant
  | duplicateAuthorization
  | storage
  | providerBudgetExhausted
  | providerRunHeld (hold : ProviderHold)
  | providerExtension (error : ExtensionError)
  | expired
deriving DecidableEq, Repr

/-- The total that every approved permission of a Run's Sessions states: a child whose total
is not its parent envelope's is refused. Sessions' expiries differ. -/
structure Permission where
  maxRunRequests : Nat
  positive : 1 ≤ maxRunRequests
  bounded : maxRunRequests ≤ Budget.maxRunRequests

/-- The files of one Run. -/
structure Ledger where
  runs : Numbered Reservation
  holds : Numbered ProviderHold
  extensions : Numbered Extension

/-- A locked operation on a Run's files. -/
abbrev Action (α : Type) := Program Ledger BrokerError α

/-! ### Reading -/

/-- Count the records of a directory, which must be numbered without a gap. -/
def count {α : Type} (files : Numbered α) : Except BrokerError Nat :=
  if files.keys.all (· < maxRunRequests) then
    match contiguous files.keys with
    | none => .error .invalidGrant
    | some spent => .ok spent
  else .error .invalidGrant

section

variable (runId : String)

def readHold (ledger : Ledger) (number : Nat) : Except BrokerError (Option ProviderHold) := do
  let hold := ledger.holds.lookup number
  require (hold.all (·.runId == runId)) .invalidGrant
  return hold

/-- Read one extension, bound to the hold it lifted. -/
def readExtension (ledger : Ledger) (number : Nat) : Except BrokerError Extension :=
  match ledger.extensions.lookup number with
  | none => .error .invalidGrant
  | some extension => do
    let lifted ← readHold runId ledger number
    require (extension.runId == runId && lifted == some extension.lifts) .invalidGrant
    return extension

/-- Every extension, oldest first. -/
def extensionsLocked (ledger : Ledger) : Except BrokerError (List Extension) := do
  let recorded ← count ledger.extensions
  (List.range recorded).mapM (readExtension runId ledger)

def readExtensions : Action (List Extension) := Program.query (extensionsLocked runId) .storage

/-- The Run's current hold, when one stands unlifted. -/
def heldLocked : Action (Option ProviderHold) := do
  let extensions ← readExtensions runId
  Program.query (readHold runId · extensions.length) .storage

def held : Action (Option ProviderHold) := heldLocked runId

/-- The Run's total: the grant plus every extension, never above the ceiling. -/
def total (granted : Nat) (extensions : List Extension) : Except BrokerError Nat :=
  let total := granted + (extensions.map (·.request.additionalRequests)).sum
  if total ≤ maxRunRequests then .ok total else .error .invalidGrant

/-! ### Writing -/

/-- Write a record that must not exist. -/
def writeNewRecord {α : Type} (files : Ledger → Numbered α) (put : Ledger → Numbered α → Ledger)
    (number : Nat) (record : α) : Action Unit := do
  Program.query (fun ledger =>
    if number ∈ files ledger then .error .duplicateAuthorization else .ok ()) .storage
  Program.write (fun ledger => put ledger ((files ledger).insert number record)) .storage

def writeReservation (number : Nat) (reservation : Reservation) : Action Unit :=
  writeNewRecord (·.runs) ({ · with runs := · }) number reservation

def writeHold (number : Nat) (hold : ProviderHold) : Action Unit :=
  writeNewRecord (·.holds) ({ · with holds := · }) number hold

def writeExtension (number : Nat) (extension : Extension) : Action Unit :=
  writeNewRecord (·.extensions) ({ · with extensions := · }) number extension

/-! ### Operations -/

/-- Refuse a Run whose first record was made under another grant. -/
def checkFirst (granted : Nat) (ledger : Ledger) : Except BrokerError Unit :=
  match ledger.runs.lookup 0 with
  | none => .error .invalidGrant
  | some first =>
    require (first.runId == runId && first.maxRunRequests == granted) .invalidGrant

/-- Durably spend the Run's next unit and return its sequence number. -/
def reserve (sessionId : String) (granted : Nat) (nowMs : UInt64) : Action Nat := do
  Program.ofExcept (require (decide (1 ≤ granted ∧ granted ≤ maxRunRequests)) .invalidGrant)
  Program.probe .storage
  let extensions ← readExtensions runId
  let total ← Program.ofExcept (total granted extensions)
  let spent ← Program.query (fun ledger => count ledger.runs) .storage
  Program.query (fun ledger => if 0 < spent then checkFirst runId granted ledger else .ok ())
    .storage
  Program.ofExcept (require (decide (spent < total)) .providerBudgetExhausted)
  writeReservation spent ⟨runId, sessionId, spent, granted, nowMs⟩
  return spent

/-- Durably hold the Run, or return the hold already recorded. -/
def hold (reason : HoldReason) (nowMs : UInt64) : Action ProviderHold := do
  let extensions ← readExtensions runId
  let existing ← Program.query (readHold runId · extensions.length) .storage
  match existing with
  | some existing => do
    Program.probe .storage
    Program.probe .storage
    return existing
  | none => do
    Program.probe .storage
    let hold := { runId, reason, heldAtMs := nowMs }
    writeHold extensions.length hold
    return hold

/-- Run a child authorization while no hold stands. -/
def withUnheld {α : Type} (authorize : Action α) : Action α := do
  match ← heldLocked runId with
  | some hold => Program.fail (.providerRunHeld hold)
  | none => authorize

/-- The operator policy of an extension through a Session whose permission and whose launch
expire as granted. -/
def extensionCheck (granted : Permission) (grantedExpiry launchExpiry : UInt64)
    (request : ExtensionRequest) (nowMs : UInt64) (_hold : ProviderHold) (prior : List Extension)
    (spent : Nat) :
    Except ExtensionError Unit := do
  let total ← (total granted.maxRunRequests prior).mapError fun _ => .invalidRequest
  let total := total + request.additionalRequests
  require (decide (total ≤ maxRunRequests)) .invalidRequest
  require (request.expiresAtMs.all fun expiry => nowMs < expiry && expiry ≤ launchExpiry)
    .expiryOutOfRange
  let expiry := (request.expiresAtMs.or
    (prior.reverse.findSome? (·.request.expiresAtMs))).getD grantedExpiry
  -- Lifting a hold the Run would immediately hit again is not an extension.
  require (decide (spent < total) && nowMs < expiry) .insufficient

/-- Durably append an extension lifting the Run's current hold. -/
def extend (request : ExtensionRequest) (operatorUid : UInt32) (nowMs : UInt64)
    (check : ProviderHold → List Extension → Nat → Except ExtensionError Unit) :
    Action Extension := do
  let prior ← readExtensions runId
  match prior.find? (·.request.requestId == request.requestId) with
  | some recorded => do
    Program.ofExcept (require (recorded.request == request && recorded.operatorUid == operatorUid)
      (.providerExtension .conflict))
    return recorded
  | none => do
    match ← heldLocked runId with
    | none => Program.fail (.providerExtension .notHeld)
    | some hold => do
      let spent ← Program.query (fun ledger => count ledger.runs) .storage
      Program.ofExcept ((check hold prior spent).mapError .providerExtension)
      Program.probe .storage
      let extension := { runId, request, operatorUid, approvedAtMs := nowMs, lifts := hold }
      writeExtension prior.length extension
      return extension

/-- The granted expiry with the latest operator-extended one applied. -/
def extendedExpiry (grantedExpiry : UInt64) (extensions : List Extension) : UInt64 :=
  (extensions.reverse.findSome? (·.request.expiresAtMs)).getD grantedExpiry

end
end Louiselm.Provider.Budget
