import Louiselm.Broker.Receipts

/-!
# The operator's record and the replay of a Session's commands

`skills-core/src/broker/audit.rs` and `broker/command_replay.rs`: the append-only record of
what the broker decided, and the command state that one Session's part of it fixes. An
append can fail before, within or after its line is written, so the record ends cleanly,
without the newline of its last entry, or in a line that no reader accepts.
-/

namespace Louiselm.Broker
open Base Launch
open Launch.Protocol (ErrorCode)

/-- One stable broker decision, named without prose. -/
inductive AuditDecision where
  | stateIdentityAdoption (operatorUid previousUid previousGid newUid newGid : Nat)
  | authorizationConsumed
  | authorizationRefused (error : ErrorCode)
  | receiptStored (sequence : Nat)
  | receiptRefused (error : ErrorCode)
  | toolGranted (grant pid revision : Nat) (uses : Option Nat)
  | toolRevocationRequested (grant : Nat)
  | toolRevoked (grant : Nat)
  | capabilityDenied
  | effectCommitIntent (grant : Option Nat) (sequence : Nat)
  | effectFinished (grant : Option Nat) (sequence : Nat) (succeeded : Bool)
  | capabilitiesRevoked
  | sessionOutputTainted
  | capabilitiesRevocationRequested
  | effectOutcomeUnknown (sequence : Nat)
deriving DecidableEq, Repr

/-- One normalized entry in the operator record. -/
structure AuditEntry where
  atMs : Nat
  sessionId : String
  runId : String
  authorizationId : String
  identitySlot : Nat
  decision : AuditDecision
deriving DecidableEq, Repr

/-- Longest operator record this build reads back, in entries. -/
def maxEntries : Nat := 4096

/-! ### The record on disk -/

/-- How the file ends: after a newline, in a whole entry, or past a line that is none. -/
inductive Tail where
  | clean
  | unterminated
  | broken
deriving DecidableEq, Repr

/-- The entries on the lines that can be read, up to the first that cannot. -/
structure AuditLog where
  entries : List AuditEntry
  tail : Tail
deriving DecidableEq, Repr

/-- What befalls one append: nothing, no byte written, all written and not confirmed, only
the newline missing, or a part of the line that is no entry. -/
inductive AppendFault where
  | none
  | refused
  | unconfirmed
  | unterminated
  | torn
deriving DecidableEq, Repr

namespace AuditLog

/-- Whether an entry's identifiers are normalized. -/
def normalized (entry : AuditEntry) : Bool :=
  isRecordIdentifier entry.sessionId && isRecordIdentifier entry.runId &&
    isRecordIdentifier entry.authorizationId

/-- The file after some bytes of one more line. A line that follows an entry without its
newline makes one line of both. -/
def write (log : AuditLog) (entry : AuditEntry) (fault : AppendFault) : AuditLog :=
  match fault, log.tail with
  | .refused, _ => log
  | _, .broken => log
  | _, .unterminated => ⟨log.entries.dropLast, .broken⟩
  | .torn, .clean => ⟨log.entries, .broken⟩
  | .unterminated, .clean => ⟨log.entries ++ [entry], .unterminated⟩
  | .none, .clean => ⟨log.entries ++ [entry], .clean⟩
  | .unconfirmed, .clean => ⟨log.entries ++ [entry], .clean⟩

/-- Append one normalized entry. -/
def record (log : AuditLog) (entry : AuditEntry) (fault : AppendFault) :
    Except BrokerError Unit × AuditLog :=
  if normalized entry then
    (if fault = .none then .ok () else .error .storage, log.write entry fault)
  else (.error .invalidGrant, log)

/-- Whether some entry satisfies a predicate; the search stops at the first. -/
def find (log : AuditLog) (predicate : AuditEntry → Bool) :
    Except BrokerError (Option AuditEntry) :=
  match log.entries.find? predicate with
  | some entry => .ok (some entry)
  | none => if log.tail = .broken then .error .storage else .ok none

/-- The operator record in the order the broker decided. -/
def read (log : AuditLog) : Except BrokerError (List AuditEntry) :=
  if log.tail = .broken ∨ maxEntries < log.entries.length then .error .storage
  else .ok log.entries

end AuditLog

/-! ### Replay -/

/-- A count below a power of two, one more or `amount` more, when it still fits. -/
def addChecked (bits n amount : Nat) : Option Nat :=
  if n + amount < 2 ^ bits then some (n + amount) else none

/-- Exact approved shell input and its optional invocation limit. -/
structure ApprovedCommands where
  commandDigest : String
  timeoutMs : Nat
  uses : Option Nat
  allowDelegation : Bool
  expiresAtMs : Nat
deriving DecidableEq, Repr

/-- What replay reads of the consumed authorization. -/
structure Source where
  authorizationId : String
  sessionId : String
  runId : String
  identitySlot : Nat
  envelopeRevision : Nat
  commands : Option ApprovedCommands
deriving DecidableEq, Repr

/-- Command state of one Session as of its last durable audit entry. -/
structure CommandReplay where
  commands : ApprovedCommands
  principalSequence : Nat
  dispatchSequence : Nat
  grantSequence : Nat
  revoked : Bool
deriving DecidableEq, Repr

/-- Why the audit cannot yield a trustworthy command state. -/
inductive ReplayRefusal where
  | notApproved
  | expired
  | notConsumed
  | contradictory
deriving DecidableEq, Repr

/-- The variables of the replay loop; a grant has what it reserved and what it served. -/
structure ReplayState where
  consumed : Bool
  revoked : Bool
  principalSequence : Nat
  dispatchSequence : Nat
  grants : List (Nat × Nat × Nat)
  spent : Nat
deriving DecidableEq, Repr

/-- Change the value of one key. -/
def modifyAt {α : Type} (key : Nat) (change : α → α) (items : List (Nat × α)) : List (Nat × α) :=
  items.map fun item => if item.1 = key then (item.1, change item.2) else item

namespace ReplayState

def start : ReplayState := ⟨false, false, 0, 0, [], 0⟩

/-- What an entry reserves under a limit. -/
def reservation (limit uses : Option Nat) : Option Nat :=
  match limit, uses with
  | some limit, some uses => if uses ≠ 0 ∧ uses ≤ limit then some uses else none
  | none, some uses => if uses ≠ 0 then some uses else none
  | none, none => some (2 ^ 32 - 1)
  | some _, none => none

/-- What is spent after a reservation; without a limit reservations spend nothing. -/
def reserve (limit : Option Nat) (spent reserved : Nat) : Option Nat :=
  if limit.isSome then addChecked 32 spent reserved else some spent

/-- The match on one decision of the Session. -/
def decide (source : Source) (limit : Option Nat) (s : ReplayState) :
    AuditDecision → Option ReplayState
  | .authorizationConsumed => if s.consumed then none else some { s with consumed := true }
  | .effectCommitIntent none sequence => do
    if !s.consumed || addChecked 64 s.principalSequence 1 ≠ some sequence then none else
    let dispatchSequence ← addChecked 64 s.dispatchSequence 1
    let spent ← addChecked 32 s.spent 1
    return { s with principalSequence := sequence, dispatchSequence, spent }
  | .toolGranted grant _ revision uses => do
    let reserved ← reservation limit uses
    if !s.consumed || revision ≠ source.envelopeRevision || grant ≠ s.grants.length + 1 ||
        (s.grants.lookup grant).isSome then none else
    let spent ← reserve limit s.spent reserved
    return { s with grants := s.grants ++ [(grant, reserved, 0)], spent }
  | .effectCommitIntent (some grant) sequence => do
    let (reserved, previous) ← s.grants.lookup grant
    if addChecked 64 previous 1 ≠ some sequence || reserved < sequence then none else
    let dispatchSequence ← addChecked 64 s.dispatchSequence 1
    return { s with
      grants := modifyAt grant (fun (reserved, _) => (reserved, sequence)) s.grants
      dispatchSequence }
  | .capabilitiesRevocationRequested => some { s with revoked := true }
  | .capabilitiesRevoked => some { s with revoked := true }
  | _ => some s

/-- Whether an entry is attributed to the consumed authorization. -/
def attributed (source : Source) (entry : AuditEntry) : Bool :=
  entry.authorizationId == source.authorizationId && entry.runId == source.runId &&
    entry.identitySlot == source.identitySlot

/-- One turn of the loop, over all entries. -/
def next (source : Source) (limit : Option Nat) (s : ReplayState) (entry : AuditEntry) :
    Option ReplayState :=
  if entry.sessionId ≠ source.sessionId then some s
  else if attributed source entry then s.decide source limit entry.decision
  else none

end ReplayState

/-- Replay the record for one Session. Uncertain outcomes stay spent. -/
def replay (source : Source) (audit : List AuditEntry) (nowMs : Nat) :
    Except ReplayRefusal CommandReplay :=
  match source.commands with
  | none => .error .notApproved
  | some commands =>
    if commands.expiresAtMs ≤ nowMs then .error .expired
    else
      match audit.foldlM (ReplayState.next source commands.uses) .start with
      | none => .error .contradictory
      | some s =>
        if !s.consumed then .error .notConsumed
        else if commands.uses.any (· < s.spent) then .error .contradictory
        else .ok {
          commands := { commands with uses := commands.uses.map (· - s.spent) }
          principalSequence := s.principalSequence
          dispatchSequence := s.dispatchSequence
          grantSequence := s.grants.length
          revoked := s.revoked }

end Louiselm.Broker
