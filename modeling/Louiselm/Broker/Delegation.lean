import Louiselm.Base.Program
import Louiselm.Broker.Commands

/-!
# Delegated command authority

`skills-core/src/broker/delegation.rs` and `broker/delegation/state.rs`: the owner of one
Agent lifetime's command budget and of the grants it installs, and the boundary where an
effect is committed. A process is observed through its credentials, its channel and its
kernel lifetime; every such look and every reading of a clock is an argument of the call. A
call runs under the owner's lock, so its steps are those of one program. The record holds
the entries that were written whole.
-/

namespace Louiselm.Broker.Delegation
open Base Canonical
open Base.Program (query observe write effect fail ofExcept handle)

/-! ### Processes -/

/-- Credentials supplied by the kernel. -/
structure KernelCredentials where
  pid : Nat
  uid : Nat
  gid : Nat
deriving DecidableEq, Repr

/-- A channel and a kernel lifetime that the launch owner established. -/
structure BoundProcess where
  credentials : KernelCredentials
  peerCredentials : KernelCredentials
  closed : Bool
deriving DecidableEq, Repr

def BoundProcess.close (bound : BoundProcess) : BoundProcess := { bound with closed := true }

/-- One look at a bound process: whether another holder closed its channel, and whether its
lifetime goes on, where that can be observed. -/
structure Look where
  closed : Bool
  valid : Option Bool
deriving DecidableEq, Repr

/-- Stable refusals and preserved causes; the causes themselves are dropped. -/
inductive DelegationError where
  | invalidRequest
  | identityMismatch
  | delegationDenied
  | scopeMismatch
  | expired
  | revoked
  | replay
  | budgetExhausted
  | effectFailed
  | identityUnavailable
  | audit
  | completionAudit (outcome : Except DelegationError ToolExecutionResult)
  | ownerUnavailable

def checkProcess (bound : BoundProcess) (sender : KernelCredentials) (look : Look) :
    Except DelegationError Unit := do
  require (bound.credentials == sender && bound.peerCredentials == sender) .identityMismatch
  require (!(bound.closed || look.closed)) .revoked
  match look.valid with
  | none => .error .identityUnavailable
  | some valid => require valid .revoked

/-! ### The owner -/

/-- An Agent's request for one narrower tool grant. -/
structure ToolGrantRequest where
  sessionId : String
  runId : String
  envelopeRevision : Nat
  sequence : Nat
  scope : CommandScope
  expiresAt : Instant

structure Grant where
  target : BoundProcess
  scope : CommandScope
  expiresAt : Instant
  remaining : Option Nat
  sequence : Nat

def Grant.close (grant : Grant) : Grant := { grant with target := grant.target.close }

/-- The owner's state; the grants are listed by ascending number. A panic under the lock
poisons it. -/
structure State where
  binding : CapabilityBinding
  policy : DelegationPolicy
  agent : BoundProcess
  grants : List (Nat × Grant)
  remaining : Option Nat
  agentSequence : Nat
  grantSequence : Nat
  active : Bool
  poisoned : Bool

/-- An admitted effect, by the grant or by the Agent itself. -/
structure PendingEffect where
  grant : Option Nat
  request : ToolExecutionRequest
  sender : KernelCredentials
deriving DecidableEq

/-- What identifies an effect: its channel and its number there. -/
def PendingEffect.identity (pending : PendingEffect) : Option Nat × Nat :=
  (pending.grant, pending.request.sequence)

/-- A started effect, without authority. -/
structure CommittedEffect where
  grant : Option Nat
  sequence : Nat
deriving DecidableEq

/-- An effect that was started, and the last reading of the clock before. -/
structure Applied where
  grant : Option Nat
  sequence : Nat
  at_ : Instant
deriving DecidableEq

def Applied.identity (applied : Applied) : Option Nat × Nat := (applied.grant, applied.sequence)

/-- The owner with what it admitted so far, the operator record and what was started. -/
structure World where
  owner : State
  prepared : List (Option Nat × Nat)
  written : List AuditEntry
  applied : List Applied

/-- How the start of an effect ends. -/
inductive Started where
  | ok
  | failed (error : DelegationError)
  | panicked

/-- What one authority check meets outside: looks at the Agent, at the sender and at the
tool, two readings of the monotonic clock, and the wall clock where it can be read. -/
structure Moment where
  agent : Look
  sender : Look
  target : Look
  now : Instant
  later : Instant
  atMs : Option Nat

/-- What one call meets outside: its two checks, and the wall clock at its own entries. -/
structure Ambient where
  first : Moment
  second : Moment
  recordedAtMs : Option Nat
  deniedAtMs : Option Nat
  finishedAtMs : Option Nat

/-- A packet: who sent it, and the command it carries if it carries one. -/
structure AuthenticatedPacket where
  request : Option ToolExecutionRequest
  peerCredentials : KernelCredentials
  messageCredentials : KernelCredentials

/-- One operation of the owner. -/
abbrev Owned (α : Type) := Program World DelegationError α

def State.closeChannels (s : State) : State :=
  { s with
    active := false
    agent := s.agent.close
    grants := s.grants.map fun item => (item.1, item.2.close) }

/-- The grant or the Agent that an effect spends from. -/
def State.spend (s : State) (grant : Option Nat) (sequence : Nat) : State :=
  match grant with
  | some id =>
    { s with
      grants := modifyAt id
        (fun grant => { grant with remaining := grant.remaining.map (· - 1), sequence }) s.grants }
  | none => { s with remaining := s.remaining.map (· - 1), agentSequence := sequence }

/-- Install a grant, whose uses leave the Agent's. -/
def State.install (s : State) (request : ToolGrantRequest) (target : BoundProcess) : State :=
  { s with
    remaining :=
      match s.remaining, request.scope.uses with
      | some remaining, some uses => some (remaining - uses)
      | remaining, _ => remaining
    grantSequence := request.sequence
    grants := s.grants ++
      [(request.sequence, ⟨target, request.scope, request.expiresAt, request.scope.uses, 0⟩)] }

/-- Change the owner's state. -/
def change (f : State → State) : Owned Unit := effect fun w => { w with owner := f w.owner }

/-- Append one normalized entry; where that fails, every channel is closed. -/
def record (decision : AuditDecision) (atMs : Option Nat) : Owned Unit := do
  let s ← observe (·.owner)
  match atMs with
  | none => fail .ownerUnavailable
  | some atMs =>
    let entry : AuditEntry := ⟨atMs, s.binding.sessionId, s.binding.runId,
      s.policy.authorizationId, s.binding.identitySlot, decision⟩
    handle (if AuditLog.normalized entry then
        write (fun w => { w with written := w.written ++ [entry] }) .audit
      else fail .audit)
      fun error => do
        change State.closeChannels
        fail error

/-- Permanently revoke every channel. -/
def revokeAll (atMs : Option Nat) : Owned Unit := do
  let s ← observe (·.owner)
  if s.active then do
    change State.closeChannels
    record .capabilitiesRevoked atMs
  else pure ()

/-- Refuse a request, and record that. -/
def deny {α : Type} (error : DelegationError) (atMs : Option Nat) : Owned α := do
  record .capabilityDenied atMs
  fail error

/-- Take the owner's lock. -/
def lock : Owned Unit := do
  let s ← observe (·.owner)
  if s.poisoned then do
    change State.closeChannels
    fail .ownerUnavailable
  else pure ()

/-- The Agent's own authority: it is active, its process lives, and its policy holds. -/
def parent (moment : Moment) : Owned Unit := do
  let s ← observe (·.owner)
  if !s.active then fail .revoked
  else
    match checkProcess s.agent s.agent.credentials moment.agent with
    | .error error => do
      revokeAll moment.atMs
      fail error
    | .ok _ =>
      if s.policy.expiresAt ≤ moment.now then do
        revokeAll moment.atMs
        fail .expired
      else pure ()

/-- What a grant request must satisfy beside the Agent's own authority. -/
def State.admitsGrant (s : State) (sender : KernelCredentials) (request : ToolGrantRequest)
    (target : BoundProcess) (moment : Moment) : Except DelegationError Unit := do
  checkProcess s.agent sender moment.sender
  require s.policy.allowDelegation .delegationDenied
  require (addChecked 64 s.grantSequence 1 == some request.sequence) .replay
  require (request.sessionId == s.binding.sessionId && request.runId == s.binding.runId &&
    request.envelopeRevision == s.binding.envelopeRevision &&
    request.scope.isWithin s.policy.scope && request.expiresAt ≤ s.policy.expiresAt) .scopeMismatch
  require (decide (moment.later < request.expiresAt)) .expired
  require (usesWithin request.scope.uses s.remaining) .budgetExhausted
  require (target.credentials != s.agent.credentials &&
    s.grants.all fun item => item.2.target.credentials != target.credentials) .identityMismatch
  checkProcess target target.credentials moment.target

def checkGrant (sender : KernelCredentials) (request : ToolGrantRequest) (target : BoundProcess)
    (moment : Moment) : Owned Unit := do
  parent moment
  let s ← observe (·.owner)
  ofExcept (s.admitsGrant sender request target moment)

/-- The scope an effect is held against. -/
def State.scopeOf (s : State) (grant : Option Nat) (sender : KernelCredentials)
    (moment : Moment) : Except DelegationError CommandScope :=
  match grant with
  | some id =>
    match s.grants.lookup id with
    | none => .error .revoked
    | some entry => do
      checkProcess entry.target sender moment.sender
      require (decide (moment.later < entry.expiresAt)) .expired
      return entry.scope
  | none => do
    checkProcess s.agent sender moment.sender
    return s.policy.scope

/-- What an effect must satisfy beside the Agent's own authority. -/
def State.admitsEffect (sha256 : Sha256) (lengths : Lengths) (s : State) (grant : Option Nat)
    (sender : KernelCredentials) (request : ToolExecutionRequest) (moment : Moment) :
    Except DelegationError Unit := do
  require (request.validate lengths).isOk .invalidRequest
  require (request.sessionId == s.binding.sessionId && request.runId == s.binding.runId &&
    request.envelopeRevision == s.binding.envelopeRevision) .scopeMismatch
  let scope ← s.scopeOf grant sender moment
  require (scope.permits sha256 request) .scopeMismatch

section

variable (sha256 : Sha256) (lengths : Lengths)

def checkEffect (grant : Option Nat) (sender : KernelCredentials) (request : ToolExecutionRequest)
    (moment : Moment) : Owned Unit := do
  parent moment
  let s ← observe (·.owner)
  ofExcept (s.admitsEffect sha256 lengths grant sender request moment)

/-- Bind an approved policy to the exact authenticated Agent. -/
def new (binding : CapabilityBinding) (policy : DelegationPolicy) (agent : BoundProcess)
    (look : Look) (now : Instant) : Except DelegationError State := do
  require ([binding.sessionId, binding.runId, binding.channelId, policy.authorizationId].all
      isRecordIdentifier && policy.scope.valid && binding.agentPid == agent.credentials.pid &&
    binding.assignedUid == agent.credentials.uid && binding.assignedGid == agent.credentials.gid)
    .invalidRequest
  checkProcess agent agent.credentials look
  require (decide (now < policy.expiresAt)) .expired
  return ⟨binding, policy, agent, [], policy.scope.uses, 0, 0, true, false⟩

/-- Reserve a narrower grant that the authenticated Agent asks for. -/
def delegate (sender : KernelCredentials) (request : ToolGrantRequest) (target : BoundProcess)
    (ambient : Ambient) : Owned Nat := do
  lock
  handle (checkGrant sender request target ambient.first) fun error => deny error ambient.deniedAtMs
  record (.toolGranted request.sequence target.credentials.pid request.envelopeRevision
    request.scope.uses) ambient.recordedAtMs
  handle (checkGrant sender request target ambient.second) fun error =>
    deny error ambient.deniedAtMs
  change (·.install request target)
  return request.sequence

/-- The number an effect must have, and what is left to spend it from. -/
def State.account (s : State) (grant : Option Nat) : Except DelegationError (Option Nat × Nat) :=
  match grant with
  | some id =>
    match s.grants.lookup id with
    | none => .error .revoked
    | some entry => .ok (entry.remaining, entry.sequence)
  | none => .ok (s.remaining, s.agentSequence)

/-- Admit one effect, and spend its reservation. -/
def prepare (grant : Option Nat) (packet : AuthenticatedPacket) (ambient : Ambient) :
    Owned PendingEffect := do
  lock
  let body : Owned PendingEffect :=
    match packet.request with
    | none => fail .invalidRequest
    | some request => do
      ofExcept (require (packet.peerCredentials == packet.messageCredentials) .identityMismatch)
      checkEffect sha256 lengths grant packet.messageCredentials request ambient.first
      let s ← observe (·.owner)
      let (remaining, sequence) ← ofExcept (s.account grant)
      ofExcept (require (addChecked 64 sequence 1 == some request.sequence) .replay)
      ofExcept (require (remaining != some 0) .budgetExhausted)
      effect fun w => { w with
        owner := w.owner.spend grant request.sequence
        prepared := w.prepared ++ [(grant, request.sequence)] }
      return ⟨grant, request, packet.messageCredentials⟩
  handle body fun error => deny error ambient.deniedAtMs

/-- Record and return the actual outcome of a started effect. -/
def finish (committed : CommittedEffect) (outcome : Except DelegationError ToolExecutionResult)
    (atMs : Option Nat) : Owned ToolExecutionResult := do
  lock
  handle (record (.effectFinished committed.grant committed.sequence outcome.isOk) atMs)
    fun
      | .audit => fail (.completionAudit outcome)
      | error => fail error
  ofExcept outcome

/-- The last reading of the clock in a check. -/
def Moment.last (moment : Moment) (grant : Option Nat) : Instant :=
  if grant.isSome then moment.later else moment.now

/-- Recheck authority around the start of the effect, which is none where that panics. -/
def commit (pending : PendingEffect) (ambient : Ambient) (started : Started) :
    Owned (Option CommittedEffect) := do
  lock
  handle (checkEffect sha256 lengths pending.grant pending.sender pending.request ambient.first)
    fun error => deny error ambient.deniedAtMs
  record (.effectCommitIntent pending.grant pending.request.sequence) ambient.recordedAtMs
  handle (checkEffect sha256 lengths pending.grant pending.sender pending.request ambient.second)
    fun error => deny error ambient.deniedAtMs
  effect fun w => { w with
    applied := w.applied ++
      [⟨pending.grant, pending.request.sequence, ambient.second.last pending.grant⟩] }
  match started with
  | .ok => return some ⟨pending.grant, pending.request.sequence⟩
  | .failed error => do
    let _ ← finish ⟨pending.grant, pending.request.sequence⟩ (.error error) ambient.finishedAtMs
    fail .ownerUnavailable
  | .panicked => do
    change fun s => { s with poisoned := true }
    return none

/-- Permanently revoke this Agent channel and all delegated channels. -/
def revoke (atMs : Option Nat) : Owned Unit := do
  lock
  revokeAll atMs

end
end Louiselm.Broker.Delegation
