import Louiselm.Broker.CommandAudit

/-!
# The broker's command authority

`skills-core/src/broker/commands.rs` and `command_grants.rs`, with the checks of
`broker/delegation.rs` and `launch_protocol/command.rs` they rest on: the owner of one
Agent lifetime's command budget, its delegated grants, and their revocation. The lengths of
canonical messages are parameters; every reading of a clock is one too. Operations that the
owner denies whatever they carry are one constructor.
-/

namespace Louiselm.Broker
open Base Canonical Launch
open Launch.Protocol (ErrorCode ProtocolError protocolVersion validateSchema
  validateVersion validateIdentifier validateDigest)

def commandSchema : String := "louiselm.launch.command/1"

def toolExecutionSchema : String := "louiselm.launch.tool-execution/1"

def maxProtocolMessageBytes : Nat := 64 * 1024

def maxToolOutputBytes : Nat := 4096

/-! ### Messages -/

/-- A process identity supplied by the supervisor for one packet. -/
structure CommandPrincipal where
  channelId : String
  pid : Nat
  uid : Nat
  gid : Nat
deriving DecidableEq, Repr

/-- Agent-requested attenuation of an existing operator approval. -/
structure GrantRequest where
  sequence : Nat
  commandDigest : String
  timeoutMs : Nat
  uses : Option Nat
  validForMs : Nat
deriving DecidableEq, Repr

/-- One bounded request to run a command. -/
structure ToolExecutionRequest where
  schema : String
  protocolVersion : UInt32
  requestId : String
  sessionId : String
  runId : String
  envelopeRevision : Nat
  sequence : Nat
  command : String
  timeoutMs : Nat
deriving DecidableEq, Repr

/-- The streams of a finished command. -/
structure ToolExecutionResult where
  exitCode : Int
  stdout : String
  stderr : String
  truncated : Bool
  timedOut : Bool
deriving DecidableEq, Repr

/-- One actual or uncertain effect outcome. -/
inductive CommandOutcome where
  | completed (output : ToolExecutionResult)
  | notStarted (error : ErrorCode)
  | unknown
deriving DecidableEq, Repr

/-- The operations this owner receives and sends; `foreign` is any it denies, with whether
its own fields are valid. -/
inductive CommandOperation where
  | delegationRequest (principal tool : CommandPrincipal) (grant : GrantRequest)
  | granted (tool : CommandPrincipal) (grant validForMs : Nat)
  | revokeGrant (grant : Nat)
  | grantRevoked (grant : Nat) (enforced : Bool)
  | request (principal : CommandPrincipal) (command : ToolExecutionRequest)
  | authorize (principal : CommandPrincipal) (principalSequence dispatchSequence : Nat)
      (commandDigest : String) (timeoutMs validForMs : Nat)
  | outcome (dispatchSequence : Nat) (outcome : CommandOutcome)
  | outcomeAcknowledged (dispatchSequence : Nat)
  | revoke
  | revoked (enforced : Bool)
  | foreign (valid : Bool)
deriving DecidableEq, Repr

/-- Correlated, closed command message for one Session, Run and revision. -/
structure CommandMessage where
  schema : String
  protocolVersion : UInt32
  requestId : String
  sessionId : String
  runId : String
  envelopeRevision : Nat
  operation : CommandOperation
deriving DecidableEq, Repr

/-- The lengths of the canonical bytes of messages and of tool requests. -/
structure Lengths where
  message : CommandMessage → Nat
  tool : ToolExecutionRequest → Nat

def malformed : ProtocolError := .new .malformedMessage none none

def invalidRequest : ProtocolError := .new .invalidRequest none none

def messageTooLarge : ProtocolError := .new .messageTooLarge none none

/-- Whether a duration lies in the protocol's thirty seconds. -/
def boundedMs (ms : Nat) : Bool := 1 ≤ ms && ms ≤ 30000

/-- Whether an optional invocation limit is one the protocol admits. -/
def boundedUses (uses : Option Nat) : Bool := uses.all fun uses => 1 ≤ uses && uses ≤ 64

def CommandPrincipal.validate (principal : CommandPrincipal) : Except ProtocolError Unit := do
  validateIdentifier principal.channelId
  require (principal.pid != 0) malformed

def GrantRequest.validate (grant : GrantRequest) : Except ProtocolError Unit := do
  validateDigest grant.commandDigest
  require (grant.sequence != 0 && boundedMs grant.timeoutMs && boundedUses grant.uses &&
    boundedMs grant.validForMs) malformed

def ToolExecutionRequest.validate (lengths : Lengths) (request : ToolExecutionRequest) :
    Except ProtocolError Unit := do
  require (decide (lengths.tool request ≤ maxProtocolMessageBytes)) messageTooLarge
  validateSchema request.schema toolExecutionSchema
  validateVersion request.protocolVersion
  validateIdentifier request.requestId
  validateIdentifier request.sessionId
  validateIdentifier request.runId
  require (request.sequence != 0 && request.command != "" &&
    request.command.utf8ByteSize ≤ 16384 && !request.command.toList.contains '\x00' &&
    boundedMs request.timeoutMs) invalidRequest

def ToolExecutionResult.validate (result : ToolExecutionResult) : Except ProtocolError Unit :=
  require (result.stdout.utf8ByteSize ≤ maxToolOutputBytes &&
    result.stderr.utf8ByteSize ≤ maxToolOutputBytes) messageTooLarge

/-- The match on the operation in a message's own validation. -/
def CommandMessage.validateOperation (lengths : Lengths) (message : CommandMessage) :
    Except ProtocolError Unit :=
  match message.operation with
  | .delegationRequest principal tool grant => do
    principal.validate
    tool.validate
    grant.validate
    require (principal.pid != tool.pid && principal.channelId != tool.channelId) malformed
  | .granted tool grant validForMs => do
    tool.validate
    require (grant != 0 && boundedMs validForMs) malformed
  | .revokeGrant grant => require (grant != 0) malformed
  | .grantRevoked grant _ => require (grant != 0) malformed
  | .request principal command => do
    principal.validate
    command.validate lengths
    require (command.requestId == message.requestId && command.sessionId == message.sessionId &&
      command.runId == message.runId && command.envelopeRevision == message.envelopeRevision)
      malformed
  | .authorize principal principalSequence dispatchSequence commandDigest timeoutMs validForMs => do
    principal.validate
    validateDigest commandDigest
    require (principalSequence != 0 && dispatchSequence != 0 && boundedMs timeoutMs &&
      boundedMs validForMs) malformed
  | .outcome dispatchSequence outcome => do
    require (dispatchSequence != 0) malformed
    match outcome with
    | .completed output => output.validate
    | _ => .ok ()
  | .outcomeAcknowledged dispatchSequence => require (dispatchSequence != 0) malformed
  | .revoke => .ok ()
  | .revoked _ => .ok ()
  | .foreign valid => require valid malformed

/-- Bounds and contradictory subjects, checked before any state transition. -/
def CommandMessage.validate (lengths : Lengths) (message : CommandMessage) :
    Except ProtocolError Unit := do
  validateSchema message.schema commandSchema
  validateVersion message.protocolVersion
  validateIdentifier message.requestId
  validateIdentifier message.sessionId
  validateIdentifier message.runId
  message.validateOperation lengths
  require (decide (lengths.message message ≤ maxProtocolMessageBytes)) messageTooLarge

/-! ### Policy -/

/-- A point of the monotonic clock, in milliseconds. -/
abbrev Instant := Nat

/-- One exact command, its timeout and its optional total effects. -/
structure CommandScope where
  commandDigest : Digest
  timeoutMs : Nat
  uses : Option Nat
deriving DecidableEq

/-- Trusted operator authorization of one Agent lifetime. -/
structure DelegationPolicy where
  authorizationId : String
  scope : CommandScope
  allowDelegation : Bool
  expiresAt : Instant
deriving DecidableEq

/-- The Agent lifetime the supervisor authenticated. -/
structure CapabilityBinding where
  sessionId : String
  runId : String
  channelId : String
  envelopeRevision : Nat
  identitySlot : Nat
  assignedUid : Nat
  assignedGid : Nat
  agentPid : Nat
deriving DecidableEq, Repr

/-- Capability failures; the causes of `audit` are dropped. -/
inductive DelegationError where
  | invalidRequest
  | identityMismatch
  | delegationDenied
  | scopeMismatch
  | expired
  | revoked
  | replay
  | budgetExhausted
  | effectFailed
  | audit
  | ownerUnavailable
deriving DecidableEq, Repr

def usesWithin (requested available : Option Nat) : Bool :=
  available.all fun limit => requested.any (· ≤ limit)

def CommandScope.valid (scope : CommandScope) : Bool :=
  boundedMs scope.timeoutMs && boundedUses scope.uses

/-- Whether a scope grants no more than its parent. -/
def CommandScope.isWithin (scope parent : CommandScope) : Bool :=
  scope.valid && parent.valid && scope.commandDigest == parent.commandDigest &&
    scope.timeoutMs ≤ parent.timeoutMs && usesWithin scope.uses parent.uses

def CommandScope.permits (sha256 : Sha256) (scope : CommandScope) (request : ToolExecutionRequest) :
    Bool :=
  scope.commandDigest == Digest.of sha256 (utf8 request.command) &&
    request.timeoutMs ≤ scope.timeoutMs

/-- The policy of approved commands, anchored at one reading of both clocks. -/
def ApprovedCommands.policy (commands : ApprovedCommands) (authorizationId : String)
    (nowMs : Nat) (now : Instant) : Except BrokerError DelegationPolicy :=
  match Digest.parse commands.commandDigest with
  | .error _ => .error .invalidGrant
  | .ok digest => do
    let scope : CommandScope := ⟨digest, commands.timeoutMs, commands.uses⟩
    require (digest.toString == commands.commandDigest && scope.valid) .invalidGrant
    require (decide (nowMs < commands.expiresAtMs)) .expired
    return ⟨authorizationId, scope, commands.allowDelegation, now + (commands.expiresAtMs - nowMs)⟩

/-! ### The owner -/

inductive OutcomeState where
  | pending
  | unknown
  | finished
deriving DecidableEq, Repr

structure SpentCommand where
  requestId : String
  principalSequence : Nat
  outcome : OutcomeState
  grant : Option Nat
deriving DecidableEq, Repr

structure Grant where
  principal : CommandPrincipal
  scope : CommandScope
  expiresAt : Instant
  remaining : Option Nat
  sequence : Nat
  revocation : Option (String × Bool)
deriving DecidableEq

/-- One exclusive broker policy owner; the maps are listed by ascending key. -/
structure CommandAuthority where
  binding : CapabilityBinding
  policy : DelegationPolicy
  remaining : Option Nat
  principalSequence : Nat
  dispatchSequence : Nat
  spent : List (Nat × SpentCommand)
  active : Bool
  revocation : Option (String × Bool)
  grants : List (Nat × Grant)
  grantSequence : Nat
deriving DecidableEq

/-- What one call meets outside the owner: the fault of its append, the wall clock where it
can be read, and successive readings of the monotonic clock. -/
structure Ambient where
  fault : AppendFault
  atMs : Option Nat
  first : Instant
  second : Instant
  third : Instant

/-- A refusal: recorded as a denial, after the owner closed, or without a record. -/
inductive Refusal where
  | denied (error : DelegationError)
  | lapsed
  | plain (error : DelegationError)
deriving DecidableEq, Repr

/-- What a call returns, and what it leaves. -/
abbrev Called (α : Type) := Except DelegationError α × CommandAuthority × AuditLog

/-- The context checks that `new` and `restore` share. -/
def validateContext (binding : CapabilityBinding) (policy : DelegationPolicy) (now : Instant) :
    Except DelegationError Unit := do
  require (isRecordIdentifier binding.sessionId && isRecordIdentifier binding.runId &&
    isRecordIdentifier binding.channelId && isRecordIdentifier policy.authorizationId &&
    binding.agentPid != 0 && policy.scope.valid) .invalidRequest
  require (decide (now < policy.expiresAt)) .expired

/-- Whether a decision belongs to an earlier lifetime of the Session. -/
def AuditDecision.ofLifetime : AuditDecision → Bool
  | .effectCommitIntent .. => true
  | .toolGranted .. => true
  | .capabilitiesRevocationRequested => true
  | .capabilitiesRevoked => true
  | _ => false

namespace CommandAuthority

/-- A fresh lifetime, of a Session that has no history. -/
def new (binding : CapabilityBinding) (policy : DelegationPolicy) (log : AuditLog) (now : Instant) :
    Except DelegationError CommandAuthority := do
  validateContext binding policy now
  let found ← (log.find fun entry =>
    entry.sessionId == binding.sessionId && entry.decision.ofLifetime).mapError fun _ => .audit
  require found.isNone .revoked
  return {
    binding, policy
    remaining := policy.scope.uses
    principalSequence := 0
    dispatchSequence := 0
    spent := []
    active := true
    revocation := none
    grants := []
    grantSequence := 0 }

/-- The same Session's lifetime, from what its durable record says. -/
def restore (binding : CapabilityBinding) (policy : DelegationPolicy) (replay : CommandReplay)
    (now : Instant) : Except DelegationError CommandAuthority := do
  validateContext binding policy now
  require (!replay.revoked) .revoked
  require (policy.scope.uses == replay.commands.uses) .invalidRequest
  return {
    binding, policy
    remaining := policy.scope.uses
    principalSequence := replay.principalSequence
    dispatchSequence := replay.dispatchSequence
    spent := []
    active := true
    revocation := none
    grants := []
    grantSequence := replay.grantSequence }

variable (a : CommandAuthority)

/-- The entry of one decision. -/
def entry (atMs : Nat) (decision : AuditDecision) : AuditEntry where
  atMs
  sessionId := a.binding.sessionId
  runId := a.binding.runId
  authorizationId := a.policy.authorizationId
  identitySlot := a.binding.identitySlot
  decision

/-- Append one decision; a failure closes the owner. -/
def record (log : AuditLog) (ambient : Ambient) (decision : AuditDecision) : Called Unit :=
  match ambient.atMs with
  | none => (.error .ownerUnavailable, { a with active := false }, log)
  | some atMs =>
    match log.record (a.entry atMs decision) ambient.fault with
    | (.ok _, log) => (.ok (), a, log)
    | (.error _, log) => (.error .audit, { a with active := false }, log)

/-- Record a decision, then go on where it became durable. -/
def recorded {α : Type} (log : AuditLog) (ambient : Ambient) (decision : AuditDecision)
    (go : CommandAuthority → Except DelegationError α × CommandAuthority) : Called α :=
  match a.record log ambient decision with
  | (.ok _, a, log) => ((go a).1, (go a).2, log)
  | (.error error, a, log) => (.error error, a, log)

/-- Return a refusal, recorded where it is a denial. -/
def refuse {α : Type} (log : AuditLog) (ambient : Ambient) : Refusal → Called α
  | .plain error => (.error error, a, log)
  | .denied error => a.recorded log ambient .capabilityDenied fun a => (.error error, a)
  | .lapsed =>
    { a with active := false }.recorded log ambient .capabilityDenied fun a => (.error .expired, a)

def message (requestId : String) (operation : CommandOperation) : CommandMessage where
  schema := commandSchema
  protocolVersion := protocolVersion
  requestId
  sessionId := a.binding.sessionId
  runId := a.binding.runId
  envelopeRevision := a.binding.envelopeRevision
  operation

def isAgent (principal : CommandPrincipal) : Bool :=
  principal.channelId == a.binding.channelId && principal.pid == a.binding.agentPid &&
    principal.uid == a.binding.assignedUid && principal.gid == a.binding.assignedGid

/-- The Agent itself, one of its grants, or no principal of this lifetime. -/
def grantOf (principal : CommandPrincipal) : Option (Option Nat) :=
  if a.isAgent principal then some none
  else (a.grants.find? fun item => item.2.principal == principal).map fun item => some item.1

/-! ### Authorizing a command -/

/-- A request that passed every check: its grant, expiry and dispatch number. -/
structure Spend where
  grant : Option Nat
  expiresAt : Instant
  dispatchSequence : Nat

/-- The checks that Agent and grant share, against the scope the request is spent from. -/
def checkSpend (sha256 : Sha256) (ambient : Ambient) (command : ToolExecutionRequest)
    (grant : Option Nat) (scope : CommandScope) (expiresAt : Instant) (sequence : Nat)
    (remaining : Option Nat) : Except Refusal Spend := do
  require (decide (ambient.second < expiresAt)) (.denied .expired)
  require (scope.permits sha256 command) (.denied .scopeMismatch)
  require (addChecked 64 sequence 1 == some command.sequence &&
    !a.spent.any (·.2.requestId == command.requestId)) (.denied .replay)
  require (remaining != some 0) (.denied .budgetExhausted)
  match addChecked 64 a.dispatchSequence 1 with
  | none => .error (.plain .replay)
  | some dispatchSequence => .ok ⟨grant, expiresAt, dispatchSequence⟩

def checkCommand (sha256 : Sha256) (ambient : Ambient) (principal : CommandPrincipal)
    (command : ToolExecutionRequest) : Except Refusal Spend := do
  require a.active (.denied .revoked)
  require (decide (ambient.first < a.policy.expiresAt)) .lapsed
  match a.grantOf principal with
  | none => .error (.denied .identityMismatch)
  | some none =>
    a.checkSpend sha256 ambient command none a.policy.scope a.policy.expiresAt
      a.principalSequence a.remaining
  | some (some id) =>
    match a.grants.lookup id with
    | none => .error (.plain .ownerUnavailable)
    | some granted => do
      require granted.revocation.isNone (.denied .revoked)
      a.checkSpend sha256 ambient command (some id) granted.scope granted.expiresAt
        granted.sequence granted.remaining

/-- One use of a grant. -/
def Grant.use (sequence : Nat) (granted : Grant) : Grant :=
  { granted with remaining := granted.remaining.map (· - 1), sequence }

/-- Spend one use before any decision leaves the owner. -/
def spend (command : ToolExecutionRequest) (spending : Spend) : CommandAuthority :=
  let spent := a.spent ++ [(spending.dispatchSequence,
    ⟨command.requestId, command.sequence, .pending, spending.grant⟩)]
  match spending.grant with
  | some id =>
    { a with
      grants := modifyAt id (Grant.use command.sequence) a.grants
      dispatchSequence := spending.dispatchSequence
      spent }
  | none =>
    { a with
      remaining := a.remaining.map (· - 1)
      principalSequence := command.sequence
      dispatchSequence := spending.dispatchSequence
      spent }

/-- The time left of an authority, where there is some. -/
def validFor (remainingMs : Nat) : Except DelegationError Nat := do
  require (0 < remainingMs && remainingMs < 2 ^ 32) .expired
  return remainingMs

def authorize (sha256 : Sha256) (log : AuditLog) (ambient : Ambient)
    (principal : CommandPrincipal) (command : ToolExecutionRequest) : Called CommandOperation :=
  match a.checkCommand sha256 ambient principal command with
  | .error refusal => a.refuse log ambient refusal
  | .ok spending =>
    (a.spend command spending).recorded log ambient
      (.effectCommitIntent spending.grant command.sequence) fun a =>
        ((validFor (min (spending.expiresAt - ambient.third) 30000)).map fun validForMs =>
          .authorize principal command.sequence spending.dispatchSequence
            a.policy.scope.commandDigest.toString command.timeoutMs validForMs, a)

/-! ### Delegation -/

/-- A delegation that passed every check: the grant it makes. -/
def checkDelegation (ambient : Ambient) (principal tool : CommandPrincipal)
    (request : GrantRequest) : Except Refusal Grant := do
  require a.active (.denied .revoked)
  require (a.isAgent principal) (.denied .identityMismatch)
  require a.policy.allowDelegation (.denied .delegationDenied)
  require (addChecked 64 a.grantSequence 1 == some request.sequence) (.denied .replay)
  match Digest.parse request.commandDigest with
  | .error _ => .error (.plain .invalidRequest)
  | .ok digest => do
    let scope : CommandScope := ⟨digest, request.timeoutMs, request.uses⟩
    let expiresAt := ambient.first + request.validForMs
    require (decide (ambient.first < a.policy.expiresAt)) (.denied .expired)
    require (scope.isWithin a.policy.scope && expiresAt ≤ a.policy.expiresAt)
      (.denied .scopeMismatch)
    require (tool.uid == a.binding.assignedUid && tool.gid == a.binding.assignedGid &&
      tool.pid != a.binding.agentPid && tool.channelId != a.binding.channelId &&
      !a.grants.any fun item => item.2.principal.pid == tool.pid ||
        item.2.principal.channelId == tool.channelId) (.denied .identityMismatch)
    require (usesWithin scope.uses a.remaining) (.denied .budgetExhausted)
    return ⟨tool, scope, expiresAt, scope.uses, 0, none⟩

/-- Reserve a grant's uses before durability. -/
def reserve (sequence : Nat) (granted : Grant) : CommandAuthority :=
  { a with
    remaining := match a.remaining, granted.scope.uses with
      | some remaining, some uses => some (remaining - uses)
      | remaining, _ => remaining
    grantSequence := sequence
    grants := a.grants ++ [(sequence, granted)] }

def delegate (log : AuditLog) (ambient : Ambient) (principal tool : CommandPrincipal)
    (request : GrantRequest) : Called CommandOperation :=
  match a.checkDelegation ambient principal tool request with
  | .error refusal => a.refuse log ambient refusal
  | .ok granted =>
    (a.reserve request.sequence granted).recorded log ambient
      (.toolGranted request.sequence tool.pid a.binding.envelopeRevision request.uses) fun a =>
        ((validFor (granted.expiresAt - ambient.second)).map fun validForMs =>
          .granted tool request.sequence validForMs, a)

/-! ### Revocation and outcomes -/

/-- A grant with its revocation. -/
def Grant.revoked (revocation : String × Bool) (granted : Grant) : Grant :=
  { granted with revocation := some revocation }

def setRevocation (id : Nat) (revocation : String × Bool) : CommandAuthority :=
  { a with grants := modifyAt id (Grant.revoked revocation) a.grants }

/-- Stop approvals for one grant before requesting the supervisor's enforcement. -/
def revokeGrant (log : AuditLog) (ambient : Ambient) (requestId : String) (grant : Nat) :
    Called CommandMessage :=
  if isRecordIdentifier requestId then
    match a.grants.lookup grant with
    | none => (.error .invalidRequest, a, log)
    | some target =>
      if target.revocation.isSome then (.error .replay, a, log)
      else
        (a.setRevocation grant (requestId, false)).recorded log ambient
          (.toolRevocationRequested grant) fun a =>
            (.ok (a.message requestId (.revokeGrant grant)), a)
  else (.error .invalidRequest, a, log)

/-- Stop approvals before asking the supervisor to enforce cancellation. -/
def revoke (log : AuditLog) (ambient : Ambient) (requestId : String) : Called CommandMessage :=
  if isRecordIdentifier requestId && a.revocation.isNone then
    { a with active := false, revocation := some (requestId, false) }.recorded log ambient
      .capabilitiesRevocationRequested fun a => (.ok (a.message requestId .revoke), a)
  else (.error .invalidRequest, a, log)

def recordGrantRevocation (log : AuditLog) (ambient : Ambient) (requestId : String) (grant : Nat)
    (enforced : Bool) : Called Unit :=
  if (a.grants.lookup grant).any (·.revocation == some (requestId, false)) then
    if enforced then
      a.recorded log ambient (.toolRevoked grant) fun a =>
        (.ok (), a.setRevocation grant (requestId, true))
    else (.error .effectFailed, a, log)
  else (.error .replay, a, log)

def CommandOutcome.finished : CommandOutcome → Bool
  | .unknown => false
  | _ => true

def CommandOutcome.succeeded : CommandOutcome → Bool
  | .completed _ => true
  | _ => false

def recordOutcome (log : AuditLog) (ambient : Ambient) (requestId : String) (sequence : Nat)
    (outcome : CommandOutcome) : Called Unit :=
  match a.spent.lookup sequence with
  | none => (.error .replay, a, log)
  | some spent =>
    let finished := CommandOutcome.finished outcome
    if spent.requestId ≠ requestId ∨ spent.outcome = .finished ∨
        (finished = false ∧ spent.outcome = .unknown) then (.error .replay, a, log)
    else
      a.recorded log ambient (if finished then
          .effectFinished spent.grant spent.principalSequence (CommandOutcome.succeeded outcome)
        else .effectOutcomeUnknown sequence) fun a =>
          (.ok (), { a with
            spent := modifyAt sequence (fun spent =>
              { spent with outcome := if finished then .finished else .unknown }) a.spent })

/-- The supervisor's report that revocation is enforced. -/
def recordRevocation (log : AuditLog) (ambient : Ambient) (requestId : String) (enforced : Bool) :
    Called Unit :=
  if a.revocation = some (requestId, false) then
    if enforced then
      a.recorded log ambient .capabilitiesRevoked fun a =>
        (.ok (), { a with revocation := some (requestId, true) })
    else (.error .effectFailed, a, log)
  else (.error .replay, a, log)

/-- The match on the operation of a message of this Session, Run and revision. -/
def operate (sha256 : Sha256) (log : AuditLog) (ambient : Ambient) (message : CommandMessage) :
    Called CommandOperation :=
  let reply (called : Called Unit) (operation : CommandOperation) : Called CommandOperation :=
    (called.1.map fun _ => operation, called.2)
  match message.operation with
  | .delegationRequest principal tool grant => a.delegate log ambient principal tool grant
  | .grantRevoked grant enforced =>
    reply (a.recordGrantRevocation log ambient message.requestId grant enforced)
      (.grantRevoked grant true)
  | .request principal command => a.authorize sha256 log ambient principal command
  | .outcome sequence outcome =>
    reply (a.recordOutcome log ambient message.requestId sequence outcome)
      (.outcomeAcknowledged sequence)
  | .revoked enforced =>
    reply (a.recordRevocation log ambient message.requestId enforced) (.revoked true)
  | _ => a.refuse log ambient (.denied .invalidRequest)

/-- One record authenticated by the owning supervisor transport. -/
def handle (lengths : Lengths) (sha256 : Sha256) (log : AuditLog) (ambient : Ambient)
    (message : CommandMessage) : Called CommandMessage :=
  match message.validate lengths with
  | .error _ => (.error .invalidRequest, a, log)
  | .ok _ =>
    if message.sessionId = a.binding.sessionId ∧ message.runId = a.binding.runId ∧
        message.envelopeRevision = a.binding.envelopeRevision then
      match a.operate sha256 log ambient message with
      | (result, after) => (result.map fun operation =>
            a.message message.requestId operation, after)
    else a.refuse log ambient (.denied .scopeMismatch)

end CommandAuthority
end Louiselm.Broker
