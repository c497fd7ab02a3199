import Louiselm.Broker.Commands

/-!
# The broker's single-use authorizations

`skills-core/src/broker/authorization.rs` over the record files of `broker.rs`, the request
of `launch.rs` and the identity pool of `launcher_install/identity.rs`. The approvals that a
grant carries beside its commands are parameters with their own checks. A directory lists
its records by identifier, which the file name spells; an operation stops where one of its
file operations fails or the process dies, and what it wrote until then stays.
-/

namespace Louiselm.Broker.Authorization
open Base Canonical Launch
open Launch.Protocol (ConformanceAuthorization LaunchAuthorization launchAuthorizationSchema)

def requestSchema : String := "louiselm.launch.request/3"

def maxRequestBytes : Nat := 64 * 1024

def maxIdentitySlots : UInt32 := 4096

/-! ### Record files -/

section

variable {α : Type}

/-- What lies at a record's path: a file that no reader accepts, or a whole record. -/
inductive Stored (α : Type) where
  | torn
  | whole (record : α)

abbrev Records (α : Type) := List (String × Stored α)

/-- How far the write of a new record comes: to its end, nowhere, to a part of the bytes,
or to all of them without the confirmation. -/
inductive WriteFault where
  | none
  | refused
  | torn
  | unconfirmed
deriving DecidableEq, Repr

/-- Read one bounded record. -/
def Stored.read (size : α → Nat) : Stored α → Except BrokerError α
  | .torn => .error .storage
  | .whole record => if size record ≤ maxRecordBytes then .ok record else .error .storage

def readRecord (size : α → Nat) (records : Records α) (name : String) :
    Except BrokerError (Option α) :=
  match records.lookup name with
  | none => .ok none
  | some stored => (stored.read size).map some

/-- Write one durable record that must not already exist. -/
def writeNewRecord (records : Records α) (name : String) (record : α) (fault : WriteFault) :
    Except BrokerError Unit × Records α :=
  if (records.lookup name).isSome then (.error .duplicateAuthorization, records)
  else
    match fault with
    | .none => (.ok (), records ++ [(name, .whole record)])
    | .refused => (.error .storage, records)
    | .torn => (.error .storage, records ++ [(name, .torn)])
    | .unconfirmed => (.error .storage, records ++ [(name, .whole record)])

/-- Read every record of a directory, and leave out those to skip. -/
def scan {β : Type} (read : Stored α → Except BrokerError β) (skip : β → Except BrokerError Bool) :
    Records α → Except BrokerError (List β)
  | [] => .ok []
  | (_, stored) :: records => do
    let held ← read stored
    let skipped ← skip held
    let rest ← scan read skip records
    return if skipped then rest else held :: rest

end

/-! ### The identity pool -/

structure Identity where
  slot : UInt32
  uid : UInt32
  gid : UInt32
deriving DecidableEq, Repr

/-- One fixed contiguous pool from which Session identities are leased. -/
structure IdentityPool where
  uidStart : UInt32
  gidStart : UInt32
  slots : UInt32
deriving DecidableEq, Repr

def IdentityPool.valid (pool : IdentityPool) : Bool :=
  pool.slots != 0 && pool.slots ≤ maxIdentitySlots && pool.uidStart != 0 && pool.gidStart != 0 &&
    pool.uidStart.toNat + pool.slots.toNat < 2 ^ 32 &&
    pool.gidStart.toNat + pool.slots.toNat < 2 ^ 32

/-- One bounded slot's host identity. -/
def IdentityPool.identity (pool : IdentityPool) (slot : UInt32) : Except BrokerError Identity := do
  require (pool.valid && slot < pool.slots) .invalidPool
  return ⟨slot, pool.uidStart + slot, pool.gidStart + slot⟩

/-- Who holds a slot; every occupant is shown as starting. -/
structure OccupiedSessionIdentity where
  sessionId : String
  slot : UInt32
deriving DecidableEq, Repr

/-- Whether occupancy evidence can be composed for an operator. -/
def composes (occupants : List OccupiedSessionIdentity) : Bool :=
  occupants.all (fun occupant => (Protocol.validateIdentifier occupant.sessionId).isOk) &&
    decide (occupants.map (·.slot)).Nodup && decide (occupants.map (·.sessionId)).Nodup

/-! ### Grants and records -/

/-- The approvals a grant may carry beside its commands, and the skills of its request. -/
structure Approvals where
  Skills : Type
  Dependencies : Type
  SkillRequests : Type
  BeadsMutations : Type
  ProviderRequests : Type

variable {A : Approvals}

/-- A closed request for one verified Session. -/
structure LaunchRequest (A : Approvals) where
  schema : String
  protocolVersion : UInt32
  requestId : String
  authorizationId : String
  sessionId : String
  runId : String
  agentId : String
  envelopeId : String
  envelopeRevision : UInt64
  skills : A.Skills
  sessionInputManifestId : String

/-- What the operator's controller asks to authorize. -/
structure GrantRequest (A : Approvals) where
  role : LaunchRole
  dependencies : Option A.Dependencies
  conformance : ConformanceAuthorization
  requireColdRecovery : Bool
  request : LaunchRequest A
  controllerUid : UInt32
  expiresAtMs : UInt64
  brokerLossGraceMs : UInt32
  commands : Option ApprovedCommands
  skillRequests : Option A.SkillRequests
  beadsMutations : Option A.BeadsMutations
  providerRequests : Option A.ProviderRequests

/-- One durable single-use authorization awaiting its supervisor. -/
structure PendingAuthorization (A : Approvals) where
  role : LaunchRole
  dependencies : Option A.Dependencies
  conformance : ConformanceAuthorization
  requireColdRecovery : Bool
  authorizationId : String
  requestId : String
  requestDigest : String
  controllerUid : UInt32
  sessionId : String
  runId : String
  agentId : String
  envelopeRevision : UInt64
  identity : Identity
  expiresAtMs : UInt64
  brokerLossGraceMs : UInt32
  commands : Option ApprovedCommands
  skillRequests : Option A.SkillRequests
  beadsMutations : Option A.BeadsMutations
  providerRequests : Option A.ProviderRequests

/-- Durable evidence that one authorization was spent. -/
structure ConsumedAuthorization (A : Approvals) where
  authorization : PendingAuthorization A
  consumedAtMs : UInt64

/-- The checks of the approvals, and the encodings of requests and records. -/
structure Rules (A : Approvals) where
  sha256 : Sha256
  canonicalBytes : LaunchRequest A → Bytes
  skills : A.Skills → Bool
  dependencies : A.Dependencies → UInt64 → Except BrokerError Unit
  inputManifestDigest : A.Dependencies → String
  skillRequests : A.SkillRequests → UInt64 → Bool
  beadsMutations : A.BeadsMutations → UInt64 → Bool
  providerRequests : A.ProviderRequests → UInt64 → Bool
  providerExpiresAtMs : A.ProviderRequests → UInt64
  pendingBytes : PendingAuthorization A → Nat
  consumedBytes : ConsumedAuthorization A → Nat

variable (rules : Rules A)

/-- The content address bound by a request's single-use authorization. -/
def LaunchRequest.digest (request : LaunchRequest A) : Digest :=
  .of rules.sha256 (rules.canonicalBytes request)

/-- The closed request, without its launch authority; every failure is an invalid grant. -/
def LaunchRequest.validate (request : LaunchRequest A) : Except BrokerError Unit :=
  require (decide ((rules.canonicalBytes request).length ≤ maxRequestBytes) &&
    request.schema == requestSchema && request.protocolVersion == Protocol.protocolVersion &&
    isRecordIdentifier request.requestId && isRecordIdentifier request.authorizationId &&
    isRecordIdentifier request.sessionId && isRecordIdentifier request.runId &&
    isRecordIdentifier request.agentId && isRecordIdentifier request.envelopeId &&
    rules.skills request.skills && isCanonicalDigest request.sessionInputManifestId) .invalidGrant

/-- The checks of a grant before any record is read. -/
def GrantRequest.validate (grant : GrantRequest A) (nowMs : UInt64) : Except BrokerError Unit := do
  grant.request.validate rules
  require (!(grant.role == .fixedVerifier && (grant.requireColdRecovery || grant.commands.isSome ||
    grant.dependencies.isSome || grant.skillRequests.isSome || grant.beadsMutations.isSome ||
    grant.providerRequests.isSome))) .invalidGrant
  require (!(decide (grant.expiresAtMs ≤ nowMs) || grant.controllerUid == 0)) .invalidGrant
  (grant.conformance.validateFor grant.request.sessionId (grant.request.digest rules).toString
    grant.controllerUid nowMs).mapError fun _ => .invalidGrant
  forM grant.commands fun commands => do
    -- the instant it is anchored at is not kept
    let _ ← commands.policy grant.request.authorizationId nowMs.toNat 0
  forM grant.dependencies fun dependencies => do
    rules.dependencies dependencies nowMs
    require (rules.inputManifestDigest dependencies == grant.request.sessionInputManifestId)
      .requestMismatch
  require (grant.skillRequests.all (rules.skillRequests · nowMs)) .invalidGrant
  require (grant.beadsMutations.all (rules.beadsMutations · nowMs)) .invalidGrant
  require (grant.providerRequests.all (rules.providerRequests · nowMs)) .invalidGrant

/-- The record of a grant under an assigned identity. -/
def GrantRequest.pending (grant : GrantRequest A) (identity : Identity) :
    PendingAuthorization A where
  role := grant.role
  dependencies := grant.dependencies
  conformance := grant.conformance
  requireColdRecovery := grant.requireColdRecovery
  authorizationId := grant.request.authorizationId
  requestId := grant.request.requestId
  requestDigest := (grant.request.digest rules).toString
  controllerUid := grant.controllerUid
  sessionId := grant.request.sessionId
  runId := grant.request.runId
  agentId := grant.request.agentId
  envelopeRevision := grant.request.envelopeRevision
  identity
  expiresAtMs := grant.expiresAtMs
  brokerLossGraceMs := grant.brokerLossGraceMs
  commands := grant.commands
  skillRequests := grant.skillRequests
  beadsMutations := grant.beadsMutations
  providerRequests := grant.providerRequests

def PendingAuthorization.launchAuthorization (pending : PendingAuthorization A) :
    LaunchAuthorization where
  role := pending.role
  conformance := pending.conformance
  schema := launchAuthorizationSchema
  protocolVersion := Protocol.protocolVersion
  authorizationId := pending.authorizationId
  requestId := pending.requestId
  requestDigest := pending.requestDigest
  controllerUid := pending.controllerUid
  sessionId := pending.sessionId
  runId := pending.runId
  envelopeRevision := pending.envelopeRevision
  identitySlot := pending.identity.slot
  assignedUid := pending.identity.uid
  assignedGid := pending.identity.gid
  providerExpiresAtMs := pending.providerRequests.map rules.providerExpiresAtMs
  expiresAtMs := pending.expiresAtMs
  brokerLossGraceMs := pending.brokerLossGraceMs

/-! ### The store -/

/-- The broker's durable single-use authorization store. -/
structure AuthorizationStore (A : Approvals) where
  pool : IdentityPool
  pending : Records (PendingAuthorization A)
  consumed : Records (ConsumedAuthorization A)

/-- Whether a Session's receipts prove its terminal disposal. -/
abbrev Terminal (A : Approvals) := PendingAuthorization A → Except BrokerError Bool

namespace AuthorizationStore

variable (store : AuthorizationStore A)

def readConsumed (stored : Stored (ConsumedAuthorization A)) :
    Except BrokerError (PendingAuthorization A) :=
  (stored.read rules.consumedBytes).map (·.authorization)

/-- The live occupancy of the installed pool, from durable state. -/
def occupants (nowMs : UInt64) (terminal : Terminal A) :
    Except BrokerError (List OccupiedSessionIdentity) := do
  let pending ← scan (·.read rules.pendingBytes)
      (fun held => .ok (decide (held.expiresAtMs ≤ nowMs)))
    store.pending
  let consumed ← scan (readConsumed rules) terminal store.consumed
  return (pending ++ consumed).map fun held => ⟨held.sessionId, held.identity.slot⟩

/-- The lowest installed slot no live Session holds. -/
def assignIdentity (nowMs : UInt64) (terminal : Terminal A) : Except BrokerError Identity := do
  let occupants ← store.occupants rules nowMs terminal
  match (List.range store.pool.slots.toNat).find? fun slot =>
    !occupants.any (·.slot.toNat == slot) with
  | some slot => store.pool.identity (UInt32.ofNat slot)
  | none => .error (if composes occupants then .identityExhausted else .invalidPool)

/-- No unattended grant fetches dependencies for a Run that has started. -/
def dependenciesBeforeRunStart (grant : GrantRequest A) : Except BrokerError Unit :=
  if grant.dependencies.isNone || grant.conformance.attendance != .unattended then .ok ()
  else do
    let started ← scan (readConsumed rules) (fun _ => .ok false) store.consumed
    require (!started.any (·.runId == grant.request.runId)) .invalidGrant

/-- Everything before the record is written: the record it will be. -/
def prepare (grant : GrantRequest A) (nowMs : UInt64) (terminal : Terminal A) :
    Except BrokerError (PendingAuthorization A) := do
  grant.validate rules nowMs
  require (isRecordIdentifier grant.request.authorizationId) .invalidGrant
  store.dependenciesBeforeRunStart rules grant
  require (!((store.pending.lookup grant.request.authorizationId).isSome ||
    (store.consumed.lookup grant.request.authorizationId).isSome)) .duplicateAuthorization
  let identity ← store.assignIdentity rules nowMs terminal
  let pending := grant.pending rules identity
  ((pending.launchAuthorization rules).validate).mapError fun _ => .invalidGrant
  return pending

/-- Record one short-lived single-use authorization; the retention of its workspace, which
comes first, may fail. -/
def authorizeInner (grant : GrantRequest A) (nowMs : UInt64) (terminal : Terminal A)
    (retained : Except BrokerError Unit) (fault : WriteFault) :
    Except BrokerError (PendingAuthorization A) × AuthorizationStore A :=
  match store.prepare rules grant nowMs terminal, retained with
  | .error error, _ => (.error error, store)
  | .ok _, .error error => (.error error, store)
  | .ok record, .ok _ =>
    match writeNewRecord store.pending grant.request.authorizationId record fault with
    | (result, pending) => (result.map fun _ => record, { store with pending })

/-- The pending record a request may spend, with the conformance decided for it. -/
def checkConsume (request : LaunchRequest A) (controllerUid : UInt32) (nowMs : UInt64)
    (decision : LaunchAuthorization → Except BrokerError LaunchAuthorization) :
    Except BrokerError (PendingAuthorization A) := do
  request.validate rules
  require (isRecordIdentifier request.authorizationId) .invalidGrant
  match ← readRecord rules.pendingBytes store.pending request.authorizationId with
  | none => .error .unknownAuthorization
  | some pending => do
    require (pending.requestDigest == (request.digest rules).toString &&
      pending.requestId == request.requestId && pending.sessionId == request.sessionId &&
      pending.runId == request.runId && pending.envelopeRevision == request.envelopeRevision)
      .requestMismatch
    require (pending.controllerUid == controllerUid) .controllerMismatch
    require (decide (nowMs < pending.expiresAtMs)) .expired
    let authorization ← decision (pending.launchAuthorization rules)
    (authorization.conformance.validateFor pending.sessionId pending.requestDigest
      pending.controllerUid nowMs).mapError fun _ => .invalidGrant
    return { pending with conformance := authorization.conformance }

/-- How far the removal of the pending record comes: to its end, nowhere, or without the
confirmation. -/
inductive RemovalFault where
  | none
  | refused
  | unconfirmed
deriving DecidableEq, Repr

/-- The store without one pending record. -/
def remove (name : String) : AuthorizationStore A :=
  { store with pending := store.pending.eraseP (·.1 == name) }

/-- Consume the authorization bound to a request: removing the pending record is what a
single caller wins. -/
def consumeWith (request : LaunchRequest A) (controllerUid : UInt32) (nowMs : UInt64)
    (decision : LaunchAuthorization → Except BrokerError LaunchAuthorization)
    (removal : RemovalFault) (fault : WriteFault) :
    Except BrokerError LaunchAuthorization × AuthorizationStore A :=
  match store.checkConsume rules request controllerUid nowMs decision, removal with
  | .error error, _ => (.error error, store)
  | .ok _, .refused => (.error .storage, store)
  | .ok _, .unconfirmed => (.error .storage, store.remove request.authorizationId)
  | .ok spent, .none =>
    match writeNewRecord store.consumed request.authorizationId ⟨spent, nowMs⟩ fault with
    | (.error error, consumed) =>
      (.error error, { store.remove request.authorizationId with consumed })
    | (.ok _, consumed) =>
      (match (spent.launchAuthorization rules).validate with
        | .error _ => .error .invalidGrant
        | .ok _ => .ok (spent.launchAuthorization rules),
        { store.remove request.authorizationId with consumed })

end AuthorizationStore
end Louiselm.Broker.Authorization
