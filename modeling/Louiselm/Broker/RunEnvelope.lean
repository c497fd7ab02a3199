import Louiselm.Broker.Authorizations
import Louiselm.Broker.Permissions

/-!
# The operator's approval of a Run

`skills-core/src/broker/run_envelope.rs`: the authority that bounds every Session of one
Run, the comparison of a child's grant with it, and the store of its revisions. A directory
lists its records by file name in any order. What a child may do is compared as what its
approvals permit, not field by field.
-/

namespace Louiselm.Broker
open Base Canonical Launch
open Broker.Authorization (Approvals Records Stored WriteFault writeNewRecord)

def runEnvelopeSchema : String := "louiselm.broker.run-envelope/2"

def runAuthorizationSchema : String := "louiselm.broker.run-authorization/1"

/-- The approvals of this broker beside skills and dependencies. -/
abbrev ChildApprovals (Skills Dependencies : Type) : Approvals where
  Skills
  Dependencies
  SkillRequests := ApprovedSkillRequests
  BeadsMutations := ApprovedBeadsMutations
  ProviderRequests := ApprovedProviderRequests

/-- A grant for one Session of a Run. -/
abbrev ChildGrant (Skills Dependencies : Type) :=
  Authorization.GrantRequest (ChildApprovals Skills Dependencies)

/-- Exact broker-owned authority approved by the operator before child launches. -/
structure RunEnvelope where
  schema : String
  runId : String
  envelopeId : String
  envelopeRevision : UInt64
  controllerUid : UInt32
  beadScope : Option ApprovedBeadsMutations
  providerRequests : Option ApprovedProviderRequests
  commands : Option ApprovedCommands
  skillRequests : Option ApprovedSkillRequests
  verificationPlanDigest : String
  maxSessions : UInt32
  expiresAtMs : UInt64
deriving DecidableEq, Repr

/-- Receipt for an exact durable Run approval. -/
structure RunAuthorization where
  schema : String
  runId : String
  envelopeRevision : UInt64
  envelopeDigest : String
deriving DecidableEq, Repr

/-- What is read of a URL and the disclosure profile, and the bytes of an envelope. -/
structure EnvelopeRules where
  disclosure : Disclosure
  sha256 : Sha256
  canonicalBytes : RunEnvelope → Bytes

variable (rules : EnvelopeRules) {Skills Dependencies : Type}

namespace RunEnvelope

def validate (envelope : RunEnvelope) (nowMs : UInt64) : Except BrokerError Unit :=
  require (envelope.schema == runEnvelopeSchema && isRecordIdentifier envelope.runId &&
    isRecordIdentifier envelope.envelopeId && envelope.envelopeRevision != 0 &&
    envelope.controllerUid != 0 && 1 ≤ envelope.maxSessions && envelope.maxSessions ≤ 32 &&
    nowMs < envelope.expiresAtMs && envelope.beadScope.all (fun scope =>
      scope.valid nowMs && scope.expiresAtMs ≤ envelope.expiresAtMs) &&
    envelope.providerRequests.all (fun scope =>
      scope.valid rules.disclosure nowMs && scope.expiresAtMs ≤ envelope.expiresAtMs) &&
    envelope.skillRequests.all (fun scope =>
      scope.valid nowMs && scope.expiresAtMs ≤ envelope.expiresAtMs) &&
    envelope.commands.all (fun commands =>
      commands.expiresAtMs ≤ envelope.expiresAtMs.toNat &&
        (commands.policy envelope.envelopeId nowMs.toNat 0).isOk) &&
    isCanonicalDigest envelope.verificationPlanDigest) .invalidGrant

/-- The comparison of a child's commands with those of the Run. -/
def permitsCommands : Option ApprovedCommands → Option ApprovedCommands → Bool
  | _, none => true
  | some parent, some child =>
    child.commandDigest == parent.commandDigest && child.timeoutMs ≤ parent.timeoutMs &&
      child.expiresAtMs ≤ parent.expiresAtMs &&
      (!child.allowDelegation || parent.allowDelegation) && usesWithin child.uses parent.uses
  | none, some _ => false

/-- The comparison of a child's Skill requests with those of the Run. -/
def permitsSkills (nowMs : UInt64) (parent child : ApprovedSkillRequests) : Bool :=
  child.valid nowMs && (!child.allowRun || parent.allowRun) &&
    (!child.allowSupply || parent.allowSupply) && child.expiresAtMs ≤ parent.expiresAtMs &&
    child.agents.all (parent.agents.contains ·)

/-- The comparison of a child's Beads mutations with those of the Run. -/
def permitsBeads (nowMs : UInt64) (parent child : ApprovedBeadsMutations) : Bool :=
  child.valid nowMs && child.projectDigest == parent.projectDigest &&
    !(child.role == .coordinator && parent.role != .coordinator) &&
    child.maxMutations ≤ parent.maxMutations && child.expiresAtMs ≤ parent.expiresAtMs &&
    child.issueIds.all (parent.issueIds.contains ·) && child.effects.all (parent.effects.contains ·)

/-- The comparison of a child's Provider requests with those of the Run. -/
def permitsProvider (nowMs : UInt64) (parent child : ApprovedProviderRequests) : Bool :=
  child.valid rules.disclosure nowMs && child.disclosureProfile == parent.disclosureProfile &&
    child.provider == parent.provider && child.upstream == parent.upstream &&
    child.maxRunRequests == parent.maxRunRequests &&
    child.maxEffort.ctorIdx ≤ parent.maxEffort.ctorIdx && child.expiresAtMs ≤ parent.expiresAtMs &&
    child.addresses.all (parent.addresses.contains ·) && child.models.all (parent.models.contains ·)

/-- Whether a child's approval, where it has one, compares with one of the Run. -/
def within {α : Type} (permits : α → α → Bool) (parent child : Option α) : Bool :=
  child.all fun child => parent.any fun parent => permits parent child

def permitsChild (envelope : RunEnvelope) (grant : ChildGrant Skills Dependencies)
    (nowMs : UInt64) : Except BrokerError Unit := do
  envelope.validate rules nowMs
  require (grant.request.runId == envelope.runId &&
    grant.request.envelopeId == envelope.envelopeId &&
    grant.request.envelopeRevision == envelope.envelopeRevision &&
    grant.controllerUid == envelope.controllerUid && grant.expiresAtMs ≤ envelope.expiresAtMs &&
    grant.dependencies.isNone) .invalidGrant
  require (permitsCommands envelope.commands grant.commands) .invalidGrant
  require (within (permitsSkills nowMs) envelope.skillRequests grant.skillRequests) .invalidGrant
  require (within (permitsBeads nowMs) envelope.beadScope grant.beadsMutations) .invalidGrant
  require (within (permitsProvider rules nowMs) envelope.providerRequests grant.providerRequests)
    .invalidGrant

end RunEnvelope

/-! ### The store -/

/-- The directories of the Runs that have one. -/
abbrev RunEnvelopeStore := String → Option (Records RunEnvelope)

/-- The file of a revision. -/
def revisionFile (revision : UInt64) : String := toString revision ++ ".json"

/-- Read and check one record of a Run, beside those already seen. -/
def visitRevision (runId : String) (seen : Option RunEnvelope × List UInt64)
    (entry : String × Stored RunEnvelope) :
    Except BrokerError (Option RunEnvelope × List UInt64) := do
  let record ← entry.2.read fun envelope => (rules.canonicalBytes envelope).length
  record.validate rules 0
  require (record.runId == runId && entry.1 == revisionFile record.envelopeRevision &&
    !seen.2.contains record.envelopeRevision) .invalidGrant
  return (if seen.1.all (·.envelopeRevision < record.envelopeRevision) then some record else seen.1,
    record.envelopeRevision :: seen.2)

/-- The latest revision of a Run, from its directory as it is listed. -/
def current (runId : String) (listing : Option (Records RunEnvelope)) :
    Except BrokerError (Option RunEnvelope) := do
  require (isRecordIdentifier runId) .invalidGrant
  match listing with
  | none => return none
  | some entries => do
    let seen ← entries.foldlM (visitRevision rules runId) (none, [])
    require (seen.1.all (·.envelopeRevision.toNat == seen.2.length)) .invalidGrant
    return seen.1

/-- An order in which a directory may list its records. -/
structure Order where
  list : Records RunEnvelope → Records RunEnvelope
  perm (records : Records RunEnvelope) : (list records).Perm records

/-- Where a stop finds an approval that passed its checks: before its directory is there,
before its record, or at a point of the record's write. -/
inductive ApprovalFault where
  | refused
  | directory
  | record (fault : WriteFault)
deriving DecidableEq, Repr

/-- The revision that the next approval must name. -/
def expectedRevision : Option RunEnvelope → Except BrokerError UInt64
  | none => .ok 1
  | some prior =>
    if prior.envelopeRevision.toNat + 1 < UInt64.size then .ok (prior.envelopeRevision + 1)
    else .error .invalidGrant

/-- Everything before an approval writes. -/
def checkApproval (store : RunEnvelopeStore) (order : Order) (envelope : RunEnvelope)
    (nowMs : UInt64) (guard : Except BrokerError Unit) : Except BrokerError Unit := do
  envelope.validate rules nowMs
  guard
  let latest ← current rules envelope.runId ((store envelope.runId).map order.list)
  let expected ← expectedRevision latest
  require (envelope.envelopeRevision == expected) .invalidGrant

/-- Store one operator-approved revision before returning its exact digest. -/
def approveWith (store : RunEnvelopeStore) (order : Order) (envelope : RunEnvelope)
    (nowMs : UInt64) (guard : Except BrokerError Unit) (fault : ApprovalFault) :
    Except BrokerError RunAuthorization × RunEnvelopeStore :=
  match checkApproval rules store order envelope nowMs guard with
  | .error error => (.error error, store)
  | .ok _ =>
    let directory := (store envelope.runId).getD []
    let opened := Function.update store envelope.runId (some directory)
    match fault with
    | .refused => (.error .storage, store)
    | .directory => (.error .storage, opened)
    | .record fault =>
      match writeNewRecord directory (revisionFile envelope.envelopeRevision) envelope fault with
      | (result, records) =>
        (result.map fun _ => ⟨runAuthorizationSchema, envelope.runId, envelope.envelopeRevision,
          (Digest.of rules.sha256 (rules.canonicalBytes envelope)).toString⟩,
          Function.update opened envelope.runId (some records))

/-- Hold a child's grant against the latest revision, and authorize it under that. -/
def withChild {α : Type} (store : RunEnvelopeStore) (order : Order)
    (grant : ChildGrant Skills Dependencies) (nowMs : UInt64)
    (authorize : RunEnvelope → Except BrokerError α) : Except BrokerError α := do
  match ← current rules grant.request.runId ((store grant.request.runId).map order.list) with
  | none => .error .invalidGrant
  | some latest => do
    latest.permitsChild rules grant nowMs
    authorize latest

end Louiselm.Broker
