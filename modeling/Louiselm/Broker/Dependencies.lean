import Mathlib.Data.Finset.Card
import Louiselm.Broker.DependencyFetch
import Louiselm.Broker.RecordFiles

/-!
# Durable dependency candidates and at-most-once fetches

`skills-core/src/broker/dependencies.rs`: what a Session asked to have fetched, what was
proposed to its operator and what the operator approved, and the intents behind which fetches
were permitted. The store is the directory of one Session, with a family of files for each
suffix; it also has the permits that were handed out.
-/

namespace Louiselm.Broker.Dependencies
open Base Canonical
open Base.Program (query observe effect ofExcept)
open Broker.Authorization (Records Stored)

def maxRequests : Nat := 4096

/-- What the operations use of a Session's consumed authorization. -/
structure Authorization where
  authorizationId : String
  sessionId : String
  runId : String
  envelopeRevision : UInt64
  controllerUid : UInt32
  attendance : Attendance
  dependencies : Option ApprovedDependencies
deriving DecidableEq, Repr

/-- A request, bound to the authorization it was made under. -/
structure Record where
  authorizationId : String
  request : DependencyRequest
deriving DecidableEq, Repr

/-- Candidates that the operator approved together. -/
structure Approval where
  authorizationId : String
  candidateIds : List String
deriving DecidableEq, Repr

instance : Serialize Approval where
  toJson approval := .obj [("authorization_id", .str approval.authorizationId),
    ("candidate_ids", .arr (approval.candidateIds.map .str))]
  depth := 2
  fits := fun approval => by simp
  toJson_inj := fun a b h => by
    obtain ⟨_, left⟩ := a
    obtain ⟨_, right⟩ := b
    have hi : Function.Injective (List.map Json.str) :=
      List.map_injective_iff.mpr fun _ _ h => Json.str.inj h
    simpa [hi.eq_iff] using h

/-- What an admission returns. -/
inductive Admission where
  | status (status : DependencyStatus)
  | fetch (permit : FetchPermit) (record : Record)
deriving DecidableEq, Repr

/-- One exact proposal in the operator's view. -/
structure PendingDependency where
  candidateId : String
  candidate : Candidate
deriving DecidableEq, Repr

/-- Local review result. -/
structure DependencyInspection where
  sessionId : String
  envelopeRevision : UInt64
  pending : List PendingDependency
  hasMore : Bool
  approved : List String
  expiresAtMs : UInt64
deriving DecidableEq, Repr

/-! ### The store -/

/-- The files of each suffix under the digests in their names, and the permits handed out so far
with the requests that they answer. -/
structure Store where
  requests : Records Record
  proposals : Records Record
  intents : Records Record
  outcomes : Records DependencyStatus
  approved : Records Approval
  permits : List (String × FetchPermit)

/-- A store that was opened on nothing. -/
def Store.empty : Store := ⟨[], [], [], [], [], []⟩

/-- What is outside, and the lengths of the files. -/
structure Format extends Externals where
  recordBytes : Record → Nat
  statusBytes : DependencyStatus → Nat
  approvalBytes : Approval → Nat
  grantBytes : ApprovedDependencies → Nat

section

variable (format : Format)

def requestFiles : Directory Store BrokerError Record where
  files := (·.requests)
  put := fun requests s => { s with requests }
  bytes := format.recordBytes
  lift := id
  files_put := fun _ _ => rfl
  put_put := fun _ _ _ => rfl

def proposalFiles : Directory Store BrokerError Record where
  files := (·.proposals)
  put := fun proposals s => { s with proposals }
  bytes := format.recordBytes
  lift := id
  files_put := fun _ _ => rfl
  put_put := fun _ _ _ => rfl

def intentFiles : Directory Store BrokerError Record where
  files := (·.intents)
  put := fun intents s => { s with intents }
  bytes := format.recordBytes
  lift := id
  files_put := fun _ _ => rfl
  put_put := fun _ _ _ => rfl

def outcomeFiles : Directory Store BrokerError DependencyStatus where
  files := (·.outcomes)
  put := fun outcomes s => { s with outcomes }
  bytes := format.statusBytes
  lift := id
  files_put := fun _ _ => rfl
  put_put := fun _ _ _ => rfl

def approvedFiles : Directory Store BrokerError Approval where
  files := (·.approved)
  put := fun approved s => { s with approved }
  bytes := format.approvalBytes
  lift := id
  files_put := fun _ _ => rfl
  put_put := fun _ _ _ => rfl

/-- The name of a request's files. -/
def path (requestId : String) : String := (Digest.of format.sha256 (utf8 requestId)).hex

/-- The name of a batch. -/
def batchPath (batch : Approval) : String :=
  (Digest.of format.sha256 (format.json.toVec batch)).hex

end

/-! ### Reading -/

section

variable (format : Format) (auth : Authorization)

/-- The directory of the Session, which is made where it is not there. -/
def directory : Program Store BrokerError Unit := do
  ofExcept (require (isRecordIdentifier auth.sessionId) .invalidGrant)
  query (fun _ => .ok ()) .storage

/-- Every request that was recorded, of which some were counted already. -/
def checkRecords : Nat → Records Record → Except BrokerError (List Record)
  | _, [] => .ok []
  | count, (_, stored) :: rest => do
    require (decide (count < maxRequests)) .invalidGrant
    let record ← stored.read format.recordBytes
    (record.request.validate format.toExternals).mapError .policy
    require (record.authorizationId == auth.authorizationId) .requestMismatch
    let records ← checkRecords (count + 1) rest
    return record :: records

/-- What the batches approve together, of which some were counted already. -/
def collectApprovals : Nat → Finset String → Records Approval → Except BrokerError (Finset String)
  | _, ids, [] => .ok ids
  | batches, ids, (_, stored) :: rest => do
    require (decide (batches < maxRequests)) .invalidGrant
    let batch ← stored.read format.approvalBytes
    require (batch.authorizationId == auth.authorizationId && batch.candidateIds.length ≤ 32)
      .requestMismatch
    let ids := ids ∪ batch.candidateIds.toFinset
    require (decide (ids.card ≤ maxRequests)) .invalidGrant
    collectApprovals (batches + 1) ids rest

def records : Program Store BrokerError (List Record) :=
  query (fun s => checkRecords format auth 0 s.requests) .storage

def approvals : Program Store BrokerError (Finset String) :=
  query (fun s => collectApprovals format auth 0 ∅ s.approved) .storage

/-- Whether there is a file under a name, whatever is in it. -/
def hasFile {α : Type} (files : Records α) (name : String) : Bool := (files.lookup name).isSome

/-! ### Admission -/

/-- The request as it is recorded, which is the one that is made. -/
def bindRequest (request : DependencyRequest) : Program Store BrokerError Record := do
  match ← (requestFiles format).read (path format request.requestId) with
  | some record => do
    ofExcept (require (record.authorizationId == auth.authorizationId && record.request == request)
      .requestMismatch)
    return record
  | none => do
    let held ← records format auth
    ofExcept (require (decide (held.length < maxRequests)) .invalidGrant)
    let record : Record := ⟨auth.authorizationId, request⟩
    (requestFiles format).create (path format request.requestId) record
    return record

/-- What is found while the requests are looked through: the candidates approved so far with
their identities, and the attempts and the bytes that are spent. -/
structure Spent where
  preapproved : List Candidate
  approvedIds : Finset String
  count : Nat
  reserved : Nat
deriving DecidableEq

/-- Take up a candidate that the operator approved. -/
def Spent.approve (spent : Spent) (approvals : Finset String) (id : String)
    (candidate : Candidate) :
    Spent :=
  if id ∈ approvals ∧ id ∉ spent.approvedIds then { spent with
    preapproved := spent.preapproved ++ [candidate], approvedIds := insert id spent.approvedIds }
  else spent

/-- Count a request that has an intent. -/
def Spent.reserve (spent : Spent) (hasIntent : Bool) (maxBytes : UInt64) :
    Except BrokerError Spent :=
  if hasIntent then do
    require (decide (spent.count + 1 < UInt32.size)) .invalidGrant
    require (decide (spent.reserved + maxBytes.toNat < UInt64.size)) .invalidGrant
    return { spent with count := spent.count + 1, reserved := spent.reserved + maxBytes.toNat }
  else .ok spent

/-- The loop over the requests. -/
def lookThrough (approvals : Finset String) (intents : Records Record) :
    Spent → List Record → Except BrokerError Spent
  | spent, [] => .ok spent
  | spent, prior :: rest => do
    let id ← (prior.request.candidate.id format.toExternals).mapError .policy
    let spent := spent.approve approvals id prior.request.candidate
    let spent ← spent.reserve (hasFile intents (path format prior.request.requestId))
      prior.request.maxBytes
    lookThrough approvals intents spent rest

/-- The policy over what was approved before start and by the operator. -/
def policyOf (permission : ApprovedDependencies) (starting : StartingLockfile)
    (preapproved : List Candidate) : DependencyPolicy where
  sessionId := auth.sessionId
  runId := auth.runId
  envelopeRevision := auth.envelopeRevision
  attendance := auth.attendance
  starting := starting
  preapproved := preapproved
  expiresAtMs := permission.expiresAtMs
  maxFetches := permission.maxFetches
  maxBytes := permission.maxBytes

/-- Record the intent of a fetch, then hand out its permit. -/
def issue (record : Record) (permit : FetchPermit) : Program Store BrokerError Admission := do
  (intentFiles format).create (path format record.request.requestId) record
  effect fun s => { s with permits := s.permits ++ [(record.request.requestId, permit)] }
  return .fetch permit record

/-- Propose a candidate to the operator. -/
def propose (record : Record) (candidateId : String) : Program Store BrokerError Admission := do
  let proposed ← observe fun s : Store => hasFile s.proposals (path format record.request.requestId)
  if proposed then return .status (.pending candidateId)
  else
    (proposalFiles format).create (path format record.request.requestId) record
    return .status (.pending candidateId)

/-- Decide on a request that has neither outcome nor intent. -/
def decideFetch (permission : ApprovedDependencies) (starting : StartingLockfile) (record : Record)
    (nowMs : UInt64) : Program Store BrokerError Admission := do
  let request := record.request
  let records ← records format auth
  let approvals ← approvals format auth
  let ids ← ofExcept ((permission.preapproved.mapM (Candidate.id format.toExternals)).mapError
      .policy)
  let spent ← query (fun s : Store => lookThrough format approvals s.intents
    ⟨permission.preapproved, ids.toFinset, 0, 0⟩ records) .storage
  let owner ← ofExcept ((DependencySession.new format.toExternals
    (policyOf auth permission starting spent.preapproved) nowMs).mapError .policy)
  let (decision, owner) ←
    ofExcept ((owner.consider format.toExternals request.candidate nowMs).mapError .policy)
  match decision with
  | .pending candidateId => propose format record candidateId
  | .denied => return .status .denied
  | .authorized =>
    if permission.maxFetches.toNat ≤ spent.count ∨
        permission.maxBytes.toNat < spent.reserved + request.maxBytes.toNat then
      return .status .denied
    else
      let (permit, _) ← ofExcept ((owner.beginFetch format.toExternals request.candidate
        request.maxBytes nowMs).mapError .policy)
      issue format record permit

/-- What a recorded outcome says later: a publication is no proof of what the cache has. -/
def DependencyStatus.later : DependencyStatus → DependencyStatus
  | .complete _ => .unknown
  | status => status

def admitRequest (starting : StartingLockfile) (request : DependencyRequest) (nowMs : UInt64) :
    Program Store BrokerError Admission := do
  let permission ← ofExcept (auth.dependencies.elim (.error .invalidGrant) .ok)
  ofExcept ((permission.validate format.toExternals format.grantBytes nowMs).mapError .policy)
  ofExcept ((request.validate format.toExternals).mapError .policy)
  ofExcept (require (starting.digest == permission.lockfileDigest) .requestMismatch)
  directory auth
  let record ← bindRequest format auth request
  match ← (outcomeFiles format).read (path format request.requestId) with
  | some status => do
    ofExcept (status.validate.mapError .policy)
    return .status status.later
  | none => do
    let attempted ← observe fun s : Store => hasFile s.intents (path format request.requestId)
    if attempted then return .status .unknown
    else decideFetch format auth permission starting record nowMs

/-- Record the outcome of an attempt. -/
def finish (record : Record) (status : DependencyStatus) : Program Store BrokerError Unit := do
  ofExcept (status.validate.mapError .policy)
  let attempted ← observe fun s : Store => hasFile s.intents (path format record.request.requestId)
  ofExcept (require (record.authorizationId == auth.authorizationId && attempted) .requestMismatch)
  (outcomeFiles format).create (path format record.request.requestId) status

/-! ### Operator control -/

/-- Put a proposal into its place among others, in that of one with its identity. -/
def insertProposal (id : String) (candidate : Candidate) (proposals : List (String × Candidate)) :
    List (String × Candidate) :=
  (proposals.filter (·.1 != id)).orderedInsert (fun a b => a.1 ≤ b.1) (id, candidate)

/-- The candidates that were proposed, by their identities. -/
def proposalsOf (files : Records Record) :
    List Record → Except BrokerError (List (String × Candidate))
  | [] => .ok []
  | record :: rest => do
    let id ← (record.request.candidate.id format.toExternals).mapError .policy
    let proposals ← proposalsOf files rest
    if hasFile files (path format record.request.requestId) &&
        !(proposals.map Prod.fst).contains id then
      return insertProposal id record.request.candidate proposals
    else return proposals

/-- Record a batch of exact approvals, and make it durable again where it is there. -/
def approveBatch (proposals : List (String × Candidate)) (ids : List String) :
    Program Store BrokerError Unit := do
  ofExcept (require (auth.attendance == .interactive && !ids.isEmpty && ids.length ≤ 32 &&
    decide ids.Nodup && ids.all ((proposals.map Prod.fst).contains ·)) .invalidGrant)
  let batch : Approval := ⟨auth.authorizationId, ids⟩
  let present ← observe fun s : Store => hasFile s.approved (batchPath format batch)
  if present then query (fun _ => .ok ()) .storage
  else
    (approvedFiles format).create (batchPath format batch) batch
    query (fun _ => .ok ()) .storage

/-- The page of the proposals that were not approved. -/
def inspection (permission : ApprovedDependencies) (proposals : List (String × Candidate))
    (approved : Finset String) (ids : List String) : DependencyInspection :=
  let pending := proposals.filter fun item => item.1 ∉ approved
  { sessionId := auth.sessionId
    envelopeRevision := auth.envelopeRevision
    pending := (pending.take 32).map fun item => ⟨item.1, item.2⟩
    hasMore := decide (32 < pending.length)
    approved := ids
    expiresAtMs := permission.expiresAtMs }

def control (operatorUid : UInt32) (candidateIds : Option (List String)) (nowMs : UInt64) :
    Program Store BrokerError DependencyInspection := do
  ofExcept (require (auth.controllerUid == operatorUid) .controllerMismatch)
  let permission ← ofExcept (auth.dependencies.elim (.error .invalidGrant) .ok)
  ofExcept ((permission.validate format.toExternals format.grantBytes nowMs).mapError .policy)
  directory auth
  let records ← records format auth
  let approved ← approvals format auth
  let proposals ← query (fun s : Store => proposalsOf format s.proposals records) .storage
  match candidateIds with
  | none => return inspection auth permission proposals approved []
  | some ids => do
    approveBatch format auth proposals ids
    return inspection auth permission proposals (approved ∪ ids.toFinset) ids

end

end Louiselm.Broker.Dependencies
