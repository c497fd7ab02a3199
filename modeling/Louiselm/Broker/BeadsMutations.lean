import Louiselm.Base.Runs
import Louiselm.Broker.Outbox
import Louiselm.Broker.Permissions
import Louiselm.Broker.RecordFiles

/-!
# Durable at-most-once Beads mutations

`skills-core/src/broker/beads_mutation.rs` over the runner of `broker/tracker_runner.rs`: a
Session's mutation is recorded before the tracker runs, and what the run reports after it.
The reply of `getrandom`, the scratch directory and what the runner does are arguments of a
call, and so is the time that passes before the second check of its approval.
-/

namespace Louiselm.Broker.BeadsMutations
open Base Canonical
open Base.Program (query observe effect ofExcept)
open Broker.Authorization (Records Stored readRecord)

/-! ### Requests and records -/

private def dependencyJsonName : BeadsDependencyKind → String
  | .blocks => "blocks"
  | .parentChild => "parent_child"
  | .related => "related"

/-- The upstream CLI spelling of an edge kind. -/
def dependencyName : BeadsDependencyKind → String
  | .blocks => "blocks"
  | .parentChild => "parent-child"
  | .related => "related"

/-- The upstream spelling of a verdict. -/
def verdictName : BeadsVerdictKind → String
  | .consumer => "consumer"
  | .gate => "gate"
  | .live => "live"
  | .inert => "inert"
  | .none => "none"

/-- The document of a mutation, with the name of its variant first. -/
def kindJson : BeadsMutationKind → Json
  | .commentAdd issueId text => .obj [("kind", .str "comment_add"), ("issue_id", .str issueId),
      ("text", .str text)]
  | .claim issueId => .obj [("kind", .str "claim"), ("issue_id", .str issueId)]
  | .statusUpdate issueId status => .obj [("kind", .str "status_update"),
      ("issue_id", .str issueId), ("status", .str status)]
  | .labelAdd issueId label => .obj [("kind", .str "label_add"), ("issue_id", .str issueId),
      ("label", .str label)]
  | .labelRemove issueId label => .obj [("kind", .str "label_remove"), ("issue_id", .str issueId),
      ("label", .str label)]
  | .dependencyAdd issueId dependsOnId type => .obj [("kind", .str "dependency_add"),
      ("issue_id", .str issueId), ("depends_on_id", .str dependsOnId),
      ("dependency_type", .str (dependencyJsonName type))]
  | .dependencyRemove issueId dependsOnId type => .obj [("kind", .str "dependency_remove"),
      ("issue_id", .str issueId), ("depends_on_id", .str dependsOnId),
      ("dependency_type", .str (dependencyJsonName type))]
  | .close issueId reason verdict => .obj [("kind", .str "close"), ("issue_id", .str issueId),
      ("reason", .str reason), ("verdict", .obj [("kind", .str (verdictName verdict.kind)),
        ("reference", .str verdict.reference)])]

private theorem dependencyJsonName_inj {a b : BeadsDependencyKind} :
    dependencyJsonName a = dependencyJsonName b ↔ a = b := by
  cases a <;> cases b <;> simp [dependencyJsonName]

private theorem verdictName_inj {a b : BeadsVerdictKind} :
    verdictName a = verdictName b ↔ a = b := by
  cases a <;> cases b <;> simp [verdictName]

theorem kindJson_inj {a b : BeadsMutationKind} : kindJson a = kindJson b ↔ a = b := by
  constructor
  · intro h
    cases a <;> cases b <;>
      simp_all [kindJson, dependencyJsonName_inj, verdictName_inj]
    next l _ _ r => cases l; cases r; simp_all
  · exact congrArg kindJson

instance : Serialize BeadsMutationRequest where
  toJson request := .obj [("request_id", .str request.requestId),
      ("required", .bool request.required),
    ("kind", kindJson request.kind)]
  depth := 3
  fits := fun request => by
    cases hk : request.kind <;> simp [kindJson]
  toJson_inj := fun a b h => by
    obtain ⟨_, _, _⟩ := a
    obtain ⟨_, _, _⟩ := b
    simpa [kindJson_inj] using h

/-- Who asks, as the broker's own authorization has it. -/
structure Binding where
  sessionId : String
  runId : String
  agentId : String
  envelopeRevision : UInt64
  controllerUid : UInt32
deriving DecidableEq, Repr

def Binding.valid (binding : Binding) : Bool :=
  binding.controllerUid != 0 && isRecordIdentifier binding.sessionId &&
    isRecordIdentifier binding.runId && isRecordIdentifier binding.agentId

/-- Durable outcome of one mutation. -/
inductive BeadsMutationOutcome where
  | unknown
  | completed
  | failed (exitCode : Option Int32)
deriving DecidableEq, Repr

/-- What the requesting Session learns. -/
structure BeadsMutationStatus where
  requestId : String
  operationId : String
  outcome : BeadsMutationOutcome
deriving DecidableEq, Repr

/-- An attempt; only the digest of its request is retained. -/
structure Record where
  binding : Binding
  requestId : String
  requestDigest : String
  projectDigest : String
  operationId : String
  createdAtMs : UInt64
deriving DecidableEq, Repr

def Record.valid (record : Record) : Bool :=
  isRecordIdentifier record.requestId && shownDigest record.requestDigest &&
    shownDigest record.projectDigest && 0 < record.createdAtMs && record.binding.valid &&
    canonicalUuid record.operationId

def Record.status (record : Record) (outcome : BeadsMutationOutcome) : BeadsMutationStatus :=
  ⟨record.requestId, record.operationId, outcome⟩

/-! ### The tracker -/

/-- Trusted configuration, never supplied by a Session. -/
structure TrackerConfig where
  program : String
  programDigest : String
  workspaceRoot : String
  trustedGroup : Option UInt32
deriving DecidableEq, Repr

/-- One exact subprocess invocation. -/
structure TrackerInvocation where
  program : String
  programDigest : String
  arguments : List String
  environment : List (String × String)
  currentDir : String
deriving DecidableEq, Repr

namespace TrackerConfig

def projectDigest (sha256 : Sha256) (tracker : TrackerConfig) : String :=
  (Digest.of sha256 (utf8 tracker.workspaceRoot)).toString

def database (tracker : TrackerConfig) : String := tracker.workspaceRoot ++ "/.beads/beads.db"

/-- Explicit sharing for the canonical database only. -/
def canonicalEnvironment (tracker : TrackerConfig) : List (String × String) :=
  match tracker.trustedGroup with
  | none => []
  | some gid => [("FSQLITE_TRUSTED_UNIX_DATABASE", tracker.database),
    ("FSQLITE_TRUSTED_UNIX_GID", toString gid)]

end TrackerConfig

/-- What a mutation asks of the tracker. -/
def kindArguments : BeadsMutationKind → List String
  | .commentAdd issueId text => ["comments", "add", issueId, "--message=" ++ text]
  | .claim issueId => ["update", issueId, "--claim"]
  | .statusUpdate issueId status => ["update", issueId, "--status=" ++ status]
  | .labelAdd issueId label => ["label", "add", issueId, label]
  | .labelRemove issueId label => ["label", "remove", issueId, label]
  | .dependencyAdd issueId dependsOnId type =>
    ["dep", "add", issueId, dependsOnId, "--type=" ++ dependencyName type]
  | .dependencyRemove issueId dependsOnId type =>
    ["dep", "remove", issueId, dependsOnId, "--type=" ++ dependencyName type]
  | .close issueId reason verdict => ["close", issueId,
    "--reason=" ++ verdictName verdict.kind ++ ":" ++ verdict.reference ++ " " ++ reason]

def buildInvocation (kind : BeadsMutationKind) (binding : Binding) (tracker : TrackerConfig)
    (scratch : String) : TrackerInvocation where
  program := tracker.program
  programDigest := tracker.programDigest
  arguments := kindArguments kind ++ ["--actor", binding.agentId ++ "/" ++ binding.sessionId,
    "--db", tracker.database, "--json"]
  environment := tracker.canonicalEnvironment ++ [("TMPDIR", scratch)]
  currentDir := tracker.workspaceRoot

/-- One run of the tracker: for whom and what, and when its approval was last checked. -/
structure Run where
  binding : Binding
  request : BeadsMutationRequest
  atMs : UInt64
  invocation : TrackerInvocation
deriving DecidableEq

/-! ### The store -/

/-- Failures of a mutation; the causes of a failed invocation are dropped. -/
inductive MutationError where
  | broker (error : BrokerError)
  | beadsBudgetExhausted
  | trackerInvocation
deriving DecidableEq, Repr

/-- The attempts and their outcomes under the names of their files, and the runs so far. -/
structure Store where
  requests : Records Record
  outcomes : Records BeadsMutationOutcome
  runs : List Run

/-- Where the attempts are. -/
def requestFiles (bytes : Record → Nat) : Directory Store MutationError Record where
  files := (·.requests)
  put := fun records s => { s with requests := records }
  bytes := bytes
  lift := .broker
  files_put := fun _ _ => rfl
  put_put := fun _ _ _ => rfl

/-- Where the outcomes are. -/
def outcomeFiles (bytes : BeadsMutationOutcome → Nat) :
    Directory Store MutationError BeadsMutationOutcome where
  files := (·.outcomes)
  put := fun records s => { s with outcomes := records }
  bytes := bytes
  lift := .broker
  files_put := fun _ _ => rfl
  put_put := fun _ _ _ => rfl

/-- The digest, the printer, and the lengths of the records' files. -/
structure Format where
  sha256 : Sha256
  json : JsonFormat
  recordBytes : Record → Nat
  outcomeBytes : BeadsMutationOutcome → Nat

/-- The name of a request's file. -/
def requestPath (sha256 : Sha256) (session request : String) : String :=
  (Digest.of sha256 (utf8 (session ++ "\x00" ++ request))).hex

def requestDigest (format : Format) (request : BeadsMutationRequest) : String :=
  (Digest.of format.sha256 (format.json.toVec request)).toString

/-- The loop over the attempts: how many entries it passed, and how many of the Session. -/
def checkBudget (bytes : Record → Nat) (session : String) (limit : Nat) :
    Nat → Nat → Records Record → Except MutationError Unit
  | _, _, [] => .ok ()
  | total, used, (_, stored) :: rest => do
    require (decide (total < 4095)) (.broker .invalidGrant)
    let record ← (stored.read bytes).mapError .broker
    require record.valid (.broker .invalidGrant)
    if record.binding.sessionId = session then
      require (decide (used + 1 < limit)) .beadsBudgetExhausted
      checkBudget bytes session limit (total + 1) (used + 1) rest
    else checkBudget bytes session limit (total + 1) used rest

/-- What a call meets outside: the time it takes up to its second check, a fresh identity,
a scratch directory, and what the runner returns. -/
structure Ambient where
  elapsedMs : UInt64
  operationUuid : Except BrokerError String
  scratch : Except BrokerError String
  ran : Option (Option Int32)

/-- The time of the second check, which stays at the last one there is. -/
def later (nowMs elapsedMs : UInt64) : UInt64 :=
  if nowMs.toNat + elapsedMs.toNat < UInt64.size then nowMs + elapsedMs
  else UInt64.ofNat (UInt64.size - 1)

/-- The reply to a request that has a record. -/
def replay (format : Format) (binding : Binding) (request : BeadsMutationRequest)
    (tracker : TrackerConfig) (record : Record) :
    Program Store MutationError BeadsMutationStatus := do
  ofExcept (require (record.valid && record.binding == binding &&
    record.requestDigest == requestDigest format request && record.requestId == request.requestId &&
    record.projectDigest == tracker.projectDigest format.sha256) (.broker .requestMismatch))
  let outcome ← (outcomeFiles format.outcomeBytes).read record.operationId
  return record.status (outcome.getD .unknown)

/-- Record the intent before spending authority; an unresolved intent is never replayed. -/
def accept (format : Format) (binding : Binding) (request : BeadsMutationRequest)
    (permission : ApprovedBeadsMutations) (nowMs : UInt64) (tracker : TrackerConfig)
    (ambient : Ambient) : Program Store MutationError BeadsMutationStatus := do
  ofExcept (require (permission.permits request nowMs &&
    permission.projectDigest == tracker.projectDigest format.sha256) (.broker .invalidGrant))
  let path := requestPath format.sha256 binding.sessionId request.requestId
  match ← (requestFiles format.recordBytes).read path with
  | some record => replay format binding request tracker record
  | none =>
    query (fun s => checkBudget format.recordBytes binding.sessionId permission.maxMutations.toNat
      0 0 s.requests) (.broker .storage)
    let operationId ← ofExcept (ambient.operationUuid.mapError .broker)
    let record : Record := ⟨binding, request.requestId, requestDigest format request,
      tracker.projectDigest format.sha256, operationId, nowMs⟩
    ofExcept (require record.valid (.broker .invalidGrant))
    let scratch ← ofExcept (ambient.scratch.mapError .broker)
    let current := later nowMs ambient.elapsedMs
    ofExcept (require (permission.permits request current) (.broker .expired))
    (requestFiles format.recordBytes).create path record
    effect fun s => { s with
      runs := s.runs ++ [⟨binding, request, current,
          buildInvocation request.kind binding tracker scratch⟩] }
    match ambient.ran with
    | none => Program.fail .trackerInvocation
    | some exitCode => do
      let outcome := if exitCode = some 0 then .completed else .failed exitCode
      (outcomeFiles format.outcomeBytes).create operationId outcome
      return record.status outcome

end Louiselm.Broker.BeadsMutations
