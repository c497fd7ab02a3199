import Louiselm.Broker.Outbox
import Louiselm.Canonical.Manifest

/-!
# Dependency candidates and fetch policy

`skills-core/src/dependency_fetch.rs` with `cargo.rs`, `wire.rs` and the admission of
`download.rs`: exact candidates, the inventory of a starting lockfile, and the policy that
decides over one of them without any I/O. Reading a version and a TOML document and checking
the endpoints of a registry transport are parameters. A permit has the expiry that its deadline
is computed from.
-/

namespace Louiselm.Broker.Dependencies
open Base Canonical
open Launch.Protocol (ProtocolError)

def maxCandidates : Nat := 4096

/-- The largest artifact of a Session's cache. -/
def maxArtifactBytes : Nat := 128 * 1024 * 1024

def invalid : ProtocolError := .new .invalidRequest none none

/-! ### Candidates -/

/-- Where an exact dependency originates. -/
inductive Source where
  | registry (registry : String)
  | git (repository revision : String)
  | url (url : String)
  | other (locator : String)
deriving DecidableEq, Repr

/-- One exact package and its expected bytes. -/
structure Candidate where
  name : String
  version : String
  source : Source
  integrity : Option String
deriving DecidableEq, Repr

def sourceJson : Source → Json
  | .registry registry => .obj [("kind", .str "registry"), ("registry", .str registry)]
  | .git repository revision => .obj [("kind", .str "git"), ("repository", .str repository),
      ("revision", .str revision)]
  | .url url => .obj [("kind", .str "url"), ("url", .str url)]
  | .other locator => .obj [("kind", .str "other"), ("locator", .str locator)]

theorem sourceJson_inj {a b : Source} : sourceJson a = sourceJson b ↔ a = b := by
  constructor
  · intro h
    cases a <;> cases b <;> simp_all [sourceJson]
  · exact congrArg sourceJson

/-- A text or nothing. -/
def optionJson : Option String → Json
  | none => .null
  | some text => .str text

instance : Serialize Candidate where
  toJson candidate := .obj [("name", .str candidate.name), ("version", .str candidate.version),
    ("source", sourceJson candidate.source), ("integrity", optionJson candidate.integrity)]
  depth := 2
  fits := fun candidate => by
    cases candidate.source <;> cases candidate.integrity <;> simp [sourceJson, optionJson]
  toJson_inj := fun a b h => by
    obtain ⟨_, _, _, left⟩ := a
    obtain ⟨_, _, _, right⟩ := b
    cases left <;> cases right <;> simp_all [sourceJson_inj, optionJson]

/-- A package of a lockfile; its own dependencies are not looked at. -/
structure Package where
  name : String
  version : String
  source : Option String
  checksum : Option String
deriving DecidableEq, Repr

structure CargoLock where
  version : Nat
  package : List Package
deriving DecidableEq, Repr

/-- A registry archive endpoint approved before start. -/
structure RegistryEndpoint where
  registry : String
  archiveTemplate : String
  addresses : List (List UInt8)
deriving DecidableEq, Repr

/-- The digest and the printer, a version as it is read and written again, a document that is
read, and what an HTTPS transport accepts. -/
structure Externals where
  sha256 : Sha256
  json : JsonFormat
  semver : String → Option String
  toml : String → Option CargoLock
  transport : List RegistryEndpoint → Bool

/-- Bounded printable text. -/
def isText (value : String) : Bool := value != "" && Text.bounded 2048 Text.isAsciiGraphic value

namespace Source

def valid : Source → Bool
  | .registry name => isText name
  | .git repository revision => isText repository &&
    (revision.utf8ByteSize == 40 || revision.utf8ByteSize == 64) && revision.toList.all Hex.isDigit
  | .url text => isText text
  | .other locator => isText locator

def isRegistry : Source → Bool
  | .registry _ => true
  | _ => false

end Source

namespace Candidate

variable (externals : Externals) (candidate : Candidate)

def validate : Except ProtocolError Unit := do
  let version ← (externals.semver candidate.version).elim (.error invalid) .ok
  require (!(candidate.name == "" || !Text.bounded 64 Text.isIdentifierChar candidate.name ||
    128 < candidate.version.utf8ByteSize || version != candidate.version ||
    candidate.integrity.any (!shownDigest ·))) invalid
  require candidate.source.valid invalid

/-- Content address of the complete validated proposal. -/
def id : Except ProtocolError String := do
  candidate.validate externals
  return (Digest.of externals.sha256 (externals.json.toVec candidate)).toString

def automatic : Bool := candidate.source.isRegistry && candidate.integrity.isSome

end Candidate

/-! ### The starting lockfile -/

/-- The text before and after the last place of a character. -/
def rsplitOnce (c : Char) (text : String) : Option (String × String) :=
  let reversed := text.toList.reverse
  if c ∈ reversed then
    some (String.ofList ((reversed.dropWhile (· != c)).tail.reverse),
      String.ofList (reversed.takeWhile (· != c)).reverse)
  else none

/-- A text without the one it starts with. -/
def dropStart (start text : String) : Option String :=
  (stripPrefix start.toList text.toList).map String.ofList

/-- The source that a locator of a lockfile names. -/
def sourceOf (locator : String) : Except ProtocolError Source :=
  if locator = "registry+https://github.com/rust-lang/crates.io-index" then
    .ok (.registry "crates-io")
  else
    match (dropStart "registry+" locator).or (dropStart "sparse+" locator) with
    | some registry => .ok (.registry registry)
    | none =>
      match dropStart "git+" locator with
      | none => .ok (.other locator)
      | some git =>
        match rsplitOnce '#' git with
        | none => .error invalid
        | some (repository, revision) => .ok (.git repository revision)

/-- Immutable dependency inventory of starting lockfile bytes. -/
structure StartingLockfile where
  digest : String
  entries : List Candidate
deriving DecidableEq, Repr

namespace StartingLockfile

variable (externals : Externals)

/-- The candidates of the packages that have a source, each identity once. -/
def entriesOf : List (String × String × String) → List Package →
    Except ProtocolError (List Candidate)
  | _, [] => .ok []
  | identities, package :: packages =>
    match package.source with
    | none => do
      require package.checksum.isNone invalid
      entriesOf identities packages
    | some locator => do
      let identity := (package.name, package.version, locator)
      require (!identities.contains identity) invalid
      let source ← sourceOf locator
      let candidate : Candidate :=
        ⟨package.name, package.version, source, package.checksum.map ("sha256:" ++ ·)⟩
      candidate.validate externals
      let entries ← entriesOf (identity :: identities) packages
      return candidate :: entries

def cargo (bytes : Bytes) : Except ProtocolError StartingLockfile := do
  require (decide (bytes.length ≤ 4 * 1024 * 1024)) invalid
  let text ← (String.fromUTF8? ⟨bytes.toArray⟩).elim (.error invalid) .ok
  let document ← (externals.toml text).elim (.error invalid) .ok
  require ((document.version == 3 || document.version == 4) &&
    decide (document.package.length ≤ maxCandidates)) invalid
  let entries ← entriesOf externals [] document.package
  return ⟨(Digest.of externals.sha256 bytes).toString, entries⟩

end StartingLockfile

/-! ### Grants and requests -/

/-- Exact scope approved before start. -/
structure ApprovedDependencies where
  inputManifestDigest : String
  lockfilePath : String
  lockfileDigest : String
  registries : List RegistryEndpoint
  preapproved : List Candidate
  maxFetches : UInt32
  maxBytes : UInt64
  expiresAtMs : UInt64
deriving DecidableEq, Repr

/-- The identities of some candidates, which must be different. -/
def distinctIds (externals : Externals) : List Candidate → List String →
    Except ProtocolError (List String)
  | [], ids => .ok ids
  | candidate :: candidates, ids => do
    let id ← candidate.id externals
    require (!ids.contains id) invalid
    distinctIds externals candidates (ids ++ [id])

def ApprovedDependencies.validate (externals : Externals) (grantBytes : ApprovedDependencies → Nat)
    (approved : ApprovedDependencies) (nowMs : UInt64) : Except ProtocolError Unit := do
  let path ← (CanonicalPath.parse approved.lockfilePath false).mapError fun _ => invalid
  require (!(!shownDigest approved.inputManifestDigest || !shownDigest approved.lockfileDigest ||
    32 < approved.preapproved.length || approved.maxFetches == 0 || 4096 < approved.maxFetches ||
    approved.maxBytes == 0 || 1024 * 1024 * 1024 < approved.maxBytes ||
    approved.expiresAtMs ≤ nowMs ||
    (CanonicalPath.components path.text).getLast? != some "Cargo.lock")) invalid
  require (externals.transport approved.registries) invalid
  let _ ← distinctIds externals approved.preapproved []
  require (decide (grantBytes approved ≤ 32 * 1024)) invalid

/-- An Agent's proposal and bounded fetch request. -/
structure DependencyRequest where
  requestId : String
  candidate : Candidate
  maxBytes : UInt64
deriving DecidableEq, Repr

def DependencyRequest.validate (externals : Externals) (request : DependencyRequest) :
    Except ProtocolError Unit := do
  request.candidate.validate externals
  require (!(!isRecordIdentifier request.requestId || request.maxBytes == 0 ||
    decide (maxArtifactBytes < request.maxBytes.toNat))) invalid

/-- Published opaque bytes. -/
structure Artifact where
  name : String
  digest : String
  size : UInt64
  integrityVerified : Bool
deriving DecidableEq, Repr

def Artifact.validate (artifact : Artifact) : Except ProtocolError Unit := do
  let digest ← (Digest.parse artifact.digest).mapError fun _ => invalid
  require (!(digest.toString != artifact.digest || artifact.name != "artifact-" ++ digest.hex ||
    decide (maxArtifactBytes < artifact.size.toNat))) invalid

/-- Durable dependency request outcome. -/
inductive DependencyStatus where
  | pending (candidateId : String)
  | complete (artifact : Artifact)
  | denied
  | unknown
deriving DecidableEq, Repr

def DependencyStatus.validate : DependencyStatus → Except ProtocolError Unit
  | .pending candidateId => require (shownDigest candidateId) invalid
  | .complete artifact => artifact.validate
  | .denied => .ok ()
  | .unknown => .ok ()

/-! ### Policy -/

/-- Whether an operator can answer a prompt. -/
inductive Attendance where
  | interactive
  | unattended
deriving DecidableEq, Repr

/-- Trusted immutable input for one dependency authority lifetime. -/
structure DependencyPolicy where
  sessionId : String
  runId : String
  envelopeRevision : UInt64
  attendance : Attendance
  starting : StartingLockfile
  preapproved : List Candidate
  expiresAtMs : UInt64
  maxFetches : UInt32
  maxBytes : UInt64
deriving DecidableEq, Repr

/-- Result of local policy evaluation. -/
inductive Decision where
  | authorized
  | pending (candidateId : String)
  | denied
deriving DecidableEq, Repr

/-- Single-owner authority for one lifetime. -/
structure DependencySession where
  policy : DependencyPolicy
  approved : List String
  pending : List (String × Candidate)
  revoked : Bool
  remainingFetches : UInt32
  remainingBytes : UInt64
deriving DecidableEq, Repr

/-- Authority for one fetch of one candidate. -/
structure FetchPermit where
  candidate : Candidate
  maxBytes : UInt64
  expiresAtMs : UInt64
deriving DecidableEq, Repr

namespace DependencySession

variable (externals : Externals)

def new (policy : DependencyPolicy) (nowMs : UInt64) : Except ProtocolError DependencySession := do
  require (!(!isRecordIdentifier policy.sessionId || policy.envelopeRevision == 0 ||
    !isRecordIdentifier policy.runId || policy.maxFetches == 0 || 4096 < policy.maxFetches ||
    policy.maxBytes == 0 || 1024 * 1024 * 1024 < policy.maxBytes || policy.expiresAtMs ≤ nowMs ||
    decide (maxCandidates < policy.preapproved.length))) invalid
  let approved ← distinctIds externals policy.preapproved []
  return ⟨policy, approved, [], false, policy.maxFetches, policy.maxBytes⟩

def checkActive (owner : DependencySession) (nowMs : UInt64) : Except ProtocolError Unit :=
  require (!(owner.revoked || owner.policy.expiresAtMs ≤ nowMs)) invalid

/-- Classify a proposal before any disclosure of its name. -/
def consider (owner : DependencySession) (candidate : Candidate) (nowMs : UInt64) :
    Except ProtocolError (Decision × DependencySession) := do
  owner.checkActive nowMs
  let id ← candidate.id externals
  if owner.approved.contains id ||
      (candidate.automatic && owner.policy.starting.entries.contains candidate) then
    return (.authorized, owner)
  else if owner.policy.attendance = .unattended then return (.denied, owner)
  else
    let isPending := (owner.pending.lookup id).isSome
    require (isPending || decide (owner.pending.length + owner.approved.length < maxCandidates))
      invalid
    return (.pending id, { owner with
      pending := (id, candidate) :: owner.pending.filter (·.1 != id) })

/-- Spend bounded fetch authority. -/
def beginFetch (owner : DependencySession) (candidate : Candidate) (maxBytes nowMs : UInt64) :
    Except ProtocolError (FetchPermit × DependencySession) := do
  let (decision, owner) ← owner.consider externals candidate nowMs
  require (!(decision != .authorized || maxBytes == 0 ||
    decide (maxArtifactBytes < maxBytes.toNat) || owner.remainingBytes < maxBytes ||
    owner.remainingFetches == 0)) invalid
  return (⟨candidate, maxBytes, owner.policy.expiresAtMs⟩, { owner with
    remainingFetches := owner.remainingFetches - 1
    remainingBytes := owner.remainingBytes - maxBytes })

end DependencySession

end Louiselm.Broker.Dependencies
