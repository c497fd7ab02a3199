import Louiselm.Admission.Transaction

/-!
# The Admission ceremony and the Generation lifecycle

`skills-core/src/admission.rs` and `admission/linked.rs`: admitting, witnessing and
activating a Generation. What lies outside is a parameter: the review of the packages
(Inspection, Dossier and Endorsement focus), the signer, the SSHSIG verifier, the witness
remote, the running release and the order of a directory listing.
-/

namespace Louiselm.Admission
open Base Canonical
open Endorsement (ReviewDepth SshsigVerify)
open Program

/-- The SSHSIG namespace Admission signatures are made in. -/
def admissionNamespace : String := "louiselm.skills.admission/1"

/-! ### Requests -/

/-- One package to admit, and the Instruction views it enters. -/
structure AdmissionMember where
  package : Digest
  depth : ReviewDepth
  agents : List String

/-- What the Dossier rebuilt from stored bytes says of a package. -/
structure Dossier where
  portableDigest : Digest
  intact : Bool
  failures : List String
  fatal : List String
  operatorProfile : Bool

/-- The review of packages from local evidence. `focus` is given the keys, the admitted
packages and the time, and then names the Endorsements a package's review relied on. -/
structure Review where
  focus : TrustStore → List Digest → UInt64 →
    Except AdmissionError (Digest → Except AdmissionError (List String))
  dossier : Digest → ReviewDepth → Except AdmissionError Dossier

/-- What to admit. -/
structure AdmissionRequest where
  members : List AdmissionMember
  review : Review
  signer : String → Bytes → Except AdmissionError String
  admittedAtMs : UInt64
  configuredAgents : Option (List String)

def reviewDepthName : ReviewDepth → String
  | .unstated => "unstated"
  | .skimmed => "skimmed"
  | .read => "read"
  | .reproduced => "reproduced"

/-- Refuse a member whose stored bytes do not verify or whose Inspection is fatal. -/
def refuseUnreviewable (package : Digest) (dossier : Dossier) : Except AdmissionError Unit := do
  require dossier.intact (.notReviewable package.toString
    ("stored bytes do not verify: " ++ "; ".intercalate dossier.failures))
  require dossier.fatal.isEmpty (.notReviewable package.toString ("; ".intercalate dossier.fatal))

/-- One Operator profile per Generation, scoped to every configured Agent. -/
def checkProfile (package : Digest) (agents : List String) (configured : Option (List String))
    (hasProfile : Bool) : Except AdmissionError Unit := do
  require (!hasProfile) .profileTwice
  match configured with
  | none => .error (.profileScopeUnknown package.toString)
  | some configured => do
    let missing := Text.sortedSet (configured.filter fun agent => !agents.contains agent)
    require missing.isEmpty (.profileScope package.toString missing)

/-- The members of a request as they are signed, each reviewed in turn. -/
def reviewMembers (request : AdmissionRequest)
    (reliedOn : Digest → Except AdmissionError (List String)) :
    Bool → List AdmissionMember → Except AdmissionError (List Member)
  | _, [] => .ok []
  | hasProfile, member :: members => do
    require (!member.agents.isEmpty) (.notReviewable member.package.toString
      "no Agent was named, so the package would enter no Instruction view")
    let dossier ← request.review.dossier member.package member.depth
    refuseUnreviewable member.package dossier
    if dossier.operatorProfile then
      checkProfile member.package member.agents request.configuredAgents hasProfile
    else .ok ()
    let relied ← reliedOn member.package
    let rest ← reviewMembers request reliedOn (hasProfile || dossier.operatorProfile) members
    return {
      packageDigest := member.package.toString
      dossierDigest := dossier.portableDigest.toString
      reviewDepth := reviewDepthName member.depth
      agents := member.agents
      reliedOn := relied } :: rest

section

variable (sha256 : Sha256) (fmt : JsonFormat) (sshsig : SshsigVerify) (listing : Listing)

/-! ### Checking a stored record -/

/-- A record's place in the chain, by the record its predecessor names. -/
def verifyChainPosition (record : GenerationRecord) : Action Unit :=
  match record.payload.predecessor with
  | none =>
    if record.payload.sequence = 1 then pure ()
    else fail (.chain
      ("sequence " ++ toString record.payload.sequence ++ " declares no predecessor"))
  | some predecessor =>
    if record.payload.sequence = 1 then
      fail (.chain "the first Generation cannot have a predecessor")
    else do
      let digest ← ofExcept ((Digest.parse predecessor).mapError .digest)
      let earlier ← loadUnlocked fmt digest
      ofExcept (require (earlier.payload.sequence + 1 == record.payload.sequence)
        (.chain ("sequence " ++ toString record.payload.sequence ++ " does not follow " ++
          toString earlier.payload.sequence)))

/-- Some enrolled key must verify the signature; else the last key's refusal is reported. -/
def verifySignature (record : GenerationRecord) (payload : Bytes) :
    List EnrolledKey → AdmissionError → Except AdmissionError Unit
  | [], last => .error last
  | key :: keys, _ =>
    match sshsig record.signature admissionNamespace payload key.publicKey key.skPolicy with
    | .ok _ => .ok ()
    | .error error => verifySignature record payload keys (.signature error)

/-- Check a stored record against the chain and the enrolled keys. -/
def verifyRecord (record : GenerationRecord) (trust : TrustStore) : Action Unit := do
  ofExcept do
    require (record.payload.schema == generationSchema)
      (.chain ("unsupported payload schema '" ++ record.payload.schema ++ "'"))
    let actual := record.payload.digest sha256 fmt
    require (record.generation == actual.toString)
      (.digestMismatch record.generation actual.toString)
    require (record.payload.trustDomain == trust.trustDomain)
      (.chain ("trust domain '" ++ record.payload.trustDomain ++ "' is not '" ++
        trust.trustDomain ++ "'"))
    require (record.payload.signerRole == Role.primary.name)
      (.chain ("signer role '" ++ record.payload.signerRole ++ "' may not admit a Generation"))
    require (record.payload.memberRoot == (record.payload.recomputedMemberRoot sha256 fmt).toString)
      .rootMismatch
  verifyChainPosition fmt record
  ofExcept (verifySignature sshsig record (record.payload.canonicalBytes fmt)
    (trust.verificationKeys .primary record.generation) (.signature "no enrolled primary key"))

/-- The enrolled keys, which must exist. -/
def requireTrust : Action TrustStore := do
  match ← loadTrust with
  | none => fail (.trust .notBootstrapped)
  | some trust => return trust

/-- Read a stored record and verify it. -/
def loadVerifiedUnlocked (digest : Digest) : Action GenerationRecord := do
  let record ← loadUnlocked fmt digest
  let trust ← requireTrust
  verifyRecord sha256 fmt sshsig record trust
  return record

/-! ### Linked operations -/

/-- Most directory entries a search for a linked operation reads. -/
def maxScan : Nat := 4096

/-- The one record that resolves a broker operation, under its own identity. -/
def findLinked (operation : String) : Nat → Option GenerationRecord → List (Digest × Bytes) →
      Except AdmissionError (Option GenerationRecord)
  | _, found, [] => .ok found
  | index, found, (digest, bytes) :: entries => do
    require (decide (index < maxScan)) (.chain "Generation scan bound exceeded")
    match (fmt.fromSlice bytes : Option GenerationRecord) with
    | none => .error .malformedJson
    | some record =>
      if record.payload.approvalOperation = some operation then do
        require found.isNone (.chain "ambiguous linked Admission")
        let own ← (Digest.parse record.generation).mapError .digest
        require (own == digest) (.chain "ambiguous linked Admission")
        findLinked operation (index + 1) (some record) entries
      else findLinked operation (index + 1) found entries

/-- Confirm that a record is durable. -/
def confirmRecord (record : GenerationRecord) : Action Unit := do
  probe (.io (.record (record.digest sha256 fmt)))
  probe (.io .generations)
  probe (.io .root)

/-- The record an earlier attempt at the same linked operation already signed. -/
def recoverLinked (payload : GenerationPayload) (trust : TrustStore) :
    Action (Option GenerationRecord) :=
  match payload.approvalOperation with
  | none => pure none
  | some operation => do
    let found ← query (fun store => findLinked fmt operation 0 none (listing.order store.records))
      (.io .generations)
    match found with
    | none => pure none
    | some record => do
      verifyRecord sha256 fmt sshsig record trust
      ofExcept (require (record.payload.members == payload.members &&
        record.payload.policyDigest == payload.policyDigest)
        (.chain "linked Admission request changed"))
      confirmRecord sha256 fmt record
      writeTrust (trust.approve record.generation)
      return some record

/-! ### Admission -/

/-- Packages of the Generation in force that no quarantine excludes. -/
def admittedUnlocked : Action (List Digest) := do
  match ← currentUnlocked fmt listing with
  | none => pure []
  | some record => do
    let quarantine ← query
      (fun store => (Quarantine.load fmt (store.contents .quarantine)).mapError .quarantine)
      (.quarantine (.io Quarantine.path))
    let (effective, _) :=
      Quarantine.partition quarantine record.generation record.payload.memberDigests
    ofExcept (effective.mapM fun member => (Digest.parse member).mapError .digest)

/-- The payload that follows the Generation in force. -/
def nextPayload (trust : TrustStore) (policyDigest : Digest) (members : List Member)
    (operation : Option String) (previous : Option GenerationRecord) : GenerationPayload :=
  { GenerationPayload.new sha256 fmt trust.trustDomain
      ((previous.map (·.payload.sequence + 1)).getD 1)
      (previous.map fun record => (record.digest sha256 fmt).toString) policyDigest.toString
      members with
    approvalOperation := operation }

/-- Review the request and build the payload to sign. -/
def preparePayload (policyDigest : Digest) (request : AdmissionRequest)
    (operation : Option String) (trust : TrustStore) : Action GenerationPayload := do
  let admitted ← admittedUnlocked fmt listing
  let reliedOn ← ofExcept (request.review.focus trust admitted request.admittedAtMs)
  let members ← ofExcept (reviewMembers request reliedOn false request.members)
  let previous ← currentUnlocked fmt listing
  return nextPayload sha256 fmt trust policyDigest members operation previous

/-- A signed record that governs nothing yet. -/
def pendingRecord (payload : GenerationPayload) (signature : String) (admittedAtMs : UInt64) :
    GenerationRecord where
  schema := recordSchema
  generation := (payload.digest sha256 fmt).toString
  payload
  signature
  state := .pendingWitness
  witness := none
  admittedAtMs
  invalidReason := none

/-- Sign a payload, verify our own signature and store the record. -/
def signPayload (request : AdmissionRequest) (trust : TrustStore) (signingKey : EnrolledKey)
    (payload : GenerationPayload) : Action GenerationRecord := do
  let bytes := payload.canonicalBytes fmt
  let signature ← ofExcept (request.signer admissionNamespace bytes)
  ofExcept ((sshsig signature admissionNamespace bytes signingKey.publicKey
      signingKey.skPolicy).mapError .signature)
  let record := pendingRecord sha256 fmt payload signature request.admittedAtMs
  writeRecord sha256 fmt record
  writeTrust (trust.approve record.generation)
  return record

/-- Run the Admission ceremony, linked to a broker operation or not. -/
def admitInner (policyDigest : Digest) (request : AdmissionRequest)
    (operation : Option String) : Action GenerationRecord := do
  lock sha256 fmt
  let trust ← requireTrust
  let signingKey ← ofExcept (trust.admissionKey.mapError .trust)
  let payload ← preparePayload sha256 fmt listing policyDigest request operation trust
  match ← recoverLinked sha256 fmt sshsig listing payload trust with
  | some record => return record
  | none => signPayload sha256 fmt sshsig request trust signingKey payload

/-- Run the Admission ceremony and store the signed Generation. -/
def admitRequest (policyDigest : Digest) (request : AdmissionRequest) : Action GenerationRecord :=
  admitInner sha256 fmt sshsig listing policyDigest request none

/-- Whether a text is a lower-case hyphenated UUID. -/
def canonicalUuid (value : String) : Bool :=
  (utf8 value).length == 36 && (utf8 value).zipIdx.all fun (byte, index) =>
    if index ∈ [8, 13, 18, 23] then byte == '-'.toUInt8
    else ('0'.toUInt8 ≤ byte && byte ≤ '9'.toUInt8) || ('a'.toUInt8 ≤ byte && byte ≤ 'f'.toUInt8)

/-- Perform or recover one broker-linked Admission without repeating its signature. -/
def admitLinked (policyDigest : Digest) (request : AdmissionRequest) (operation : String) :
    Action GenerationRecord := do
  ofExcept (require (canonicalUuid operation) (.chain "invalid approval operation"))
  admitInner sha256 fmt sshsig listing policyDigest request (some operation)

/-! ### Witnessing -/

/-- What a witness remote answers: what it holds, the publication, what it then holds. -/
structure Remote where
  fetch : Except AdmissionError (Option (Bytes × WitnessEvidence))
  publish : Except AdmissionError Unit
  refetch : Except AdmissionError (Option (Bytes × WitnessEvidence))

/-- What the remote holds, published first when it held nothing. -/
def Remote.held (remote : Remote) : Except AdmissionError (Option (Bytes × WitnessEvidence)) := do
  match ← remote.fetch with
  | some held => return some held
  | none => do
    remote.publish
    remote.refetch

/-- The bytes to witness, read before any network I/O. -/
def publishBytes (digest : Digest) : Action Bytes := do
  lock sha256 fmt
  let record ← loadVerifiedUnlocked sha256 fmt sshsig digest
  return record.witnessBytes fmt

/-- Record the evidence that the remote holds `bytes`, under a lock taken after the network
I/O: the record may have changed meanwhile. -/
def confirmBytes (digest : Digest) (bytes : Bytes) (remote : Remote) (confirmedAtMs : UInt64) :
    Action GenerationRecord := do
  match ← ofExcept remote.held with
  | none => fail (.witnessMismatch digest.toString)
  | some (found, evidence) => do
    ofExcept (require (found == bytes) (.witnessMismatch digest.toString))
    lock sha256 fmt
    let record ← loadVerifiedUnlocked sha256 fmt sshsig digest
    ofExcept (require (record.witnessBytes fmt == bytes) (.witnessMismatch digest.toString))
    let record := { record with witness := some { evidence with confirmedAtMs } }
    writeRecord sha256 fmt record
    return record

/-- Publish and confirm a Generation's exact bytes on the witness remote. -/
def witness (digest : Digest) (remote : Remote) (confirmedAtMs : UInt64) :
    Action GenerationRecord := do
  let bytes ← publishBytes sha256 fmt sshsig digest
  confirmBytes sha256 fmt sshsig digest bytes remote confirmedAtMs

/-! ### Activation -/

/-- Whether the running executable belongs to a trusted release. -/
structure RunningIdentity where
  verified : Bool
  failureCode : Option String

/-- Refuse to change a trusted store from an untrusted release. -/
def requireRelease (identity : RunningIdentity) : Action Unit := do
  let trusted ← query (fun store => .ok store.trusted) (.io .root)
  ofExcept (require (!trusted || identity.verified)
    (.notTrustedRelease (identity.failureCode.getD "unverified")))

/-- A record put in force. -/
def GenerationRecord.enforce (record : GenerationRecord) : GenerationRecord :=
  { record with state := .current }

/-- Put a witnessed Generation in force, under the lock. -/
def activateUnlocked (digest : Digest) (activatedAtMs : UInt64)
    (checkpoint : Checkpoint → Except AdmissionError Unit) : Action GenerationRecord := do
  let record ← loadVerifiedUnlocked sha256 fmt sshsig digest
  ofExcept (require record.witness.isSome (.notWitnessed digest.toString))
  match ← currentUnlocked fmt listing with
  | none => do
    activateWith sha256 fmt none record.enforce activatedAtMs checkpoint
    return record.enforce
  | some previous =>
    if previous.digest sha256 fmt = digest then do
      confirm digest
      return record
    else if record.payload.sequence ≤ previous.payload.sequence then
      fail (.rollback digest.toString previous.payload.sequence)
    else do
      activateWith sha256 fmt (some previous) record.enforce activatedAtMs checkpoint
      return record.enforce

/-- Make a witnessed Generation the supply in force, failing where a test asks it to. -/
def activateChecked (identity : RunningIdentity) (digest : Digest) (activatedAtMs : UInt64)
    (checkpoint : Checkpoint → Except AdmissionError Unit) : Action GenerationRecord := do
  requireRelease identity
  lock sha256 fmt
  activateUnlocked sha256 fmt sshsig listing digest activatedAtMs checkpoint

/-- Make a witnessed Generation the supply in force. -/
def activate (identity : RunningIdentity) (digest : Digest) (activatedAtMs : UInt64) :
    Action GenerationRecord :=
  activateChecked sha256 fmt sshsig listing identity digest activatedAtMs fun _ => .ok ()

/-- The Generation in force, when there is one. -/
def current : Action (Option GenerationRecord) := do
  lock sha256 fmt
  currentUnlocked fmt listing

/-- Read a stored record without verifying it. -/
def load (digest : Digest) : Action GenerationRecord := do
  lock sha256 fmt
  loadUnlocked fmt digest

end
end Louiselm.Admission
