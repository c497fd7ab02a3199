import Louiselm.Base.Checks
import Louiselm.Base.Json
import Louiselm.Base.Text
import Louiselm.Endorsement.Merkle

/-!
# Portable Endorsement records

`skills-core/src/endorsement.rs`: signing a batch, the exported per-package records, and
the parser that accepts exactly the canonical bytes. The SSHSIG verifier, the signer and the
random blinding are parameters; `ReviewDepth` is that of `dossier.rs` and `SkPolicy` that
of `sshsig.rs`.
-/

namespace Louiselm.Endorsement
open Base Canonical Merkle Json

/-- The SSHSIG namespace Endorsement signatures are made in. -/
def endorsementNamespace : String := "louiselm.skills.endorsement/1"

/-- The schema of the signed batch header. -/
def statementSchema : String := "louiselm.skills.endorsement/1"

/-- The schema of one exported per-package record. -/
def recordSchema : String := "louiselm.skills.endorsement-record/1"

/-- The only signature algorithm this build verifies. -/
def sshsigAlgorithm : String := "sshsig/1"

/-- Largest record accepted, checked before any parsing. -/
def maxRecordBytes : Nat := 16 * 1024

/-- Most packages one batch signature may cover. -/
def maxBatch : Nat := 1024

def maxAssumptions : Nat := 16

def maxText : Nat := 256

def nonceBytes : Nat := 32

/-! ### Statements -/

/-- The role an endorser claims. -/
inductive EndorserRole where
  | publisher
  | reviewer
deriving DecidableEq, Repr

/-- What a signed batch states about its subjects. -/
inductive StatementKind where
  | endorsement
  | withdrawal
deriving DecidableEq, Repr

/-- How much of a package the reviewer claims to have reviewed. -/
inductive ReviewDepth where
  | unstated
  | skimmed
  | read
  | reproduced
deriving DecidableEq, Repr

/-- What a role requires of the authenticator that signs for it. -/
structure SkPolicy where
  requireHardware : Bool
  requireUserPresence : Bool
  requireUserVerification : Bool
deriving DecidableEq, Repr

/-- Accept a software key. -/
def SkPolicy.none : SkPolicy := ⟨false, false, false⟩

/-- Who signs a batch and for how long it is valid. -/
structure Signing where
  signerRole : EndorserRole
  signerKey : String
  issuedAtMs : UInt64
  expiresAtMs : UInt64
deriving DecidableEq

/-- The Assessment an endorser states they considered. -/
structure StatedAssessment where
  model : String
  promptVersion : String
deriving DecidableEq, Repr

/-- What an endorser claims about one package. -/
structure EndorsedPackage where
  packageDigest : Digest
  policyDigest : Digest
  dossierDigest : Option Digest
  assessment : Option StatedAssessment
  reviewDepth : ReviewDepth
  assumptions : List String
deriving DecidableEq

/-- The statements one signature covers. -/
inductive Batch where
  | endorsements (packages : List EndorsedPackage)
  | withdrawals (digests : List Digest)

/-- What one record states about its single subject. -/
inductive Subject where
  | endorsed (package : EndorsedPackage)
  | withdrawn (digest : Digest)
deriving DecidableEq

/-- The statements of a batch, one for each subject. -/
def Batch.subjects : Batch → List Subject
  | .endorsements packages => packages.map .endorsed
  | .withdrawals digests => digests.map .withdrawn

def EndorserRole.name : EndorserRole → String
  | .publisher => "publisher"
  | .reviewer => "reviewer"

def EndorserRole.parse : String → Option EndorserRole
  | "publisher" => some .publisher
  | "reviewer" => some .reviewer
  | _ => .none

def StatementKind.name : StatementKind → String
  | .endorsement => "endorsement"
  | .withdrawal => "withdrawal"

def StatementKind.parse : String → Option StatementKind
  | "endorsement" => some .endorsement
  | "withdrawal" => some .withdrawal
  | _ => .none

def ReviewDepth.name : ReviewDepth → String
  | .unstated => "unstated"
  | .skimmed => "skimmed"
  | .read => "read"
  | .reproduced => "reproduced"

def ReviewDepth.parse : String → Option ReviewDepth
  | "unstated" => some .unstated
  | "skimmed" => some .skimmed
  | "read" => some .read
  | "reproduced" => some .reproduced
  | _ => .none

@[simp] theorem EndorserRole.parse_name (r : EndorserRole) : parse r.name = some r := by
  cases r <;> rfl

@[simp] theorem StatementKind.parse_name (k : StatementKind) : parse k.name = some k := by
  cases k <;> rfl

@[simp] theorem ReviewDepth.parse_name (d : ReviewDepth) : parse d.name = some d := by
  cases d <;> rfl

/-- Why an Endorsement could not be produced, parsed or verified. `malformedJson` is
`Malformed` with the JSON reader's own message. -/
inductive EndorsementError where
  | oversized (size limit : Nat)
  | malformed (reason : String)
  | malformedJson
  | nonCanonical
  | unsupportedSchema (schema : String)
  | unsupportedAlgorithm (algorithm : String)
  | unsupportedKind (kind : String)
  | invalid (field reason : String)
  | proofMismatch
  | signature (error : String)
  | signing (error : String)
  | random (error : String)
  | expired (expiresAtMs : UInt64)
  | notYetValid (issuedAtMs : UInt64)
deriving DecidableEq

/-! ### Wire documents, fields in alphabetical order -/

structure WireHeader where
  expiresAtMs : UInt64
  issuedAtMs : UInt64
  kind : StatementKind
  leafCount : UInt64
  root : String
  schema : String
  signatureAlgorithm : String
  signerKey : String
  signerRole : EndorserRole
deriving DecidableEq

structure WireAssessment where
  model : String
  promptVersion : String
deriving DecidableEq

structure EndorsedLeaf where
  assessment : Option WireAssessment
  assumptions : List String
  dossierDigest : Option String
  nonce : String
  packageDigest : String
  policyDigest : String
  reviewDepth : String
deriving DecidableEq

structure WithdrawnLeaf where
  nonce : String
  packageDigest : String
deriving DecidableEq

structure WireRecord (L : Type) where
  header : WireHeader
  leaf : L
  leafIndex : UInt64
  proof : List String
  schema : String
  signature : String
deriving DecidableEq

instance : Deserialize EndorserRole :=
  deserializeName EndorserRole.name EndorserRole.parse EndorserRole.parse_name

instance : Deserialize StatementKind :=
  deserializeName StatementKind.name StatementKind.parse StatementKind.parse_name

def WireHeader.members (h : WireHeader) : List (String × Json) :=
  [("expires_at_ms", toJson h.expiresAtMs), ("issued_at_ms", toJson h.issuedAtMs),
    ("kind", toJson h.kind), ("leaf_count", toJson h.leafCount), ("root", toJson h.root),
    ("schema", toJson h.schema), ("signature_algorithm", toJson h.signatureAlgorithm),
    ("signer_key", toJson h.signerKey), ("signer_role", toJson h.signerRole)]

/-- The field names, in declaration order. -/
def WireHeader.fields : List String :=
  ["expires_at_ms", "issued_at_ms", "kind", "leaf_count", "root", "schema",
    "signature_algorithm", "signer_key", "signer_role"]

def WireHeader.ofJson (v : Json) : Option WireHeader := do
  match ← v.struct true WireHeader.fields with
  | [expiresAtMs, issuedAtMs, kind, leafCount, root, schema, signatureAlgorithm, signerKey,
      signerRole] =>
    return {
      expiresAtMs := ← field expiresAtMs
      issuedAtMs := ← field issuedAtMs
      kind := ← field kind
      leafCount := ← field leafCount
      root := ← field root
      schema := ← field schema
      signatureAlgorithm := ← field signatureAlgorithm
      signerKey := ← field signerKey
      signerRole := ← field signerRole }
  | _ => failure

instance : Deserialize WireHeader :=
  deserializeStruct WireHeader.members WireHeader.ofJson 0 (fun h => by
      simp (disch := decide) [WireHeader.members, fits_toJson])
    (fun h => by
      rw [WireHeader.ofJson, struct_obj true WireHeader.fields rfl (by decide)]
      simp [WireHeader.members])

def WireAssessment.members (a : WireAssessment) : List (String × Json) :=
  [("model", toJson a.model), ("prompt_version", toJson a.promptVersion)]

/-- The field names, in declaration order. -/
def WireAssessment.fields : List String :=
  ["model", "prompt_version"]

def WireAssessment.ofJson (v : Json) : Option WireAssessment := do
  match ← v.struct true WireAssessment.fields with
  | [model, promptVersion] =>
        return { model := ← field model, promptVersion := ← field promptVersion }
  | _ => failure

instance : Deserialize WireAssessment :=
  deserializeStruct WireAssessment.members WireAssessment.ofJson 0 (fun a => by
      simp (disch := decide) [WireAssessment.members, fits_toJson])
    (fun a => by
      rw [WireAssessment.ofJson, struct_obj true WireAssessment.fields rfl (by decide)]
      simp [WireAssessment.members])

instance : NonNull WireAssessment where
  ne_null := fun _ h => nomatch h

def EndorsedLeaf.members (leaf : EndorsedLeaf) : List (String × Json) :=
  [("assessment", toJson leaf.assessment), ("assumptions", toJson leaf.assumptions),
    ("dossier_digest", toJson leaf.dossierDigest), ("nonce", toJson leaf.nonce),
    ("package_digest", toJson leaf.packageDigest), ("policy_digest", toJson leaf.policyDigest),
    ("review_depth", toJson leaf.reviewDepth)]

/-- The field names, in declaration order. -/
def EndorsedLeaf.fields : List String :=
  ["assessment", "assumptions", "dossier_digest", "nonce", "package_digest", "policy_digest",
    "review_depth"]

def EndorsedLeaf.ofJson (v : Json) : Option EndorsedLeaf := do
  match ← v.struct true EndorsedLeaf.fields with
  | [assessment, assumptions, dossierDigest, nonce, packageDigest, policyDigest, reviewDepth] =>
    return {
      assessment := ← field assessment
      assumptions := ← field assumptions
      dossierDigest := ← field dossierDigest
      nonce := ← field nonce
      packageDigest := ← field packageDigest
      policyDigest := ← field policyDigest
      reviewDepth := ← field reviewDepth }
  | _ => failure

instance : Deserialize EndorsedLeaf :=
  deserializeStruct EndorsedLeaf.members EndorsedLeaf.ofJson 1 (fun leaf => by
      simp (disch := decide) [EndorsedLeaf.members, fits_toJson])
    (fun leaf => by
      rw [EndorsedLeaf.ofJson, struct_obj true EndorsedLeaf.fields rfl (by decide)]
      simp [EndorsedLeaf.members])

def WithdrawnLeaf.members (leaf : WithdrawnLeaf) : List (String × Json) :=
  [("nonce", toJson leaf.nonce), ("package_digest", toJson leaf.packageDigest)]

/-- The field names, in declaration order. -/
def WithdrawnLeaf.fields : List String :=
  ["nonce", "package_digest"]

def WithdrawnLeaf.ofJson (v : Json) : Option WithdrawnLeaf := do
  match ← v.struct true WithdrawnLeaf.fields with
  | [nonce, packageDigest] =>
    return { nonce := ← field nonce, packageDigest := ← field packageDigest }
  | _ => failure

instance : Deserialize WithdrawnLeaf :=
  deserializeStruct WithdrawnLeaf.members WithdrawnLeaf.ofJson 0 (fun leaf => by
      simp (disch := decide) [WithdrawnLeaf.members, fits_toJson])
    (fun leaf => by
      rw [WithdrawnLeaf.ofJson, struct_obj true WithdrawnLeaf.fields rfl (by decide)]
      simp [WithdrawnLeaf.members])

section

variable {L : Type} [Deserialize L]

def WireRecord.members (record : WireRecord L) : List (String × Json) :=
  [("header", toJson record.header), ("leaf", toJson record.leaf),
    ("leaf_index", toJson record.leafIndex), ("proof", toJson record.proof),
    ("schema", toJson record.schema), ("signature", toJson record.signature)]

/-- The field names, in declaration order. -/
def WireRecord.fields : List String :=
  ["header", "leaf", "leaf_index", "proof", "schema", "signature"]

def WireRecord.ofJson (v : Json) : Option (WireRecord L) := do
  match ← v.struct true WireRecord.fields with
  | [header, leaf, leafIndex, proof, schema, signature] =>
    return {
      header := ← field header
      leaf := ← field leaf
      leafIndex := ← field leafIndex
      proof := ← field proof
      schema := ← field schema
      signature := ← field signature }
  | _ => failure

instance : Deserialize (WireRecord L) :=
  deserializeStruct WireRecord.members WireRecord.ofJson (Serialize.depth L + 1) (fun record => by
      have hl : ∀ leaf : L, Fits (Serialize.depth L + 1) (toJson leaf) :=
        fits_toJson (Nat.le_succ _)
      have hs : ∀ {α : Type} [Serialize α] (a : α), Serialize.depth α ≤ 1 →
          Fits (Serialize.depth L + 1) (toJson a) :=
        fun a h => fits_toJson (Nat.le_trans h (Nat.le_add_left 1 _)) a
      simp (disch := decide) only [WireRecord.members, fits_members_cons, fits_members_nil, hl,
        hs, and_self])
    (fun record => by
      rw [WireRecord.ofJson, struct_obj true WireRecord.fields rfl (by decide)]
      simp [WireRecord.members])

end

instance : Normal EndorserRole where
  normalize_toJson := fun role => by change (str _).normalize = _; rw [Json.normalize]; rfl

instance : Normal StatementKind where
  normalize_toJson := fun kind => by change (str _).normalize = _; rw [Json.normalize]; rfl

instance : Normal WireHeader where
  normalize_toJson := fun h =>
    normalize_obj WireHeader.fields rfl (by decide) (by simp [WireHeader.members])

instance : Normal WireAssessment where
  normalize_toJson := fun a =>
    normalize_obj WireAssessment.fields rfl (by decide) (by simp [WireAssessment.members])

instance : Normal EndorsedLeaf where
  normalize_toJson := fun leaf =>
    normalize_obj EndorsedLeaf.fields rfl (by decide) (by simp [EndorsedLeaf.members])

instance : Normal WithdrawnLeaf where
  normalize_toJson := fun leaf =>
    normalize_obj WithdrawnLeaf.fields rfl (by decide) (by simp [WithdrawnLeaf.members])

instance {L : Type} [Deserialize L] [Normal L] : Normal (WireRecord L) where
  normalize_toJson := fun record =>
    normalize_obj WireRecord.fields rfl (by decide) (by simp [WireRecord.members])

/-! ### Field checks -/

def validText (text : String) : Bool :=
  !Text.isBlank text && text.utf8ByteSize ≤ maxText && !text.toList.any Text.isControl

/-- One half of an OpenSSH public key. -/
def printablePart (part : List Char) : Bool :=
  !part.isEmpty && part.length ≤ 1024 && part.all Text.isAsciiGraphic

def validPublicKey (key : String) : Bool :=
  match key.toList.splitOn ' ' with
  | [algorithm, blob] =>
    printablePart algorithm && printablePart blob &&
      ("ssh-".toList.isPrefixOf algorithm || "sk-".toList.isPrefixOf algorithm ||
        "ecdsa-".toList.isPrefixOf algorithm)
  | _ => false

def validateSigning (signing : Signing) : Except EndorsementError Unit := do
  require (decide (signing.issuedAtMs < signing.expiresAtMs))
    (.invalid "expires_at_ms" "must be after issued_at_ms")
  require (validPublicKey signing.signerKey)
    (.invalid "signer_key" "must be '<algorithm> <base64>' with no comment")

def validatePackage (package : EndorsedPackage) : Except EndorsementError Unit := do
  require (decide (package.assumptions.length ≤ maxAssumptions))
    (.invalid "assumptions" "too many assumptions")
  require (package.assumptions.all validText)
    (.invalid "assumptions" "each must be one non-empty printable line")
  match package.assessment with
  | some stated =>
    require (validText stated.model && validText stated.promptVersion)
      (.invalid "assessment" "model and prompt_version must be printable lines")
  | none => .ok ()

/-- Accept only the displayed spelling, so one digest has one encoding. -/
def digestField (field raw : String) : Except EndorsementError Digest :=
  match Digest.parse raw with
  | .ok digest =>
    if digest.toString = raw then .ok digest
    else .error (.invalid field "must be sha256:<64 lowercase hex>")
  | .error _ => .error (.invalid field "must be sha256:<64 lowercase hex>")

/-- The optional form of `digestField`, transposed. -/
def optionalDigestField (field : String) : Option String → Except EndorsementError (Option Digest)
  | some raw => (digestField field raw).map some
  | none => .ok none

def checkNonce (nonce : String) : Except EndorsementError Unit :=
  require (nonce.utf8ByteSize == nonceBytes * 2 && nonce.toList.all Hex.isDigit)
    (.invalid "nonce" "must be 64 lowercase hex characters")

/-- The duplicate check of `checkSubjects`, with the digests seen so far. -/
def checkDistinct (seen : List Digest) : List Digest → Except EndorsementError Unit
  | [] => .ok ()
  | digest :: digests => do
    require (decide (digest ∉ seen)) (.invalid "package_digest" "a batch names each package once")
    checkDistinct (digest :: seen) digests

def checkSubjects (digests : List Digest) : Except EndorsementError Unit := do
  checkDistinct [] digests
  require (!digests.isEmpty) (.invalid "batch" "must name at least one package")
  require (decide (digests.length ≤ maxBatch)) (.invalid "batch" "exceeds the batch limit")

/-- A length as a wire integer. -/
def count (value : Nat) : Except EndorsementError UInt64 :=
  if value < UInt64.size then .ok (UInt64.ofNat value)
  else .error (.invalid "batch" "exceeds the batch limit")

def expectSchema (found : Option Json) (expected : String) : Except EndorsementError Unit :=
  match found with
  | some (.str schema) =>
    if schema = expected then .ok () else .error (.unsupportedSchema (Text.escape schema))
  | _ => .error (.malformed ("missing schema; expected " ++ expected))

def missing (field : String) : EndorsementError := .malformed ("missing " ++ field)

/-! ### Leaves -/

/-- The text of the blinding bytes: their node text without its prefix. -/
def nonceText (bytes : Vector UInt8 32) : String := String.ofList (Hex.encode bytes.toList)

def endorsedLeaf (package : EndorsedPackage) (nonce : String) : EndorsedLeaf where
  assessment := package.assessment.map fun stated => ⟨stated.model, stated.promptVersion⟩
  assumptions := package.assumptions
  dossierDigest := package.dossierDigest.map Digest.toString
  nonce := nonce
  packageDigest := package.packageDigest.toString
  policyDigest := package.policyDigest.toString
  reviewDepth := package.reviewDepth.name

def withdrawnLeaf (digest : Digest) (nonce : String) : WithdrawnLeaf where
  nonce := nonce
  packageDigest := digest.toString

def packageFromLeaf (leaf : EndorsedLeaf) : Except EndorsementError EndorsedPackage := do
  checkNonce leaf.nonce
  let packageDigest ← digestField "package_digest" leaf.packageDigest
  let policyDigest ← digestField "policy_digest" leaf.policyDigest
  let dossierDigest ← optionalDigestField "dossier_digest" leaf.dossierDigest
  match ReviewDepth.parse leaf.reviewDepth with
  | none => .error (.invalid "review_depth" "not a known review depth")
  | some reviewDepth => do
    let package : EndorsedPackage := {
      packageDigest, policyDigest, dossierDigest, reviewDepth
      assessment := leaf.assessment.map fun stated => ⟨stated.model, stated.promptVersion⟩
      assumptions := leaf.assumptions }
    validatePackage package
    return package

/-- The subject of a withdrawal's leaf, with the checks of its arm of `parse`. -/
def digestFromLeaf (leaf : WithdrawnLeaf) : Except EndorsementError Digest := do
  checkNonce leaf.nonce
  digestField "package_digest" leaf.packageDigest

def subjectMatchesKind : Subject → StatementKind
  | .endorsed _ => .endorsement
  | .withdrawn _ => .withdrawal

/-! ### Records -/

/-- A parsed, canonical record whose proof and signature are not yet checked. -/
structure Record where
  signing : Signing
  kind : StatementKind
  subject : Subject
  headerBytes : Bytes
  signature : String
  leaf : Node
  leafIndex : UInt64
  leafCount : UInt64
  proof : List Node
  root : Node
  bytes : Bytes

/-- `sshsig::verify` on an armored signature, namespace, payload, public key and policy. -/
abbrev SshsigVerify := String → String → Bytes → String → SkPolicy → Except String Unit

/-- A signer of a namespace and payload. -/
abbrev Signer := String → Bytes → Except String String

/-- The random blinding, by the number of nonces drawn before. -/
abbrev Nonces := Nat → Except String (Vector UInt8 32)

section

variable (sha256 : Sha256) (fmt : JsonFormat)

def Record.toBytes (record : Record) : Bytes := record.bytes

def Record.verifySignature (sshsig : SshsigVerify) (record : Record) (skPolicy : SkPolicy) :
    Except EndorsementError Unit :=
  if verify sha256 record.leaf record.leafIndex.toNat record.leafCount.toNat record.proof
      record.root then
    match sshsig record.signature endorsementNamespace record.headerBytes
        record.signing.signerKey skPolicy with
    | .ok () => .ok ()
    | .error error => .error (.signature error)
  else .error .proofMismatch

/-- Verify the proof, then the signature by the stated key, then validity at `nowMs`. -/
def Record.verify (sshsig : SshsigVerify) (record : Record) (nowMs : UInt64)
    (skPolicy : SkPolicy) : Except EndorsementError Subject := do
  record.verifySignature sha256 sshsig skPolicy
  require (decide (record.signing.issuedAtMs ≤ nowMs)) (.notYetValid record.signing.issuedAtMs)
  require (decide (nowMs < record.signing.expiresAtMs)) (.expired record.signing.expiresAtMs)
  return record.subject

/-- Decode a document as a record and require its one canonical encoding. -/
def typed (L : Type) [Deserialize L] (value : Json) (bytes : Bytes) :
    Except EndorsementError (WireRecord L) :=
  match ofJson value with
  | none => .error .malformedJson
  | some (record : WireRecord L) =>
    if fmt.toVec record = bytes then .ok record else .error .nonCanonical

/-- Decode every proof entry. -/
def decodeProof (proof : List String) : Except EndorsementError (List Node) :=
  proof.mapM fun text =>
    match decode text with
    | some node => .ok node
    | none => .error (.invalid "proof" "each entry must be sha256:<64 lowercase hex>")

def finish {L : Type} [Serialize L] (record : WireRecord L) (subject : Subject) (bytes : Bytes) :
    Except EndorsementError Record := do
  let header := record.header
  let signing : Signing :=
    ⟨header.signerRole, header.signerKey, header.issuedAtMs, header.expiresAtMs⟩
  validateSigning signing
  let leafCount := header.leafCount
  let limit ← count maxBatch
  require (leafCount != 0 && leafCount ≤ limit)
    (.invalid "leaf_count" "must be between 1 and the batch limit")
  require (decide (record.leafIndex < leafCount)) (.invalid "leaf_index" "must be below leaf_count")
  match decode header.root with
  | none => .error (.invalid "root" "must be sha256:<64 lowercase hex>")
  | some root => do
    let proof ← decodeProof record.proof
    require (subjectMatchesKind subject == header.kind)
      (.malformed "leaf does not match statement kind")
    return {
      signing, subject, leafCount, proof, root, bytes
      kind := header.kind
      headerBytes := fmt.toVec header
      signature := record.signature
      leaf := leafHash sha256 (fmt.toVec record.leaf)
      leafIndex := record.leafIndex }

/-- Parse exact canonical record bytes. -/
def parse (bytes : Bytes) : Except EndorsementError Record := do
  require (decide (bytes.length ≤ maxRecordBytes)) (.oversized bytes.length maxRecordBytes)
  match (fmt.readBytes bytes).map normalize with
  | none => .error .malformedJson
  | some value => do
    expectSchema (value.get "schema") recordSchema
    let header := value.get "header"
    let field := fun name => header.bind (get name)
    expectSchema (field "schema") statementSchema
    match field "signature_algorithm" with
    | some (.str found) =>
      require (found == sshsigAlgorithm) (.unsupportedAlgorithm (Text.escape found))
    | _ => .error (missing "signature_algorithm")
    match field "kind" with
    | some (.str kind) =>
      if kind = "endorsement" then do
        let record ← typed fmt EndorsedLeaf value bytes
        let package ← packageFromLeaf record.leaf
        finish sha256 fmt record (.endorsed package) bytes
      else if kind = "withdrawal" then do
        let record ← typed fmt WithdrawnLeaf value bytes
        let digest ← digestFromLeaf record.leaf
        finish sha256 fmt record (.withdrawn digest) bytes
      else .error (.unsupportedKind (Text.escape kind))
    | _ => .error (missing "kind")

/-- The order of `[u8; 32]`: byte by byte from the front. -/
def nodeLe (a b : Node) : Bool := decide (a.toList ≤ b.toList)

/-- One record of an assembled batch, unless it exceeds the record limit. -/
def exportRecord {L : Type} [Deserialize L] (header : WireHeader) (signature : String)
    (nodes : List Node) (leaf : L) (index : Nat) : Except EndorsementError Bytes := do
  let leafIndex ← count index
  let bytes := fmt.toVec (WireRecord.mk header leaf leafIndex
    ((path sha256 nodes index).map encode) recordSchema signature)
  require (decide (bytes.length ≤ maxRecordBytes)) (.oversized bytes.length maxRecordBytes)
  return bytes

/-- The header a batch signs. -/
def batchHeader (signing : Signing) (kind : StatementKind) (leafCount : UInt64)
    (root : Node) : WireHeader where
  expiresAtMs := signing.expiresAtMs
  issuedAtMs := signing.issuedAtMs
  kind := kind
  leafCount := leafCount
  root := encode root
  schema := statementSchema
  signatureAlgorithm := sshsigAlgorithm
  signerKey := signing.signerKey
  signerRole := signing.signerRole

/-- The leaves with their hashes, ordered by hash. -/
def sortLeaves {L : Type} [Serialize L] (leaves : List L) : List (Node × L) :=
  (leaves.map fun leaf => (leafHash sha256 (fmt.toVec leaf), leaf)).mergeSort
    fun a b => nodeLe a.1 b.1

/-- Order the leaves by hash, sign the header over their root and export every record. -/
def assemble {L : Type} [Deserialize L] (sshsig : SshsigVerify) (signer : Signer)
    (signing : Signing) (kind : StatementKind) (leaves : List L) :
    Except EndorsementError (List Bytes) := do
  let hashed := sortLeaves sha256 fmt leaves
  let nodes := hashed.map Prod.fst
  match root sha256 nodes with
  | none => .error (.invalid "batch" "must name at least one package")
  | some root => do
    let leafCount ← count nodes.length
    let header := batchHeader signing kind leafCount root
    let headerBytes := fmt.toVec header
    match signer endorsementNamespace headerBytes with
    | .error error => .error (.signing error)
    | .ok signature =>
      match sshsig signature endorsementNamespace headerBytes signing.signerKey SkPolicy.none with
      | .error error => .error (.signature error)
      | .ok () =>
        hashed.zipIdx.mapM fun ((_, leaf), index) =>
          exportRecord sha256 fmt header signature nodes leaf index

/-- Blind each subject with the next nonce. -/
def blind {α L : Type} (nonces : Nonces) (leafOf : α → String → L) (subjects : List α) :
    Except EndorsementError (List L) :=
  subjects.zipIdx.mapM fun (subject, draw) =>
    match nonces draw with
    | .ok bytes => .ok (leafOf subject (nonceText bytes))
    | .error error => .error (.random error)

/-- Sign a batch with one call to the signer and return one record per subject. -/
def signBatch (sshsig : SshsigVerify) (signer : Signer) (nonces : Nonces) (signing : Signing)
    (batch : Batch) : Except EndorsementError (List Bytes) := do
  validateSigning signing
  match batch with
  | .endorsements packages => do
    checkSubjects (packages.map EndorsedPackage.packageDigest)
    packages.forM validatePackage
    let leaves ← blind nonces endorsedLeaf packages
    assemble sha256 fmt sshsig signer signing .endorsement leaves
  | .withdrawals digests => do
    checkSubjects digests
    let leaves ← blind nonces withdrawnLeaf digests
    assemble sha256 fmt sshsig signer signing .withdrawal leaves

end
end Louiselm.Endorsement
