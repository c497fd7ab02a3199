import Mathlib.Tactic.Common
import Louiselm.Base.Json
import Louiselm.Base.Text
import Louiselm.Canonical.Digest

/-!
# Skill Generations and their stored records

`skills-core/src/generation.rs` and the evidence of `witness.rs`: the signed payload with its
canonical bytes, the stored record around it, and the bytes a witness must hold.
-/

namespace Louiselm.Admission
open Base Canonical

/-- The Generation payload schema this build signs and reads. -/
def generationSchema : String := "louiselm.skills.generation/3"

/-- The stored record schema. -/
def recordSchema : String := "louiselm.skills.generation-record/1"

/-- One admitted package and the review it was admitted on. -/
structure Member where
  packageDigest : String
  dossierDigest : String
  reviewDepth : String
  agents : List String
  reliedOn : List String
deriving DecidableEq, Repr

/-- The bytes a hardware key signs to admit a Generation. -/
structure GenerationPayload where
  schema : String
  trustDomain : String
  sequence : UInt64
  predecessor : Option String
  signerRole : String
  policyDigest : String
  memberRoot : String
  members : List Member
  approvalOperation : Option String
deriving DecidableEq, Repr

/-- Where a Generation stands in its lifecycle. -/
inductive GenerationState where
  | pendingWitness
  | current
  | superseded
  | quarantined
  | invalid
deriving DecidableEq, Repr

/-- Evidence that a remote holds the exact signed bytes. -/
structure WitnessEvidence where
  remote : String
  branch : String
  commit : String
  path : String
  confirmedAtMs : UInt64
deriving DecidableEq, Repr

/-- A stored Generation: the signed bytes, the signature, and local state. -/
structure GenerationRecord where
  schema : String
  generation : String
  payload : GenerationPayload
  signature : String
  state : GenerationState
  witness : Option WitnessEvidence
  admittedAtMs : UInt64
  invalidReason : Option String
deriving DecidableEq, Repr

/-- The name used in stored records and robot output. -/
def GenerationState.name : GenerationState → String
  | .pendingWitness => "pending_witness"
  | .current => "current"
  | .superseded => "superseded"
  | .quarantined => "quarantined"
  | .invalid => "invalid"

def GenerationState.parse (name : String) : Option GenerationState :=
  [GenerationState.pendingWitness, .current, .superseded, .quarantined, .invalid].find?
    (·.name == name)

instance : Deserialize GenerationState :=
  deserializeName GenerationState.name GenerationState.parse
    (by intro state; cases state <;> decide)

/-! ### Documents -/

namespace Member

def jsonMembers (member : Member) : List (String × Json) :=
  [("package_digest", toJson member.packageDigest), ("dossier_digest", toJson member.dossierDigest),
    ("review_depth", toJson member.reviewDepth), ("agents", toJson member.agents),
    ("relied_on", toJson member.reliedOn)]

/-- The field names, in declaration order. -/
def fields : List String :=
  ["package_digest", "dossier_digest", "review_depth", "agents", "relied_on"]

def ofJson (v : Json) : Option Member := do
  match ← v.struct true fields with
  | [packageDigest, dossierDigest, reviewDepth, agents, reliedOn] =>
    return {
      packageDigest := ← field packageDigest
      dossierDigest := ← field dossierDigest
      reviewDepth := ← field reviewDepth
      agents := ← field agents
      reliedOn := ← field reliedOn }
  | _ => failure

end Member

instance : Deserialize Member :=
  deserializeStruct Member.jsonMembers Member.ofJson 1 (fun member => by
      simp (disch := decide) [Member.jsonMembers, fits_toJson])
    (fun member => by
      rw [Member.ofJson, Json.struct_obj true Member.fields rfl (by decide)]
      simp [Member.jsonMembers])

namespace GenerationPayload

/-- The members always written. -/
def signedMembers (payload : GenerationPayload) : List (String × Json) :=
  [("schema", toJson payload.schema), ("trust_domain", toJson payload.trustDomain),
    ("sequence", toJson payload.sequence), ("predecessor", toJson payload.predecessor),
    ("signer_role", toJson payload.signerRole), ("policy_digest", toJson payload.policyDigest),
    ("member_root", toJson payload.memberRoot), ("members", toJson payload.members)]

/-- An absent operation is left out. -/
def jsonMembers (payload : GenerationPayload) : List (String × Json) :=
  payload.signedMembers ++
    match payload.approvalOperation with
    | none => []
    | some operation => [("approval_operation", toJson (some operation))]

/-- The names of the fields always written, in declaration order. -/
def signedFields : List String :=
  ["schema", "trust_domain", "sequence", "predecessor", "signer_role", "policy_digest",
    "member_root", "members"]

def ofJson (v : Json) : Option GenerationPayload := do
  match ← v.struct true (signedFields ++ ["approval_operation"]) with
  | [schema, trustDomain, sequence, predecessor, signerRole, policyDigest, memberRoot, members,
      approvalOperation] =>
    return {
      schema := ← field schema
      trustDomain := ← field trustDomain
      sequence := ← field sequence
      predecessor := ← field predecessor
      signerRole := ← field signerRole
      policyDigest := ← field policyDigest
      memberRoot := ← field memberRoot
      members := ← field members
      approvalOperation := ← field approvalOperation }
  | _ => failure

end GenerationPayload

instance : Deserialize GenerationPayload :=
  deserializeStruct GenerationPayload.jsonMembers GenerationPayload.ofJson 3 (fun payload => by
      cases h : payload.approvalOperation <;>
        simp (disch := decide) only [GenerationPayload.jsonMembers,
          GenerationPayload.signedMembers, h, List.cons_append, List.nil_append,
          fits_members_cons, fits_members_nil, fits_toJson, and_self])
    (fun payload => by
      obtain ⟨_, _, _, _, _, _, _, _, operation⟩ := payload
      cases operation with
      | none =>
        rw [GenerationPayload.ofJson, Json.struct_obj_append true
          GenerationPayload.signedFields ["approval_operation"] rfl (by decide)]
        simp [GenerationPayload.jsonMembers, GenerationPayload.signedMembers, field,
          Deserialize.missing]
      | some operation =>
        rw [GenerationPayload.ofJson, Json.struct_obj true
          (GenerationPayload.signedFields ++ ["approval_operation"]) rfl (by decide)]
        simp [GenerationPayload.jsonMembers, GenerationPayload.signedMembers])

namespace WitnessEvidence

def jsonMembers (evidence : WitnessEvidence) : List (String × Json) :=
  [("remote", toJson evidence.remote), ("branch", toJson evidence.branch),
    ("commit", toJson evidence.commit), ("path", toJson evidence.path),
    ("confirmed_at_ms", toJson evidence.confirmedAtMs)]

/-- The field names, in declaration order. -/
def fields : List String := ["remote", "branch", "commit", "path", "confirmed_at_ms"]

def ofJson (v : Json) : Option WitnessEvidence := do
  match ← v.struct false fields with
  | [remote, branch, commit, path, confirmedAtMs] =>
    return {
      remote := ← field remote
      branch := ← field branch
      commit := ← field commit
      path := ← field path
      confirmedAtMs := ← field confirmedAtMs }
  | _ => failure

end WitnessEvidence

instance : Deserialize WitnessEvidence :=
  deserializeStruct WitnessEvidence.jsonMembers WitnessEvidence.ofJson 0 (fun evidence => by
      simp (disch := decide) [WitnessEvidence.jsonMembers, fits_toJson])
    (fun evidence => by
      rw [WitnessEvidence.ofJson, Json.struct_obj false WitnessEvidence.fields rfl (by decide)]
      simp [WitnessEvidence.jsonMembers])

instance : NonNull WitnessEvidence where
  ne_null := fun _ h => nomatch h

namespace GenerationRecord

def jsonMembers (record : GenerationRecord) : List (String × Json) :=
  [("schema", toJson record.schema), ("generation", toJson record.generation),
    ("payload", toJson record.payload), ("signature", toJson record.signature),
    ("state", toJson record.state), ("witness", toJson record.witness),
    ("admitted_at_ms", toJson record.admittedAtMs), ("invalid_reason", toJson record.invalidReason)]

/-- The field names, in declaration order. -/
def fields : List String :=
  ["schema", "generation", "payload", "signature", "state", "witness", "admitted_at_ms",
    "invalid_reason"]

def ofJson (v : Json) : Option GenerationRecord := do
  match ← v.struct true fields with
  | [schema, generation, payload, signature, state, witness, admittedAtMs, invalidReason] =>
    return {
      schema := ← field schema
      generation := ← field generation
      payload := ← field payload
      signature := ← field signature
      state := ← field state
      witness := ← field witness
      admittedAtMs := ← field admittedAtMs
      invalidReason := ← field invalidReason }
  | _ => failure

end GenerationRecord

instance : Deserialize GenerationRecord :=
  deserializeStruct GenerationRecord.jsonMembers GenerationRecord.ofJson 4 (fun record => by
      simp (disch := decide) [GenerationRecord.jsonMembers, fits_toJson])
    (fun record => by
      rw [GenerationRecord.ofJson, Json.struct_obj true GenerationRecord.fields rfl (by decide)]
      simp [GenerationRecord.jsonMembers])

/-- The part of a record that is witnessed. -/
structure WitnessedGeneration where
  payload : GenerationPayload
  signature : String

instance : Serialize WitnessedGeneration where
  toJson w := .obj [("payload", toJson w.payload), ("signature", toJson w.signature)]
  depth := 5
  fits := fun w => by
    simp (disch := decide) [Json.fits_obj, fits_toJson]
  toJson_inj := by
    rintro ⟨⟩ ⟨⟩ h
    simpa using h

/-! ### Identities -/

section

variable (sha256 : Sha256) (fmt : JsonFormat)

/-- The root over a member list. -/
def memberRoot (members : List Member) : Digest := Digest.of sha256 (fmt.toVec members)

/-- The set of a member's Agents and Endorsements, sorted. -/
def Member.normalize (member : Member) : Member :=
  { member with
    agents := Text.sortedSet member.agents
    reliedOn := Text.sortedSet member.reliedOn }

namespace GenerationPayload

/-- Build a payload, normalizing membership and computing the set root. -/
def new (trustDomain : String) (sequence : UInt64) (predecessor : Option String)
    (policyDigest : String) (members : List Member) : GenerationPayload :=
  let members :=
    (members.insertionSort (·.packageDigest ≤ ·.packageDigest)).map Member.normalize
  { schema := generationSchema
    trustDomain, sequence, predecessor
    signerRole := "primary"
    policyDigest
    memberRoot := (Admission.memberRoot sha256 fmt members).toString
    members
    approvalOperation := none }

/-- The exact bytes that are signed. -/
def canonicalBytes (payload : GenerationPayload) : Bytes := fmt.toVec payload

/-- The Generation's identity. -/
def digest (payload : GenerationPayload) : Digest :=
  Digest.of sha256 (payload.canonicalBytes fmt)

/-- The set root of the members the payload actually lists. -/
def recomputedMemberRoot (payload : GenerationPayload) : Digest :=
  Admission.memberRoot sha256 fmt payload.members

/-- Every admitted package digest, in payload order. -/
def memberDigests (payload : GenerationPayload) : List String :=
  payload.members.map (·.packageDigest)

end GenerationPayload

namespace GenerationRecord

/-- The Generation's identity. -/
def digest (record : GenerationRecord) : Digest := record.payload.digest sha256 fmt

/-- The exact bytes a witness must hold: payload and signature only. -/
def witnessBytes (record : GenerationRecord) : Bytes :=
  fmt.toVec (WitnessedGeneration.mk record.payload record.signature)

end GenerationRecord

end
end Louiselm.Admission
