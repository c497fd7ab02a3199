import Louiselm.Admission.Store

/-!
# Enrolled signing roles

`skills-core/src/trust.rs`, with the paper phrases of `trust/paper.rs`, the persisted passkeys
of `trust/passkey.rs` and the files of `trust/persistence.rs`. The file of roles is held as the
store it decodes to. What `webauthn-rs` does and the JSON bytes of a store are parameters.
-/

namespace Louiselm.Trust
open Base Canonical
open Admission (Role)
open Endorsement (SkPolicy)

/-- The trust store schema this build reads and writes. -/
def trustSchema : String := "louiselm.skills.trust/4"

/-! ### Errors -/

/-- A trust operation that could not report success. -/
inductive TrustError where
  | busy
  | io
  | malformed (reason : String)
  | alreadyBootstrapped (trustDomain : String)
  | notBootstrapped
  | noKeyForRole (role : String)
  | doesNotApply (reason : String)
  | sequenceExhausted
  | provisionalOnly
  | store (reason : String)
deriving DecidableEq

/-- A refused recovery ceremony. -/
inductive RecoveryError where
  | passkey
  | unauthorized
  | confirmation
  | invalidChange (reason : String)
  | untrustedAuthority
  | trust (error : TrustError)
  | signature (reason : String)
deriving DecidableEq

/-! ### Keys -/

/-- Hardware attestation bytes recorded alongside an enrolled key. -/
structure Attestation where
  blob : String
  validated : Bool
deriving DecidableEq

/-- One enrolled key. -/
structure EnrolledKey where
  role : Role
  publicKey : String
  skPolicy : SkPolicy
  enrolledAtMs : UInt64
  enrolledBy : String
  attestation : Option Attestation
deriving DecidableEq

/-- Authenticator presence and verification are required of a hardware key. -/
def requirePresenceAndVerification : SkPolicy := ⟨true, true, true⟩

/-- The words of a text, split at white space. -/
def words (text : String) : List (List Char) :=
  (text.toList.splitOnP Text.isWhitespace).filter (!·.isEmpty)

/-- Algorithm and key of a public key, without its comment. -/
def normalize (publicKey : String) : String :=
  " ".intercalate (((words publicKey).take 2).map String.ofList)

/-! ### Passkeys and paper -/

/-- What `webauthn-rs` does with credentials, whose persisted form is a value `V`. Updating a
credential keeps its identifier, and what was persisted reads back. -/
structure Webauthn (V : Type) where
  Passkey : Type
  Assertion : Type
  fromValue : V → Option Passkey
  toValue : Passkey → V
  credId : Passkey → Bytes
  backupEligible : V → Option Bool
  backupState : V → Option Bool
  userVerified : Assertion → Bool
  updateCredential : Passkey → Assertion → Option Passkey
  fromValue_toValue : ∀ key, fromValue (toValue key) = some key
  credId_update : ∀ key assertion updated,
    updateCredential key assertion = some updated → credId updated = credId key

/-- The fixed local relying party. -/
def rpId : String := "localhost"

/-- Persisted public credential. -/
structure EnrolledPasskey (V : Type) where
  rpId : String
  userId : Bytes
  credential : V
deriving DecidableEq

namespace EnrolledPasskey

variable {V : Type} (w : Webauthn V) (sha256 : Sha256)

def key (passkey : EnrolledPasskey V) : Except RecoveryError w.Passkey := do
  require (passkey.rpId == Trust.rpId) .passkey
  match w.fromValue passkey.credential with
  | some key => .ok key
  | none => .error .passkey

def validate (passkey : EnrolledPasskey V) : Except RecoveryError Unit :=
  (passkey.key w).map fun _ => ()

/-- Public credential fingerprint for operator review and retirement checks. -/
def fingerprint (passkey : EnrolledPasskey V) : Except RecoveryError String :=
  (passkey.key w).map fun key => (Digest.of sha256 (w.credId key)).toString

/-- Whether the verified authenticator reports eligible and completed backup. -/
def backedUp (passkey : EnrolledPasskey V) : Except RecoveryError Bool := do
  passkey.validate w
  match w.backupEligible passkey.credential, w.backupState passkey.credential with
  | some eligible, some backedUp => .ok (eligible && backedUp)
  | _, _ => .error .passkey

end EnrolledPasskey

/-- A 256-bit paper secret. -/
structure PaperPhrase where
  entropy : Vector UInt8 32
deriving DecidableEq

/-- The domain-separated verifier of a paper secret. -/
def PaperPhrase.verifier (sha256 : Sha256) (phrase : PaperPhrase) (domain : String) : String :=
  (Digest.of sha256
    (utf8 "louiselm.paper-verifier/1\x00" ++ utf8 domain ++ [0] ++ phrase.entropy.toList)).toString

/-! ### The store -/

/-- The enrolled keys for one trust domain. -/
structure TrustStore (V : Type) where
  schema : String
  trustDomain : String
  sequence : UInt64
  keys : List EnrolledKey
  retired : List EnrolledKey
  approvedAdmissions : List String
  approvedReleases : List String
  paperVerifier : Option String
  retiredPaperVerifiers : List String
  passkey : Option (EnrolledPasskey V)
  retiredPasskeys : List String
deriving DecidableEq

/-- Add a text to a sorted set of texts. -/
def insert (text : String) (texts : List String) : List String := Text.sortedSet (text :: texts)

@[simp] theorem mem_insert {te o : String} {t : List String} :
    o ∈ insert te t ↔ o = te ∨ o ∈ t := by
  rw [insert, Text.mem_sortedSet, List.mem_cons]

/-- Whether a text parses as a digest. -/
def isDigest (text : String) : Bool := (Digest.parse text).isOk

namespace TrustStore

variable {V : Type} (w : Webauthn V) (sha256 : Sha256)

/-- The current passkey is valid and not a retired one. -/
def checkPasskey (trust : TrustStore V) : Except TrustError Unit :=
  match trust.passkey with
  | none => .ok ()
  | some passkey => do
    (passkey.validate w).mapError fun _ => .malformed "invalid passkey"
    let id ← (passkey.fingerprint w sha256).mapError fun _ => .malformed "invalid passkey"
    require (!trust.retiredPasskeys.contains id) (.malformed "retired passkey is current")

def validate (trust : TrustStore V) : Except TrustError Unit := do
  require (trust.schema == trustSchema) (.malformed "unsupported trust schema")
  require (!((trust.approvedAdmissions ++ trust.approvedReleases ++ trust.paperVerifier.toList ++
      trust.retiredPaperVerifiers).any (!isDigest ·) ||
      trust.paperVerifier.any (trust.retiredPaperVerifiers.contains ·)))
    (.malformed "invalid approval history or paper authority")
  require (!trust.retiredPasskeys.any (!isDigest ·)) (.malformed "invalid retired passkey")
  trust.checkPasskey w sha256
  require (decide (trust.keys.map (·.role.name)).Nodup)
    (.malformed "duplicate current signing role")

/-- The key enrolled for a role. -/
def keyFor (trust : TrustStore V) (role : Role) : Option EnrolledKey :=
  trust.keys.find? (·.role == role)

/-- Whether a role approved a digest. -/
def recorded (trust : TrustStore V) (role : Role) (digest : String) : Bool :=
  match role with
  | .primary => trust.approvedAdmissions.contains digest
  | .release => trust.approvedReleases.contains digest

/-- Keys that may verify this exact approved subject, newest first. -/
def verificationKeys (trust : TrustStore V) (role : Role) (digest : String) : List EnrolledKey :=
  (trust.keyFor role).toList ++
    (trust.retired.filter fun key => trust.recorded role digest && key.role == role).reverse

/-- The key that may sign a routine Skill Admission. -/
def admissionKey (trust : TrustStore V) : Except TrustError EnrolledKey :=
  match trust.keyFor .primary with
  | some key => .ok key
  | none => .error (.noKeyForRole "primary")

/-- The digest of the trust store's canonical bytes. -/
def digest (print : TrustStore V → Bytes) (trust : TrustStore V) : Digest :=
  Digest.of sha256 (print trust)

/-- The next trust-change sequence, without wrapping. -/
def nextSequence (trust : TrustStore V) : Except TrustError UInt64 :=
  if trust.sequence.toNat + 1 < 2 ^ 64 then .ok (trust.sequence + 1) else .error .sequenceExhausted

/-- The store that enrolls a provisional primary and release key. -/
def initial (trustDomain primary release : String) (skPolicy : SkPolicy) (enrolledAtMs : UInt64) :
    Except TrustError (TrustStore V) := do
  let primary := normalize primary
  let release := normalize release
  require (!(Text.isBlank trustDomain || primary == "" || release == "" || primary == release))
    (.doesNotApply "domain and distinct signing keys are required")
  let enrolled (role : Role) (publicKey : String) : EnrolledKey :=
    { role, publicKey, skPolicy, enrolledAtMs, enrolledBy := "bootstrap", attestation := none }
  return {
    schema := trustSchema
    trustDomain
    sequence := 0
    retired := []
    approvedAdmissions := []
    approvedReleases := []
    paperVerifier := none
    retiredPaperVerifiers := []
    passkey := none
    retiredPasskeys := []
    keys := [enrolled .primary primary, enrolled .release release] }

/-- Register a digest a role approved. -/
def approve (trust : TrustStore V) (role : Role) (digest : String) : TrustStore V :=
  match role with
  | .primary => { trust with approvedAdmissions := insert digest trust.approvedAdmissions }
  | .release => { trust with approvedReleases := insert digest trust.approvedReleases }

end TrustStore

/-! ### The file of roles -/

/-- How far publishing a staged file gets: to its durable name, to an error before or after it
is renamed, or to a crash, which leaves the file renamed or not. -/
inductive Publication where
  | published
  | refused (error : TrustError)
  | unsynced (error : TrustError)
  | crashed (renamed : Bool)
deriving DecidableEq

/-- `roles.json`, when it exists. -/
abbrev Roles (V : Type) := Option (TrustStore V)

namespace Roles

variable {V : Type} (w : Webauthn V) (sha256 : Sha256)

/-- Read and check the file. -/
def load (roles : Roles V) : Except TrustError (Option (TrustStore V)) :=
  match roles with
  | none => .ok none
  | some trust => (trust.validate w sha256).map fun _ => some trust

/-- Replace the file. A crash gives no result. -/
def write (publication : Publication) (trust : TrustStore V) (roles : Roles V) :
    Option (Except TrustError Unit) × Roles V :=
  match trust.validate w sha256 with
  | .error error => (some (.error error), roles)
  | .ok () =>
    match publication with
    | .published => (some (.ok ()), some trust)
    | .refused error => (some (.error error), roles)
    | .unsynced error => (some (.error error), some trust)
    | .crashed renamed => (none, if renamed then some trust else roles)

end Roles

end Louiselm.Trust
