import Louiselm.Endorsement.Record

/-!
# Local trust in endorsers

`skills-core/src/endorsement/trust.rs`: the effective endorser set and its decision about one
record at one time. The layers are taken as they load.
-/

namespace Louiselm.Endorsement
open Base Canonical

/-- The longest validity window any endorser entry may accept: 180 days. -/
def maxLifetimeMs : UInt64 := 180 * 24 * 60 * 60 * 1000

/-- Local trust in one endorser key. -/
structure EndorserEntry where
  label : String
  maxLifetimeMs : UInt64
  publicKey : String
  roles : List EndorserRole
  skPolicy : SkPolicy
deriving DecidableEq

/-- Why endorser layers could not be combined. -/
inductive EndorserError where
  | invalid (field reason : String)
  | duplicate (key : String)
deriving DecidableEq

def EndorserError.text : EndorserError → String
  | .invalid field reason => "invalid endorser entry field " ++ field ++ ": " ++ reason
  | .duplicate key => "endorser key listed twice in one layer: " ++ key

namespace EndorserEntry

def validate (entry : EndorserEntry) : Except EndorserError Unit := do
  require (validPublicKey entry.publicKey)
    (.invalid "public_key" "must be '<algorithm> <base64>' with no comment")
  require (!entry.roles.isEmpty) (.invalid "roles" "must trust at least one role")
  require (validText entry.label) (.invalid "label" "must be one non-empty printable line")
  require (entry.maxLifetimeMs != 0 && entry.maxLifetimeMs ≤ Endorsement.maxLifetimeMs)
    (.invalid "max_lifetime_ms" "must be between 1 ms and 180 days")

/-- Each entry of a layer is valid and its key is new; `seen` are the keys before it. -/
def checkLayer (seen : List String) : List EndorserEntry → Except EndorserError Unit
  | [] => .ok ()
  | entry :: entries => do
    entry.validate
    require (decide (entry.publicKey ∉ seen)) (.duplicate entry.publicKey)
    checkLayer (entry.publicKey :: seen) entries

end EndorserEntry

/-- The default endorsers compiled into this build. -/
def embeddedDefaults : List EndorserEntry :=
  [{ label := "LouiseLM publisher"
     maxLifetimeMs := 15552000000
     publicKey := "sk-ssh-ed25519@openssh.com AAAAGnNrLXNzaC1lZDI1NTE5QG9wZW5zc2guY29tAAAAIOIQYUGXs" ++
       "QeLgJJ15D0I14Z1SthIv/vsztEBCQVqsjG8AAAABHNzaDo="
     roles := [.publisher]
     skPolicy := ⟨true, true, true⟩ }]

/-- The verified local layer, with the keys of the additions that failed verification. -/
structure LocalLayer where
  additions : List EndorserEntry
  removals : List String
  dropped : List String
deriving DecidableEq

/-- The effective endorser set after combining layers. -/
structure EndorserSet where
  entries : List EndorserEntry
deriving DecidableEq

/-- Why a verified-format record may not focus review here. -/
inductive Distrust where
  | unknownSigner
  | roleNotAllowed (role : EndorserRole)
  | lifetimeExceedsCap (lifetimeMs capMs : UInt64)
  | refused (error : EndorsementError)
deriving DecidableEq

/-- The local trust decision for one record at one time. -/
inductive TrustDecision where
  | trusted (label : String)
  | untrusted (reason : Distrust)
deriving DecidableEq

def Subject.packageDigest : Subject → Digest
  | .endorsed package => package.packageDigest
  | .withdrawn digest => digest

/-- Whether a record is about a package. -/
def Record.covers (record : Record) (package : Digest) : Bool :=
  record.subject.packageDigest == package

/-- Digest of the record bytes, its storage name. -/
def Record.digest (sha256 : Sha256) (record : Record) : Digest := Digest.of sha256 record.bytes

/-- Whether a record withdraws. -/
def Record.withdraws (record : Record) : Bool := record.kind == .withdrawal

namespace EndorserSet

/-- Release defaults and signed local additions, minus removals. An addition replaces the
default of its key. -/
def effective (defaults additions : List EndorserEntry) (removals : List String) :
    Except EndorserError EndorserSet := do
  EndorserEntry.checkLayer [] defaults
  EndorserEntry.checkLayer [] additions
  let replaced := additions.map (·.publicKey)
  let layers := (defaults.filter (·.publicKey ∉ replaced)) ++ additions
  return ⟨layers.filter (·.publicKey ∉ removals)⟩

/-- The entry that holds a key. -/
def find (endorsers : EndorserSet) (key : String) : Option EndorserEntry :=
  endorsers.entries.find? (·.publicKey == key)

variable (sha256 : Sha256) (sshsig : SshsigVerify)

/-- Whether a record may focus review at `nowMs`. Local policy is checked before the proof and
the signature, and the signature under the entry's own policy. -/
def decide (endorsers : EndorserSet) (record : Record) (nowMs : UInt64) : TrustDecision :=
  let signing := record.signing
  match endorsers.find signing.signerKey with
  | none => .untrusted .unknownSigner
  | some entry =>
    if signing.signerRole ∉ entry.roles then .untrusted (.roleNotAllowed signing.signerRole)
    else
      -- The source saturates the difference.
      let lifetimeMs := UInt64.ofNat (signing.expiresAtMs.toNat - signing.issuedAtMs.toNat)
      if entry.maxLifetimeMs < lifetimeMs then
        .untrusted (.lifetimeExceedsCap lifetimeMs entry.maxLifetimeMs)
      else
        match record.verify sha256 sshsig nowMs entry.skPolicy with
        | .ok _ => .trusted entry.label
        | .error error => .untrusted (.refused error)

variable {sha256 sshsig}

/-- What verifies at a time has not expired at it. -/
theorem verify_expires {r : Record} {ms : UInt64} {sp : SkPolicy} {s : Subject}
    (h : r.verify sha256 sshsig ms sp = .ok s) : ms < r.signing.expiresAtMs := by
  simp only [Record.verify, bind_ok, require_ok, decide_eq_true_eq] at h
  obtain ⟨_, _, _, _, _, he, _⟩ := h
  exact he

/-- A trusted record has not expired. -/
theorem decide_trusted {e : EndorserSet} {r : Record} {ms : UInt64} {l : String}
    (h : e.decide sha256 sshsig r ms = .trusted l) : ms < r.signing.expiresAtMs := by
  unfold decide at h
  dsimp only at h
  split at h
  · contradiction
  · split at h
    · contradiction
    · split at h
      · contradiction
      · split at h
        · next hv => exact verify_expires hv
        · contradiction

end EndorserSet
end Louiselm.Endorsement
