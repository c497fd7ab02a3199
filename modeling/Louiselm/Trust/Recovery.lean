import Louiselm.Trust.Store

/-!
# Recovery changes

`skills-core/src/trust/recovery.rs`: a plan bound to one state of the trust store, the three
ways to authorize it, and the new state it gives; with the passkey approvals of
`trust/passkey.rs`, the initial enrollment of `trust/onboarding.rs` and the approvals that
`admission.rs` and `release.rs` record. Readings of the clock, the checks of the installed
tool, the lock and the outcome of a write are arguments.
-/

namespace Louiselm.Trust
open Base Canonical
open Admission (Role)
open Endorsement (SkPolicy SshsigVerify)

/-- Hardware authorization domain for recovery-method or signing-key changes. -/
def recoveryNamespace : String := "louiselm.skills.recovery-change/1"

/-- Replacement keys prove possession in a separate, non-approval namespace. -/
def possessionNamespace : String := "louiselm.skills.recovery-possession/1"

/-- Initial key-possession domain. -/
def setupNamespace : String := "louiselm.skills.recovery-setup/1"

/-- A replacement ordinary signing credential. -/
structure ReplacementKey where
  role : Role
  publicKey : String
deriving DecidableEq

/-- Public bytes reviewed by the operator and signed by replacement keys. -/
structure RecoveryChange (V : Type) where
  schema : String
  trustDomain : String
  sequence : UInt64
  predecessor : String
  replacements : List ReplacementKey
  nextVerifier : Option String
  nextPasskey : Option (EnrolledPasskey V)
deriving DecidableEq

/-- A new key's signature over the entire reviewed change. -/
structure ReplacementProof where
  role : Role
  signature : String

/-- The bytes stores, plans and setups serialize to. -/
structure Printer (V : Type) where
  trust : TrustStore V → Bytes
  change : RecoveryChange V → Bytes
  setup : TrustStore V → Bytes

/-- Verified registration candidate. -/
structure Registration (V : Type) where
  credential : EnrolledPasskey V
  predecessor : String
  deadline : Nat

/-- Verified, expiring exact-change approval. The updated credential has the identifier of the
one that approved. -/
structure Approval {V : Type} (w : Webauthn V) where
  change : Bytes
  credential : EnrolledPasskey V
  updated : EnrolledPasskey V
  deadline : Nat
  kept : (updated.key w).map w.credId = (credential.key w).map w.credId

/-- Authority for one exact recovery change. -/
inductive RecoveryAuthorization {V : Type} (w : Webauthn V) where
  | signingKey (role : Role) (signature : String)
  | phrase (phrase : PaperPhrase)
  | passkey (approval : Approval w)

/-- Confirmation of newly enrolled recovery methods. -/
structure RecoveryConfirmation (V : Type) where
  paper : Option PaperPhrase
  registration : Option (Registration V)

/-- When the clock is read: as a registration is checked, as an approval is, and before the
write. -/
structure Clock where
  registration : Nat
  approval : Nat
  publication : Nat

/-- What a call meets: where the store comes from, whether production is protected, the lock,
and how far the write gets. -/
structure Host where
  provenance : Except TrustError Bool
  production : Except RecoveryError Unit
  lock : Except TrustError Unit
  read : Except TrustError Unit
  publication : Publication

section

variable {V : Type} [DecidableEq V] (w : Webauthn V) (sha256 : Sha256) (printer : Printer V)

/-- A registration is fresh and for this change. -/
def Registration.check (registration : Registration V) (now : Nat) (change : RecoveryChange V) :
    Except RecoveryError Unit :=
  require (now < registration.deadline && registration.predecessor == change.predecessor &&
    change.nextPasskey == some registration.credential) .passkey

namespace RecoveryChange

/-- A replacement key is new here, normalized, and distinct from the ones before it. -/
def checkReplacements (trust : TrustStore V) (roles : List Role) (keys : List String) :
    List ReplacementKey → Except RecoveryError Unit
  | [] => .ok ()
  | replacement :: replacements => do
    require (!(roles.contains replacement.role || keys.contains replacement.publicKey ||
        replacement.publicKey == "" || replacement.publicKey != normalize replacement.publicKey ||
        (trust.keys ++ trust.retired).any (·.publicKey == replacement.publicKey)))
      (.invalidChange "replacement keys must be new, distinct ordinary-role keys")
    checkReplacements trust (replacement.role :: roles) (replacement.publicKey :: keys) replacements

/-- A new passkey is valid, and neither retired nor the current one. -/
def checkPasskey (trust : TrustStore V) (next : EnrolledPasskey V) : Except RecoveryError Unit := do
  next.validate w
  let id ← next.fingerprint w sha256
  if trust.retiredPasskeys.contains id then .error .passkey
  else
    match trust.passkey with
    | none => .ok ()
    | some current => do
      let currentId ← current.fingerprint w sha256
      require (currentId != id) .passkey

/-- A plan applies to a state. -/
def validate (trust : TrustStore V) (change : RecoveryChange V) : Except RecoveryError Unit := do
  let stale := RecoveryError.invalidChange "plan is malformed or stale; review a new plan"
  require (change.schema == recoveryNamespace && change.trustDomain == trust.trustDomain) stale
  let sequence ← trust.nextSequence.mapError .trust
  require (change.sequence == sequence &&
    change.predecessor == (trust.digest sha256 printer.trust).toString) stale
  require (!(change.replacements.isEmpty && change.nextVerifier.isNone &&
      change.nextPasskey.isNone)) (.invalidChange "empty recovery change")
  require (!change.nextVerifier.any (!isDigest ·)) (.invalidChange "invalid replacement verifier")
  require (!change.nextVerifier.any fun next =>
      trust.paperVerifier == some next || trust.retiredPaperVerifiers.contains next)
    (.invalidChange "a paper phrase must never be reused")
  (match change.nextPasskey with
    | none => .ok ()
    | some next => checkPasskey w sha256 trust next)
  checkReplacements trust [] [] change.replacements

/-- Build a plan of replacement keys and paper. -/
def new (trust : TrustStore V) (replacements : List ReplacementKey) (next : Option PaperPhrase) :
    Except RecoveryError (RecoveryChange V) := do
  let normalized := replacements.map fun replacement =>
    { replacement with publicKey := normalize replacement.publicKey }
  let sequence ← trust.nextSequence.mapError .trust
  let change : RecoveryChange V :=
    { schema := recoveryNamespace
      trustDomain := trust.trustDomain
      sequence
      predecessor := (trust.digest sha256 printer.trust).toString
      replacements := normalized.insertionSort fun a b => a.role.name ≤ b.role.name
      nextVerifier := next.map (·.verifier sha256 trust.trustDomain)
      nextPasskey := none }
  change.validate w sha256 printer trust
  return change

/-- Build a plan that enrolls or replaces the passkey. -/
def enrollPasskey (trust : TrustStore V) (registration : Registration V) (now : Nat) :
    Except RecoveryError (RecoveryChange V) := do
  let sequence ← trust.nextSequence.mapError .trust
  let change : RecoveryChange V :=
    { schema := recoveryNamespace
      trustDomain := trust.trustDomain
      sequence
      predecessor := (trust.digest sha256 printer.trust).toString
      replacements := []
      nextVerifier := none
      nextPasskey := some registration.credential }
  registration.check now change
  change.validate w sha256 printer trust
  return change

end RecoveryChange

/-! ### Passkey approvals -/

/-- One-use authentication challenge bound to an exact change. -/
structure PendingAuthentication (V : Type) where
  live : Bool
  change : Bytes
  credential : EnrolledPasskey V
  deadline : Nat

variable {w} in
private theorem key_updated {credential : EnrolledPasskey V} {key u : w.Passkey} {a : w.Assertion}
    (hk : credential.key w = .ok key) (hu : w.updateCredential key a = some u) :
    (EnrolledPasskey.key w { credential with credential := w.toValue u }).map w.credId =
      (credential.key w).map w.credId := by
  have hr : (credential.rpId == rpId) = true := by
    unfold EnrolledPasskey.key at hk
    simp only [check_ok, require_ok] at hk
    exact hk.1
  rw [hk]
  simp only [EnrolledPasskey.key, hr, require, w.fromValue_toValue, if_true, ok_bind]
  exact congrArg Except.ok (w.credId_update key a u hu)

namespace PendingAuthentication

/-- Issue a challenge for the current passkey. -/
def start (trust : TrustStore V) (change : RecoveryChange V) (deadline : Nat) :
    Except RecoveryError (PendingAuthentication V) := do
  change.validate w sha256 printer trust
  match trust.passkey with
  | none => .error .passkey
  | some credential => do
    let _ ← credential.key w
    return { live := true, change := printer.change change, credential, deadline }

/-- Verify an assertion. The user the response names, if any, and what the verifier finds are
arguments. -/
def verify (pending : PendingAuthentication V) (now : Nat) (user : Option Bytes)
    (verified : Option w.Assertion) : Except RecoveryError (Approval w) :=
  if !pending.live || decide (pending.deadline ≤ now) ||
      user.any (· != pending.credential.userId) then .error .passkey
  else
    match verified with
    | none => .error .passkey
    | some assertion =>
      if !w.userVerified assertion then .error .passkey
      else
        match hkey : pending.credential.key w with
        | .error error => .error error
        | .ok key =>
          match hupdate : w.updateCredential key assertion with
          | none => .error .passkey
          | some updated => .ok
              { change := pending.change
                credential := pending.credential
                updated := { pending.credential with credential := w.toValue updated }
                deadline := pending.deadline
                kept := key_updated hkey hupdate }

/-- Consume this attempt, whatever the response. -/
def finish (pending : PendingAuthentication V) (now : Nat) (user : Option Bytes)
    (verified : Option w.Assertion) : Except RecoveryError (Approval w) × PendingAuthentication V :=
  (pending.verify w now user verified, { pending with live := false })

end PendingAuthentication

variable {w} in
/-- An approval authorizes the change it was given for, on the credential that gave it. -/
def Approval.authorize (approval : Approval w) (now : Nat) (trust : TrustStore V)
    (change : RecoveryChange V) : Except RecoveryError (EnrolledPasskey V) := do
  require (now < approval.deadline && approval.change == printer.change change &&
    trust.passkey == some approval.credential) .passkey
  return approval.updated

end

/-! ### Authorization and possession -/

section

variable {V : Type} [DecidableEq V] {w : Webauthn V} (sha256 : Sha256) (printer : Printer V)
  (sshsig : SshsigVerify)

/-- Authorize a change, with the passkey an assertion updates. -/
def authorize (trust : TrustStore V) (change : RecoveryChange V) (now : Nat) :
    RecoveryAuthorization w → Except RecoveryError (Option (EnrolledPasskey V))
  | .passkey approval => (approval.authorize printer now trust change).map some
  | .phrase phrase => do
    require (change.nextVerifier.isSome &&
      trust.paperVerifier == some (phrase.verifier sha256 trust.trustDomain)) .unauthorized
    return none
  | .signingKey role signature =>
    match trust.keyFor role with
    | none => .error .unauthorized
    | some key => do
      (sshsig signature recoveryNamespace (printer.change change) key.publicKey
        key.skPolicy).mapError .signature
      return none

/-- A replacement inherits the policy of the key it replaces. -/
def replacementPolicy (trust : TrustStore V) (role : Role) : SkPolicy :=
  ((trust.keyFor role).map (·.skPolicy)).getD requirePresenceAndVerification

/-- Each replacement key signs the change. -/
def verifyPossession (trust : TrustStore V) (change : RecoveryChange V)
    (proofs : List ReplacementProof) : Except RecoveryError Unit := do
  require (proofs.length == change.replacements.length)
    (.invalidChange "one possession proof is required per replacement")
  change.replacements.forM fun replacement =>
    match proofs.filter (·.role == replacement.role) with
    | [proof] =>
      (sshsig proof.signature possessionNamespace (printer.change change) replacement.publicKey
        (replacementPolicy trust replacement.role)).mapError .signature
    | _ => .error (.invalidChange "duplicate or missing possession proof")

/-- Both signing keys are hardware keys that require presence and verification. -/
def requireHardwarePolicy (trust : TrustStore V) : Except RecoveryError Unit := do
  let primary ← trust.admissionKey.mapError .trust
  match trust.keyFor .release with
  | none => .error .untrustedAuthority
  | some release =>
    require (primary.skPolicy == requirePresenceAndVerification &&
      release.skPolicy == requirePresenceAndVerification &&
      release.publicKey != primary.publicKey) .untrustedAuthority

end

/-! ### The new state -/

namespace TrustStore

variable {V : Type} (w : Webauthn V) (sha256 : Sha256)

/-- Retire the keys of a role and enroll its replacement. -/
def replaceKey (atMs : UInt64) (trust : TrustStore V) (replacement : ReplacementKey) :
    TrustStore V :=
  { trust with
    retired := trust.retired ++ trust.keys.filter (·.role == replacement.role)
    keys := trust.keys.filter (·.role != replacement.role) ++
      [{ role := replacement.role
         publicKey := replacement.publicKey
         skPolicy := replacementPolicy trust replacement.role
         enrolledAtMs := atMs
         enrolledBy := "recovery-change"
         attestation := none }] }

/-- Replace the paper verifier, when a change has a new one. -/
def replacePaper (trust : TrustStore V) (next : Option String) : TrustStore V :=
  match next with
  | none => trust
  | some verifier =>
    { trust with
      paperVerifier := some verifier
      retiredPaperVerifiers := trust.paperVerifier.elim trust.retiredPaperVerifiers
        (insert · trust.retiredPaperVerifiers) }

/-- Replace the passkey, or keep what an assertion updated of it. -/
def replacePasskey (trust : TrustStore V) (next updated : Option (EnrolledPasskey V)) :
    Except RecoveryError (TrustStore V) :=
  match next with
  | some passkey =>
    match trust.passkey with
    | none => .ok { trust with passkey := some passkey }
    | some previous => do
      let id ← previous.fingerprint w sha256
      return { trust with
        passkey := some passkey
        retiredPasskeys := insert id trust.retiredPasskeys }
  | none =>
    match updated with
    | some passkey => .ok { trust with passkey := some passkey }
    | none => .ok trust

/-- Put the keys in the order of their roles, and number the state. -/
def numbered (trust : TrustStore V) (sequence : UInt64) : TrustStore V :=
  { trust with
    keys := trust.keys.insertionSort fun a b => a.role.name ≤ b.role.name
    sequence }

end TrustStore

/-! ### Calls -/

section

variable {V : Type} [DecidableEq V] {w : Webauthn V} (sha256 : Sha256) (printer : Printer V)
  (sshsig : SshsigVerify)

/-- The deadline of a call: that of its approval or registration, whichever is first. -/
def deadline (authorization : RecoveryAuthorization w) (confirmation : RecoveryConfirmation V) :
    Option Nat :=
  let approved := match authorization with
    | .passkey approval => some approval.deadline
    | _ => none
  (approved.toList ++ (confirmation.registration.map (·.deadline)).toList).min?

/-- The confirmation is the one a change needs. -/
def RecoveryConfirmation.check (confirmation : RecoveryConfirmation V) (now : Nat)
    (trust : TrustStore V) (change : RecoveryChange V) : Except RecoveryError Unit := do
  require (confirmation.paper.map (·.verifier sha256 trust.trustDomain) == change.nextVerifier)
    .confirmation
  match change.nextPasskey, confirmation.registration with
  | some _, some registration => registration.check now change
  | none, none => .ok ()
  | _, _ => .error .passkey

/-- What a caller hands to `apply`. -/
structure Call (w : Webauthn V) where
  change : RecoveryChange V
  authorization : RecoveryAuthorization w
  proofs : List ReplacementProof
  confirmation : RecoveryConfirmation V
  atMs : UInt64
  clock : Clock

/-- The state a call makes of the loaded one, as it is about to be written. -/
def Call.revise (call : Call w) (production : Bool) (trust : TrustStore V) :
    Except RecoveryError (TrustStore V) := do
  call.change.validate w sha256 printer trust
  (if production then requireHardwarePolicy trust else .ok ())
  call.confirmation.check sha256 call.clock.registration trust call.change
  let updated ← authorize sha256 printer sshsig trust call.change call.clock.approval
    call.authorization
  verifyPossession printer sshsig trust call.change call.proofs
  let keyed := call.change.replacements.foldl (TrustStore.replaceKey call.atMs) trust
  let revised ← (keyed.replacePaper call.change.nextVerifier).replacePasskey w sha256
    call.change.nextPasskey updated
  require (!(deadline call.authorization call.confirmation).any
    fun deadline => decide (deadline ≤ call.clock.publication)) .passkey
  return revised.numbered call.change.sequence

/-- A result, none of a call that crashed, and the file it leaves. -/
abbrev Outcome (V α : Type) := Option (Except RecoveryError α) × Roles V

/-- Write what a call prepared, and give it back. -/
def publish (w : Webauthn V) (publication : Publication)
    (prepared : Except RecoveryError (TrustStore V)) (roles : Roles V) : Outcome V (TrustStore V) :=
  match prepared with
  | .error error => (some (.error error), roles)
  | .ok trust =>
    let written := roles.write w sha256 publication trust
    (written.1.map fun result => (result.mapError .trust).map fun _ => trust, written.2)

/-- Take the lock and read the file under it. -/
def Host.locked (w : Webauthn V) (host : Host) (roles : Roles V) :
    Except RecoveryError (Option (TrustStore V)) := do
  host.lock.mapError .trust
  host.read.mapError .trust
  (roles.load w sha256).mapError .trust

/-- Take the lock and read the enrolled keys. -/
def Host.enrolled (w : Webauthn V) (host : Host) (roles : Roles V) :
    Except RecoveryError (TrustStore V) := do
  match ← host.locked sha256 w roles with
  | none => .error (.trust .notBootstrapped)
  | some trust => .ok trust

/-- Take the lock of a store without enrolled keys. -/
def Host.vacant (w : Webauthn V) (host : Host) (trustDomain : String) (roles : Roles V) :
    Except RecoveryError Unit := do
  match ← host.locked sha256 w roles with
  | none => .ok ()
  | some _ => .error (.trust (.alreadyBootstrapped trustDomain))

/-- What a call is about to write, once every check has passed. -/
def Call.prepare (call : Call w) (host : Host) (roles : Roles V) :
    Except RecoveryError (TrustStore V) := do
  let production ← host.provenance.mapError .trust
  (if production then host.production else .ok ())
  let trust ← host.enrolled sha256 w roles
  call.revise sha256 printer sshsig production trust

/-- Apply a fully confirmed recovery change. -/
def Call.apply (call : Call w) (host : Host) (roles : Roles V) : Outcome V (TrustStore V) :=
  publish sha256 w host.publication (call.prepare sha256 printer sshsig host roles) roles

/-- Register a digest a role approved, once its signature is verified. -/
def approve (w : Webauthn V) (role : Role) (digest : String) (host : Host) (roles : Roles V) :
    Outcome V (TrustStore V) :=
  publish sha256 w host.publication
    ((host.enrolled sha256 w roles).map (·.approve role digest)) roles

/-! ### Enrollment -/

/-- Enroll provisional keys in a development store. -/
def bootstrap (w : Webauthn V) (trustDomain primary release : String) (skPolicy : SkPolicy)
    (atMs : UInt64) (host : Host) (roles : Roles V) : Outcome V (TrustStore V) :=
  let prepared : Except RecoveryError (TrustStore V) := do
    let production ← host.provenance.mapError .trust
    require (!production) (.trust .provisionalOnly)
    host.vacant sha256 w trustDomain roles
    (TrustStore.initial trustDomain primary release skPolicy atMs).mapError .trust
  publish sha256 w host.publication prepared roles

/-- In-memory candidate of an installed enrollment. -/
structure PendingSetup (V : Type) where
  trust : TrustStore V

namespace PendingSetup

/-- Prepare distinct signing roles. The random identifier of the ceremony is an argument. -/
def new (trustDomain primary release : String) (skPolicy : SkPolicy) (atMs : UInt64)
    (ceremony : String) : Except RecoveryError (PendingSetup V) := do
  let trust : TrustStore V ←
    (TrustStore.initial trustDomain primary release skPolicy atMs).mapError .trust
  return ⟨{ trust with
    keys := trust.keys.map fun key => { key with enrolledBy := "setup/" ++ ceremony } }⟩

/-- The enrollment with its paper and its passkey. -/
def confirmed (w : Webauthn V) (setup : PendingSetup V) (paper : PaperPhrase)
    (registration : Registration V) (now : Nat) : Except RecoveryError (TrustStore V) := do
  let _ ← RecoveryChange.enrollPasskey w sha256 printer setup.trust registration now
  let backedUp ← registration.credential.backedUp w
  require backedUp (.invalidChange "setup requires a backed-up recovery passkey")
  return { setup.trust with
    paperVerifier := some (paper.verifier sha256 setup.trust.trustDomain)
    passkey := some registration.credential }

/-- The key of a role signs the setup, once. -/
def checkProof (trust : TrustStore V) (proofs : List ReplacementProof) (role : Role) :
    Except RecoveryError Unit :=
  match proofs.filter (·.role == role), trust.keyFor role with
  | [proof], some key =>
    (sshsig proof.signature setupNamespace (printer.setup trust) key.publicKey
      key.skPolicy).mapError .signature
  | _, _ => .error .unauthorized

/-- Publish both methods and keys at once. The registration is checked before and after the
proofs are. -/
def apply (w : Webauthn V) (setup : PendingSetup V) (paper : PaperPhrase)
    (registration : Registration V) (proofs : List ReplacementProof) (clock : Clock) (host : Host)
    (roles : Roles V) : Outcome V (TrustStore V) :=
  let prepared : Except RecoveryError (TrustStore V) := do
    let production ← host.provenance.mapError .trust
    (if production then host.production else .ok ())
    (if production then requireHardwarePolicy setup.trust else .ok ())
    host.vacant sha256 w setup.trust.trustDomain roles
    let trust ← setup.confirmed sha256 printer w paper registration clock.registration
    require (proofs.length == 2) (.invalidChange "setup requires both signing-key proofs")
    checkProof printer sshsig trust proofs .primary
    checkProof printer sshsig trust proofs .release
    let _ ← setup.confirmed sha256 printer w paper registration clock.publication
    return trust
  publish sha256 w host.publication prepared roles

end PendingSetup

end

end Louiselm.Trust
