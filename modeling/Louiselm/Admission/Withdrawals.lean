import Std.Data.ExtTreeMap
import Louiselm.Admission.Ceremony
import Louiselm.Endorsement.Alerts

/-!
# Supply evidence for withdrawal alerts

`skills-core/src/admission/withdrawals.rs`: the alerts about the current Generation and the ones
that running Sessions retain, from evidence that is complete and verified. The files are read
under the trust lock, and the endorser layers are taken as they load.
-/

namespace Louiselm.Admission
open Base Canonical
open Endorsement

/-- What the projection reads. -/
structure SupplyFiles where
  store : Store
  endorsements : Directory
  layer : Except String LocalLayer

/-- The Agents whose running Sessions retain a Generation. -/
abbrev Retained := Std.ExtTreeMap String (List String)

/-- What one projection settles before it looks at a member's evidence. -/
structure Projection where
  trust : TrustStore
  endorsers : EndorserSet
  quarantine : Option Quarantine
  current : Option GenerationRecord
  generations : List GenerationRecord

/-- Largest stored record that the scan for the current Generation reads. -/
def maxScanBytes : Nat := 1024 * 1024

section

variable (sha256 : Sha256) (fmt : JsonFormat) (sshsig : SshsigVerify) (listing : Listing)
  (embeddedPolicy : Digest)

/-! ### Evidence -/

def effectiveEndorsers (layer : LocalLayer) : Except AdmissionError EndorserSet :=
  (EndorserSet.effective embeddedDefaults layer.additions layer.removals).mapError
    fun error => .focus error.text

/-- The endorsers and every stored record, all of which must be readable and verify. -/
def verifiedEndorsements (files : SupplyFiles) :
    Except AdmissionError (EndorserSet × List Record) := do
  let layer ← files.layer.mapError .focus
  let endorsers ← effectiveEndorsers layer
  require layer.dropped.isEmpty (.chain "unverified local Endorser evidence")
  let stored := files.endorsements.records sha256 fmt
  require stored.unreadable.isEmpty (.chain "unreadable Endorsement evidence")
  stored.records.forM fun record =>
    require (record.verifySignature sha256 sshsig .none).isOk
      (.chain "unverified Endorsement evidence")
  return (endorsers, stored.records)

/-- Evidence of a kind under a displayed digest. -/
def requireEvidence (evidence : List Record) (kind : StatementKind) (reason digest : String) :
    Except AdmissionError Unit :=
  require (((byDigest sha256 evidence digest).map (·.kind)) == some kind) (.chain reason)

/-! ### Generations -/

/-- What a scan for the current Generation has found so far. -/
structure CurrentScan where
  current : Option GenerationRecord
  superseded : Bool
  seen : List String

def CurrentScan.next (scan : CurrentScan) (entry : (Digest × Bytes) × Nat) :
    Except AdmissionError CurrentScan := do
  require (decide (entry.2 < maxScan)) (.chain "Generation scan bound exceeded")
  require (decide (entry.1.2.length ≤ maxScanBytes)) (.chain "Generation record bound exceeded")
  match (fmt.fromSlice entry.1.2 : Option GenerationRecord) with
  | none => .error .malformedJson
  | some record => do
    let digest ← (Digest.parse record.generation).mapError .digest
    require (digest == entry.1.1) (.chain "Generation identity mismatch")
    let scan := { scan with seen := record.generation :: scan.seen }
    match record.state with
    | .current =>
      if scan.current.isNone then return { scan with current := some record }
      else .error (.chain "ambiguous current Generation")
    | .quarantined => .error (.chain "ambiguous current Generation")
    | .superseded => return { scan with superseded := true }
    | .pendingWitness | .invalid => return scan

/-- The Generation in force, which must be there once any was approved. -/
def currentGeneration (store : Store) (approved : List String) :
    Except AdmissionError (Option GenerationRecord) := do
  let scan ← (listing.order store.records).zipIdx.foldlM (CurrentScan.next fmt) ⟨none, false, []⟩
  require (approved.all (· ∈ scan.seen) &&
      !(scan.current.isNone && (scan.superseded || !approved.isEmpty)))
    (.chain "current Generation is missing")
  return scan.current

/-- The Generations that Sessions retain, with the current one, ordered by identity. -/
def projectedGenerations (store : Store) (retained : Retained)
    (current : Option GenerationRecord) : Except AdmissionError (List GenerationRecord) := do
  let loaded ← retained.keys.foldlM (fun (generations : Std.ExtTreeMap String GenerationRecord)
      generation => do
    let digest ← (Digest.parse generation).mapError .digest
    let record ← loadRecord fmt store digest
    return generations.insert generation record) ∅
  return (match current with
    | none => loaded
    | some record => loaded.insert record.generation record).toList.map Prod.snd

/-- What a program that nothing interrupts yields. -/
def uninterrupted {α : Type} (action : Action α) (store : Store) : Except AdmissionError α :=
  match (action [] store).1 with
  | .value a => .ok a
  | .error error => .error error
  | .crashed => .error (.io .root)

/-- A witnessed, approved Generation under the current policy, in force or superseded. -/
def verifyUsable (store : Store) (trust : TrustStore) (record : GenerationRecord) :
    Except AdmissionError Unit := do
  uninterrupted (verifyRecord sha256 fmt sshsig record trust) store
  require (record.schema == recordSchema && record.witness.isSome &&
      trust.approvedAdmissions.contains record.generation &&
      record.payload.policyDigest == embeddedPolicy.toString &&
      (record.state == .current || record.state == .superseded)) (.chain "Admission is not usable")

/-! ### Alerts -/

/-- The package digests of a Generation that are projected and in force. -/
def Projection.effective (p : Projection) (retained : Retained) (record : GenerationRecord) :
    List String :=
  let members := (record.payload.members.filter fun member =>
    p.current.map (·.generation) == some record.generation ||
      (retained[record.generation]?).any fun agents => member.agents.any (· ∈ agents)).map
        (·.packageDigest)
  (Quarantine.partition p.quarantine record.generation members).1

/-- Keep one alert for each member and withdrawal, ordered by them; relied-on wins. -/
def observe (alert : WithdrawalAlert) : List WithdrawalAlert → List WithdrawalAlert
  | [] => [alert]
  | first :: rest =>
    match (compare alert.member first.member).then (compare alert.withdrawal first.withdrawal) with
    | .lt => alert :: first :: rest
    | .eq => (if alert.urgency = .reliedOn then alert else first) :: rest
    | .gt => first :: observe alert rest

/-- The alerts of one more Generation, whose relied-on Endorsements must all be stored. -/
def Projection.project (p : Projection) (store : Store) (retained : Retained)
    (evidence : List Record) (observed : List WithdrawalAlert) (record : GenerationRecord) :
    Except AdmissionError (List WithdrawalAlert) := do
  verifyUsable sha256 fmt sshsig embeddedPolicy store p.trust record
  let effective := p.effective retained record
  (effectiveMembers record effective).forM fun member =>
    member.reliedOn.forM
      (requireEvidence sha256 evidence .endorsement "relied-on Endorsement evidence is missing")
  return (fromRecords sha256 record effective p.endorsers evidence).foldl
    (fun observed alert => observe alert observed) observed

/-- Broker metadata names a key without a trusted label by its fingerprint. -/
def relabel (endorsers : EndorserSet) (evidence : List Record) (alert : WithdrawalAlert) :
    Except AdmissionError WithdrawalAlert :=
  match byDigest sha256 evidence alert.withdrawal with
  | none => .error (.chain "withdrawal evidence is missing")
  | some withdrawal =>
    let key := withdrawal.signing.signerKey
    .ok { alert with
      endorser := ((endorsers.find key).map (·.label)).getD (Digest.of sha256 (utf8 key)).toString }

/-- The withdrawal alerts about current and retained supply. -/
def supplyWithdrawalAlerts (files : SupplyFiles) (domain : String) (expected : List String)
    (retained : Retained) : Except AdmissionError (List WithdrawalAlert) := do
  require (files.store.contents .journal).isNone (.chain "activation recovery required")
  match files.store.trust with
  | none => .error (.trust .notBootstrapped)
  | some trust => do
    require (trust.trustDomain == domain) (.chain "Admission trust domain mismatch")
    let (endorsers, evidence) ← verifiedEndorsements sha256 fmt sshsig files
    expected.forM (requireEvidence sha256 evidence .withdrawal
      "previously observed Withdrawal evidence is missing")
    let quarantine ← (Quarantine.load fmt (files.store.contents .quarantine)).mapError .quarantine
    let current ← currentGeneration fmt listing files.store trust.approvedAdmissions
    let generations ← projectedGenerations fmt files.store retained current
    let p : Projection := { trust, endorsers, quarantine, current, generations }
    let observed ← p.generations.foldlM
      (p.project sha256 fmt sshsig embeddedPolicy files.store retained evidence) []
    observed.mapM (relabel sha256 endorsers evidence)

end
end Louiselm.Admission
