import Louiselm.Broker.Authorizations
import Louiselm.Endorsement.Alerts

/-!
# The broker's Attention outbox

`skills-core/src/broker/attention.rs`: the conditions that the broker reports, the documents
it sends of them, and the outbox that numbers and retains them. A failure code is that of
`posture.rs`. A document is a map of the JSON library, whose keys are sorted. The directories
of the outbox list their files by number, as the file names spell it.
-/

namespace Louiselm.Broker
open Base Canonical List
open Endorsement (Urgency)
open Broker.Authorization (Stored WriteFault)

/-! ### Conditions -/

/-- Why one posture dimension failed. -/
inductive FailureCode where
  | rootTrustFailed
  | signatureInvalid
  | witnessMissing
  | nativeSupplyUncertain
  | runtimeDrift
  | isolationFailed
  | brokerUnavailable
  | auditPersistenceUnavailable
  | providerDisclosureMissing
  | evidenceMissing
  | evidenceInvalidated
  | quarantined
  | unknownFailure
deriving DecidableEq, Repr

def FailureCode.name : FailureCode → String
  | .rootTrustFailed => "root_trust_failed"
  | .signatureInvalid => "signature_invalid"
  | .witnessMissing => "witness_missing"
  | .nativeSupplyUncertain => "native_supply_uncertain"
  | .runtimeDrift => "runtime_drift"
  | .isolationFailed => "isolation_failed"
  | .brokerUnavailable => "broker_unavailable"
  | .auditPersistenceUnavailable => "audit_persistence_unavailable"
  | .providerDisclosureMissing => "provider_disclosure_missing"
  | .evidenceMissing => "evidence_missing"
  | .evidenceInvalidated => "evidence_invalidated"
  | .quarantined => "quarantined"
  | .unknownFailure => "unknown_failure"

/-- The name an urgency is written under. -/
def urgencyName : Urgency → String
  | .reliedOn => "relied_on"
  | .subjectOnly => "subject_only"

/-- Bounded evidence of a withdrawn Endorsement, for display. -/
structure WithdrawalDetails where
  packageDigest : String
  withdrawalDigest : String
  endorser : String
  urgency : Urgency
deriving DecidableEq, Repr

/-- The trusted subject of a condition. -/
inductive AttentionSubject where
  | session (id : String)
  | run (id : String)
  | supply (id : String)
deriving DecidableEq, Repr

/-- The closed reasons of a condition. -/
inductive AttentionReason where
  | permissionRequired
  | runParked
  | sessionFailed
  | skillApprovalPending
  | skillUnverified (code : FailureCode)
  | endorsementWithdrawn (details : WithdrawalDetails)
deriving DecidableEq, Repr

/-- A condition that a trusted policy reports. -/
structure AttentionCondition where
  linkedRunId : Option String
  subject : AttentionSubject
  operationId : String
  createdAtMs : UInt64
  reason : AttentionReason
deriving DecidableEq, Repr

/-- One normalized transition. -/
inductive ProjectionChange where
  | upsert (condition : AttentionCondition)
  | clear (condition : AttentionCondition)
  | clearSubject (subject : AttentionSubject)
deriving DecidableEq, Repr

/-- One durable entry of the outbox. -/
structure Projection where
  sequence : UInt64
  mutationId : String
  change : ProjectionChange
deriving DecidableEq, Repr

/-! ### Checks -/

/-- Lower-case hex digits with hyphens where a UUID has them. -/
def canonicalUuid (value : String) : Bool :=
  value.utf8ByteSize == 36 && value.toList.zipIdx.all fun item =>
    if [8, 13, 18, 23].contains item.2 then item.1 == '-' else Hex.isDigit item.1

/-- A digest that is written the way it is shown. -/
def shownDigest (value : String) : Bool :=
  match Digest.parse value with
  | .ok digest => digest.toString == value
  | .error _ => false

def WithdrawalDetails.valid (details : WithdrawalDetails) : Bool :=
  shownDigest details.packageDigest && shownDigest details.withdrawalDigest &&
    !Text.isBlank details.endorser && details.endorser.utf8ByteSize ≤ 256 &&
    !details.endorser.toList.any Text.isControl

/-- The name of a subject's kind, and the subject. -/
def AttentionSubject.parts : AttentionSubject → String × String
  | .session id => ("session", id)
  | .run id => ("run", id)
  | .supply id => ("supply", id)

def AttentionSubject.isSupply : AttentionSubject → Bool
  | .supply _ => true
  | _ => false

/-- What must hold of a subject's identity, by the name of its kind. -/
def validSubject (kind id : String) : Bool :=
  !(id == "" || !decide (id.utf8ByteSize ≤ 256) ||
    id.toList.any (fun c => Text.isWhitespace c || Text.isControl c) ||
    (kind == "run" && !canonicalUuid id) ||
    (kind == "supply" && !(Text.parseU32 id).any fun uid => uid != 0 && toString uid == id))

def AttentionSubject.validate (subject : AttentionSubject) : Except BrokerError Unit :=
  require (validSubject subject.parts.1 subject.parts.2) .invalidGrant

/-- The name of a reason, and its code. -/
def AttentionReason.fields : AttentionReason → String × Option String
  | .permissionRequired => ("permission_required", none)
  | .runParked => ("run_parked", none)
  | .sessionFailed => ("session_failed", none)
  | .skillApprovalPending => ("skill_approval_pending", some "admission_required")
  | .skillUnverified code => ("skill_unverified", some code.name)
  | .endorsementWithdrawn _ => ("endorsement_withdrawn", none)

/-- The reasons that a supply can have. -/
def AttentionReason.ofSupply : AttentionReason → Bool
  | .skillApprovalPending => true
  | .endorsementWithdrawn _ => true
  | _ => false

def AttentionReason.withdrawal : AttentionReason → Option WithdrawalDetails
  | .endorsementWithdrawn details => some details
  | _ => none

def AttentionCondition.validate (condition : AttentionCondition) : Except BrokerError Unit := do
  condition.subject.validate
  require (!(!canonicalUuid condition.operationId || condition.createdAtMs == 0 ||
      (condition.subject.isSupply &&
        (!condition.reason.ofSupply || condition.linkedRunId.isSome)) ||
      condition.reason.withdrawal.any (fun details =>
        !condition.subject.isSupply || !details.valid) ||
      condition.linkedRunId.any (!canonicalUuid ·)))
    .invalidGrant

def ProjectionChange.validate : ProjectionChange → Except BrokerError Unit
  | .upsert condition => condition.validate
  | .clear condition => condition.validate
  | .clearSubject (.supply _) => .error .invalidGrant
  | .clearSubject subject => subject.validate

/-! ### Documents -/

def WithdrawalDetails.members (details : WithdrawalDetails) : List (String × Json) :=
  [("package_digest", toJson details.packageDigest),
    ("withdrawal_digest", toJson details.withdrawalDigest), ("endorser", toJson details.endorser),
    ("urgency", .str (urgencyName details.urgency))]

def AttentionCondition.key (condition : AttentionCondition) : List (String × Json) :=
  [("subject_kind", .str condition.subject.parts.1), ("subject_id", .str condition.subject.parts.2),
    ("kind", .str condition.reason.fields.1), ("source_operation_id", .str condition.operationId)]

/-- The members of a change. A condition has its code and its evidence where it has them. -/
def ProjectionChange.members : ProjectionChange → List (String × Json)
  | .upsert condition => [("type", .str "upsert"), ("attention", .obj (condition.key ++
    [("created_at_ms", toJson condition.createdAtMs),
    ("linked_run_id", toJson condition.linkedRunId),
      ("stage", .null)] ++ condition.reason.fields.2.toList.map (fun code => ("code", .str code)) ++
    condition.reason.withdrawal.toList.map fun details => ("withdrawal", .obj details.members)))]
  | .clear condition => [("type", .str "clear"), ("key", .obj condition.key)]
  | .clearSubject subject =>
        [("type", .str "clear_subject"), ("subject_kind", .str subject.parts.1),
    ("subject_id", .str subject.parts.2)]

/-- The canonical projection object. -/
def Projection.wire (entry : Projection) : Json :=
  (Json.obj [("sequence", toJson entry.sequence), ("change", .obj entry.change.members)]).normalize

/-- SHA-256 of the canonical projection text. -/
def Projection.digest (sha256 : Sha256) (fmt : JsonFormat) (entry : Projection) : String :=
  (Digest.of sha256 (utf8 (fmt.print entry.wire))).hex

/-! ### The outbox -/

def maxOutboxEntries : Nat := 4096

/-- The entries, and the acknowledgements with the digests they name. -/
structure Outbox where
  entries : Numbered (Stored Projection)
  acks : Numbered (Stored String)

/-- An outbox that was opened on nothing. -/
def Outbox.empty : Outbox := ⟨∅, ∅⟩

/-- Write one durable file that must not already exist. -/
def createNumbered {α : Type} (files : Numbered (Stored α)) (number : Nat) (record : α)
    (fault : WriteFault) : Except BrokerError Unit × Numbered (Stored α) :=
  if (files.lookup number).isSome then (.error .duplicateAuthorization, files)
  else
    match fault with
    | .none => (.ok (), files.insert number (.whole record))
    | .refused => (.error .storage, files)
    | .torn => (.error .storage, files.insert number .torn)
    | .unconfirmed => (.error .storage, files.insert number (.whole record))

namespace Outbox

variable (sha256 : Sha256) (fmt : JsonFormat) (recordBytes : Projection → Nat) (outbox : Outbox)

/-- One entry, under the number it must have. -/
def readEntry (sequence : Nat) : Except BrokerError Projection :=
  match outbox.entries.lookup sequence with
  | none => .error .storage
  | some stored => do
    let entry ← stored.read recordBytes
    entry.change.validate
    require (entry.sequence.toNat == sequence && isRecordIdentifier entry.mutationId) .storage
    return entry

/-- Every entry in the order of the numbers, of which none is missing. -/
def readEntries : Except BrokerError (List Projection) := do
  let count := outbox.entries.keys.length
  require (decide (count ≤ maxOutboxEntries)) .storage
  (List.range' 1 count).mapM (outbox.readEntry recordBytes)

/-- The first of some entries without an acknowledgement; the others have that of their
digest. -/
def firstPending : List Projection → Except BrokerError (Option Projection)
  | [] => .ok none
  | entry :: entries =>
    match outbox.acks.lookup entry.sequence.toNat with
    | none => .ok (some entry)
    | some stored => do
      let digest ← stored.read fun digest => digest.utf8ByteSize + 2
      require (digest == entry.digest sha256 fmt) .storage
      firstPending entries

/-- The oldest entry that was not acknowledged. -/
def pending : Except BrokerError (Option Projection) := do
  let entries ← outbox.readEntries recordBytes
  outbox.firstPending sha256 fmt entries

/-- The entries that an accepted change is held against. -/
def checkEnqueue (mutationId : String) (change : ProjectionChange) :
    Except BrokerError (List Projection) := do
  require (isRecordIdentifier mutationId) .invalidGrant
  change.validate
  outbox.readEntries recordBytes

/-- Durably enqueue once; a retried identity needs exactly the same change, whose entry is
made durable again. -/
def enqueue (mutationId : String) (change : ProjectionChange) (synced : Except BrokerError Unit)
    (fault : WriteFault) : Except BrokerError Projection × Outbox :=
  match outbox.checkEnqueue recordBytes mutationId change with
  | .error error => (.error error, outbox)
  | .ok entries =>
    match entries.find? (·.mutationId == mutationId) with
    | some existing =>
      if existing.change ≠ change then (.error .invalidGrant, outbox)
      else (synced.map fun _ => existing, outbox)
    | none =>
      if maxOutboxEntries ≤ entries.length then (.error .storage, outbox)
      else
        let entry := ⟨UInt64.ofNat (entries.length + 1), mutationId, change⟩
        match createNumbered outbox.entries (entries.length + 1) entry fault with
        | (result, files) => (result.map fun _ => entry, { outbox with entries := files })

/-- Whether an acknowledgement names exactly the oldest pending entry. -/
def checkAcknowledge (sequence : UInt64) (digest : String) : Except BrokerError Unit := do
  match ← outbox.pending sha256 fmt recordBytes with
  | none => .error .invalidGrant
  | some entry =>
    require (entry.sequence == sequence && entry.digest sha256 fmt == digest) .invalidGrant

/-- Record the acknowledgement of exactly the oldest pending entry. -/
def acknowledge (sequence : UInt64) (digest : String) (fault : WriteFault) :
    Except BrokerError Unit × Outbox :=
  match outbox.checkAcknowledge sha256 fmt recordBytes sequence digest with
  | .error error => (.error error, outbox)
  | .ok _ =>
    match createNumbered outbox.acks sequence.toNat digest fault with
    | (result, files) => (result, { outbox with acks := files })

/-! ### What the outbox holds -/

/-- The files are those of some entries, each valid and under its number, and at most the
torn write of the next one. -/
structure Holds (outbox : Outbox) (entries : List Projection) : Prop where
  stored (i : Nat) (entry : Projection) :
    entries[i]? = some entry → outbox.entries.lookup (i + 1) = some (.whole entry)
  sequence (i : Nat) (entry : Projection) : entries[i]? = some entry → entry.sequence.toNat = i + 1
  valid : ∀ entry ∈ entries, entry.change.validate = .ok ()
  rest : (∀ number, number ∈ outbox.entries ↔ 1 ≤ number ∧ number ≤ entries.length) ∨
    outbox.entries.lookup (entries.length + 1) = some .torn ∧
      ∀ number, number ∈ outbox.entries ↔ 1 ≤ number ∧ number ≤ entries.length + 1

variable {es os : List Projection}

theorem Holds.length_le {outbox : Outbox} (h : Holds outbox es)
    (ho : Holds outbox os) : es.length ≤ os.length := by
  by_contra hl
  have hi : os.length < es.length := Nat.lt_of_not_le hl
  have hs := h.stored os.length _ (List.getElem?_eq_getElem hi)
  have hm : os.length + 1 ∈ outbox.entries := by
    rw [← AList.lookup_isSome, hs]
    rfl
  rcases ho.rest with ha | ⟨ht, -⟩
  · have := ((ha _).mp hm).2
    omega
  · rw [ht] at hs
    simp at hs

/-- An outbox holds one list of entries. -/
theorem Holds.unique {outbox : Outbox} (h : Holds outbox es) (ho : Holds outbox os) : es = os := by
  have he := Nat.le_antisymm (h.length_le ho) (ho.length_le h)
  apply ext_getElem he
  intro i hi hi'
  have hl := h.stored i _ (List.getElem?_eq_getElem hi)
  have hr := ho.stored i _ (List.getElem?_eq_getElem hi')
  rw [hl] at hr
  simpa using hr

theorem holds_empty : Holds .empty [] where
  stored := fun _ _ h => by simp at h
  sequence := fun _ _ h => by simp at h
  valid := fun _ h => absurd h not_mem_nil
  rest := .inl fun n => by
    simp only [Outbox.empty, length_nil, AList.notMem_empty, false_iff]
    omega

section

variable {recordBytes : Projection → Nat} {outbox : Outbox} {es l : List Projection}

private theorem length_keys {n : Nat} (h : ∀ nu, nu ∈ outbox.entries ↔ 1 ≤ nu ∧ nu ≤ n) :
    outbox.entries.keys.length = n := by
  have hp : outbox.entries.keys.Perm (List.range' 1 n) := by
    refine (perm_ext_iff_of_nodup outbox.entries.nodupKeys nodup_range').mpr ?_
    intro nu
    rw [mem_range'_1]
    refine (AList.mem_keys.symm.trans (h nu)).trans ?_
    omega
  simpa using hp.length_eq

theorem readEntry_ok {n : Nat} {e : Projection} (h : outbox.readEntry recordBytes n = .ok e) :
    outbox.entries.lookup n = some (.whole e) := by
  unfold readEntry at h
  split at h
  · simp at h
  · next s ht =>
    obtain ⟨held, hr, h⟩ := bind_ok.mp h
    simp only [check_ok] at h
    obtain ⟨-, -, hs⟩ := h
    cases s with
    | torn => simp [Stored.read] at hr
    | whole r =>
      simp only [Stored.read] at hr
      split at hr
      · rw [ht, Except.ok.inj hr, Except.ok.inj hs]
      · simp at hr

/-- What can be read of the outbox is all that it holds, and no file of it is torn. -/
theorem Holds.readEntries (h : Holds outbox es) (hr : outbox.readEntries recordBytes = .ok l) :
    l = es ∧ ∀ n, n ∈ outbox.entries ↔ 1 ≤ n ∧ n ≤ es.length := by
  unfold Outbox.readEntries at hr
  obtain ⟨-, hr⟩ := check_ok.mp hr
  have hl := (mapM_ok.mp hr).imp fun _ _ => readEntry_ok
  have ha : ∀ n, n ∈ outbox.entries ↔ 1 ≤ n ∧ n ≤ es.length := by
    rcases h.rest with ha | ⟨ht, hm⟩
    · exact ha
    · rw [length_keys hm] at hl
      obtain ⟨he, hg⟩ := forall₂_iff_get.mp hl
      rw [length_range'] at he
      have hla := hg es.length (by simp) (by omega)
      rw [get_eq_getElem, getElem_range', Nat.one_mul, Nat.add_comm, ht] at hla
      simp at hla
  refine ⟨?_, ha⟩
  rw [length_keys ha] at hl
  have hs : List.Forall₂ (fun n e => outbox.entries.lookup n =
      some (.whole e)) (List.range' 1 es.length) es := by
    refine forall₂_iff_get.mpr ⟨by simp, fun i hi hi' => ?_⟩
    rw [get_eq_getElem, getElem_range', Nat.one_mul, Nat.add_comm]
    exact h.stored i _ (List.getElem?_eq_getElem hi')
  have hu : Relator.RightUnique fun n e =>
      outbox.entries.lookup n = some (Stored.whole e) := by
    intro n left r hle hri
    simpa [hle] using hri
  exact hu.forall₂ hl hs

/-- The next entry is held beside the others. -/
private theorem Holds.append (h : Holds outbox es)
    (ha : ∀ n, n ∈ outbox.entries ↔ 1 ≤ n ∧ n ≤ es.length) (hr : ¬ maxOutboxEntries ≤ es.length)
    {mid : String} {c : ProjectionChange} (hv : c.validate = .ok ()) : Holds { outbox with
      entries := outbox.entries.insert (es.length + 1)
        (.whole ⟨UInt64.ofNat (es.length + 1), mid, c⟩) }
      (es ++ [⟨UInt64.ofNat (es.length + 1), mid, c⟩]) := by
  have hq : (UInt64.ofNat (es.length + 1)).toNat = es.length + 1 := by
    have hs : UInt64.size = 18446744073709551616 := rfl
    unfold maxOutboxEntries at hr
    exact UInt64.toNat_ofNat_of_lt' (by omega)
  refine ⟨fun i e he => ?_, fun i e he => ?_, fun e he => ?_, .inl ?_⟩
  · rw [List.getElem?_append] at he
    split at he
    · next ht =>
      rw [AList.lookup_insert_ne (by omega)]
      exact h.stored i e he
    · next hg =>
      obtain ⟨ht, hl⟩ := List.getElem?_eq_some_iff.mp he
      rw [length_singleton] at ht
      obtain rfl : i = es.length := by omega
      rw [AList.lookup_insert, ← hl]
      simp
  · rw [List.getElem?_append] at he
    split at he
    · exact h.sequence i e he
    · next hg =>
      obtain ⟨ht, hl⟩ := List.getElem?_eq_some_iff.mp he
      rw [length_singleton] at ht
      obtain rfl : i = es.length := by omega
      rw [← hl]
      simpa using hq
  · rcases mem_append.mp he with he | he
    · exact h.valid e he
    · rw [mem_singleton.mp he]
      exact hv
  · intro n
    rw [AList.mem_insert, ha, length_append, length_singleton]
    omega

variable (recordBytes) in
/-- What enqueueing leaves: the entries as they were, of which an accepted change is one, or
with the change as one more at the end. -/
theorem Holds.enqueue_result (h : Holds outbox es) (mid : String)
    (c : ProjectionChange) (s : Except BrokerError Unit) (f : WriteFault) :
    let result := outbox.enqueue recordBytes mid c s f
    (Holds result.2 es ∧ ∀ e, result.1 = .ok e → e ∈ es ∧ e.mutationId = mid ∧ e.change = c) ∨
      f ≠ .torn ∧ (∀ e ∈ es, e.mutationId ≠ mid) ∧
        ∃ e, Holds result.2 (es ++ [e]) ∧ e.mutationId = mid ∧ e.change = c := by
  unfold Outbox.enqueue
  split
  · exact .inl ⟨h, fun _ ho => by simp at ho⟩
  · next l hc =>
    simp only [checkEnqueue, check_ok] at hc
    obtain ⟨-, hv, hre⟩ := hc
    obtain ⟨rfl, ha⟩ := h.readEntries hre
    split
    · next ex hx =>
      split
      · exact .inl ⟨h, fun _ ho => by simp at ho⟩
      · next hh =>
        refine .inl ⟨h, fun e ho => ?_⟩
        cases s with
        | error error => simp [Except.map] at ho
        | ok _ =>
          obtain rfl := Except.ok.inj ho
          have hi := List.find?_some hx
          exact ⟨mem_of_find?_eq_some hx, by simpa using hi, not_not.mp hh⟩
    · next hn =>
      have hf : ∀ e ∈ l, e.mutationId ≠ mid := fun e he => by
        simpa using List.find?_eq_none.mp hn e he
      split
      · exact .inl ⟨h, fun _ ho => by simp at ho⟩
      · next hr =>
        dsimp only
        unfold createNumbered
        split
        · exact .inl ⟨h, fun _ ho => by simp [Except.map] at ho⟩
        · cases f with
          | none => exact .inr ⟨by simp, hf, _, h.append ha hr hv, rfl, rfl⟩
          | refused => exact .inl ⟨h, fun _ ho => by simp [Except.map] at ho⟩
          | torn =>
            refine .inl ⟨⟨fun i e he => ?_, h.sequence, h.valid, .inr ⟨?_, ?_⟩⟩,
              fun _ ho => by simp [Except.map] at ho⟩
            · have hl := (List.getElem?_eq_some_iff.mp he).1
              exact (AList.lookup_insert_ne (by omega)).trans (h.stored i e he)
            · exact AList.lookup_insert _
            · intro n
              rw [AList.mem_insert, ha]
              omega
          | unconfirmed => exact .inr ⟨by simp, hf, _, h.append ha hr hv, rfl, rfl⟩

end
end Outbox
end Louiselm.Broker
