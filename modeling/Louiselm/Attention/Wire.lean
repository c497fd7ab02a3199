import Louiselm.Attention.Store
import Louiselm.Broker.Outbox

/-!
# The broker's documents as the Attention store reads them

The derived encodings of `capture-service/src/attention.rs`, `attention_withdrawal.rs` and
`attention_projection.rs`. Every change that the broker can enqueue is read as a change that
the store accepts and digests as the broker does.
-/

namespace Louiselm.Attention
open Base Canonical List Json Broker

/-! ### Names -/

def AttentionSubjectKind.name : AttentionSubjectKind → String
  | .session => "session"
  | .run => "run"
  | .supply => "supply"

def AttentionKind.name : AttentionKind → String
  | .turnReady => "turn_ready"
  | .permissionRequired => "permission_required"
  | .runParked => "run_parked"
  | .sessionFailed => "session_failed"
  | .skillApprovalPending => "skill_approval_pending"
  | .skillUnverified => "skill_unverified"
  | .endorsementWithdrawn => "endorsement_withdrawn"

def AttentionCode.name : AttentionCode → String
  | .admissionRequired => "admission_required"
  | .rootTrustFailed => "root_trust_failed"
  | .signatureInvalid => "signature_invalid"
  | .witnessMissing => "witness_missing"
  | .nativeSupplyUncertain => "native_supply_uncertain"
  | .runtimeDrift => "runtime_drift"
  | .isolationFailed => "isolation_failed"
  | .brokerUnavailable => "broker_unavailable"
  | .auditPersistenceUnavailable => "audit_persistence_unavailable"
  | .providerDisclosureMissing => "provider_disclosure_missing"
  | .evidenceMissing => "evidence_missing"
  | .evidenceInvalidated => "evidence_invalidated"
  | .quarantined => "quarantined"
  | .unknownFailure => "unknown_failure"

def WithdrawalUrgency.name : WithdrawalUrgency → String
  | .reliedOn => "relied_on"
  | .subjectOnly => "subject_only"

def AttentionSubjectKind.all : List AttentionSubjectKind := [.session, .run, .supply]

def AttentionKind.all : List AttentionKind := [.turnReady, .permissionRequired, .runParked,
  .sessionFailed, .skillApprovalPending, .skillUnverified, .endorsementWithdrawn]

def AttentionCode.all : List AttentionCode := [.admissionRequired, .rootTrustFailed,
  .signatureInvalid, .witnessMissing, .nativeSupplyUncertain, .runtimeDrift, .isolationFailed,
  .brokerUnavailable, .auditPersistenceUnavailable, .providerDisclosureMissing, .evidenceMissing,
  .evidenceInvalidated, .quarantined, .unknownFailure]

def WithdrawalUrgency.all : List WithdrawalUrgency := [.reliedOn, .subjectOnly]

instance : Deserialize AttentionSubjectKind :=
  deserializeName AttentionSubjectKind.name
    (fun name => AttentionSubjectKind.all.find? (·.name == name)) (by rintro ⟨⟩ <;> rfl)

instance : Deserialize AttentionKind :=
  deserializeName AttentionKind.name (fun name => AttentionKind.all.find? (·.name == name))
    (by rintro ⟨⟩ <;> rfl)

instance : Deserialize AttentionCode :=
  deserializeName AttentionCode.name (fun name => AttentionCode.all.find? (·.name == name))
    (by rintro ⟨⟩ <;> rfl)

instance : Deserialize WithdrawalUrgency :=
  deserializeName WithdrawalUrgency.name (fun name => WithdrawalUrgency.all.find? (·.name == name))
    (by rintro ⟨⟩ <;> rfl)

instance : NonNull AttentionCode where
  ne_null := by rintro _ ⟨⟩

/-! ### Documents -/

def AttentionWithdrawal.members (withdrawal : AttentionWithdrawal) : List (String × Json) :=
  [("package_digest", toJson withdrawal.packageDigest),
    ("withdrawal_digest", toJson withdrawal.withdrawalDigest),
    ("endorser", toJson withdrawal.endorser), ("urgency", toJson withdrawal.urgency)]

/-- The field names, in declaration order. -/
def AttentionWithdrawal.fields : List String :=
  ["package_digest", "withdrawal_digest", "endorser", "urgency"]

def AttentionWithdrawal.ofJson (v : Json) : Option AttentionWithdrawal := do
  match ← v.struct true AttentionWithdrawal.fields with
  | [packageDigest, withdrawalDigest, endorser, urgency] =>
    return {
      packageDigest := ← field packageDigest
      withdrawalDigest := ← field withdrawalDigest
      endorser := ← field endorser
      urgency := ← field urgency }
  | _ => failure

instance : Deserialize AttentionWithdrawal :=
  deserializeStruct AttentionWithdrawal.members AttentionWithdrawal.ofJson 0 (fun withdrawal => by
      simp (disch := decide) [AttentionWithdrawal.members, fits_toJson])
    (fun withdrawal => by
      rw [AttentionWithdrawal.ofJson, struct_obj true AttentionWithdrawal.fields rfl (by decide)]
      simp [AttentionWithdrawal.members])

instance : NonNull AttentionWithdrawal where
  ne_null := by rintro _ ⟨⟩

def AttentionKey.members (key : AttentionKey) : List (String × Json) :=
  [("subject_kind", toJson key.subjectKind), ("subject_id", toJson key.subjectId),
    ("kind", toJson key.kind), ("source_operation_id", toJson key.sourceOperationId)]

/-- The field names, in declaration order. -/
def AttentionKey.fields : List String :=
  ["subject_kind", "subject_id", "kind", "source_operation_id"]

def AttentionKey.ofJson (v : Json) : Option AttentionKey := do
  match ← v.struct true AttentionKey.fields with
  | [subjectKind, subjectId, kind, sourceOperationId] =>
    return {
      subjectKind := ← field subjectKind
      subjectId := ← field subjectId
      kind := ← field kind
      sourceOperationId := ← field sourceOperationId }
  | _ => failure

/-- An absent code and absent evidence are left out. -/
def AttentionDraft.members (draft : AttentionDraft) : List (String × Json) :=
  draft.key.members ++
    [("created_at_ms", toJson draft.createdAtMs), ("linked_run_id", toJson draft.linkedRunId),
      ("stage", toJson draft.stage)] ++ draft.code.toList.map (fun code => ("code", toJson code)) ++
    draft.withdrawal.toList.map fun withdrawal => ("withdrawal", toJson withdrawal)

/-- The field names, in declaration order. -/
def AttentionDraft.fields : List String :=
  AttentionKey.fields ++ ["created_at_ms", "linked_run_id", "stage", "code", "withdrawal"]

def AttentionDraft.ofJson (v : Json) : Option AttentionDraft := do
  match ← v.struct true AttentionDraft.fields with
  | [subjectKind, subjectId, kind, sourceOperationId, createdAtMs, linkedRunId, stage, code,
      withdrawal] =>
    return {
      subjectKind := ← field subjectKind
      subjectId := ← field subjectId
      kind := ← field kind
      sourceOperationId := ← field sourceOperationId
      createdAtMs := ← field createdAtMs
      linkedRunId := ← field linkedRunId
      stage := ← field stage
      code := ← field code
      withdrawal := ← field withdrawal }
  | _ => failure

/-- The members of a change, internally tagged by `type`. -/
def ProjectionChange.members : ProjectionChange → List (String × Json)
  | .upsert attention => [("type", .str "upsert"), ("attention", .obj attention.members)]
  | .clear key => [("type", .str "clear"), ("key", .obj key.members)]
  | .clearSubject subjectKind subjectId => [("type", .str "clear_subject"),
    ("subject_kind", toJson subjectKind), ("subject_id", toJson subjectId)]

/-- Split an internally tagged document into its tag, which may not be repeated, and the rest;
in an array the tag comes first. -/
def tagged (tag : String) : Json → Option (String × Json)
  | .obj members =>
    match members.filter (·.1 == tag) with
    | [(_, .str name)] => some (name, .obj (members.filter (·.1 != tag)))
    | _ => none
  | .arr (.str name :: items) => some (name, .arr items)
  | _ => none

def ProjectionChange.ofJson (v : Json) : Option ProjectionChange := do
  match ← tagged "type" v with
  | ("upsert", rest) =>
    match ← rest.struct true ["attention"] with
    | [attention] => return .upsert (← attention.bind AttentionDraft.ofJson)
    | _ => failure
  | ("clear", rest) =>
    match ← rest.struct true ["key"] with
    | [key] => return .clear (← key.bind AttentionKey.ofJson)
    | _ => failure
  | ("clear_subject", rest) =>
    match ← rest.struct true ["subject_kind", "subject_id"] with
    | [subjectKind, subjectId] => return .clearSubject (← field subjectKind) (← field subjectId)
    | _ => failure
  | _ => failure

def BrokerProjection.members (projection : BrokerProjection) : List (String × Json) :=
  [("sequence", toJson projection.sequence), ("change", .obj projection.change.members)]

def BrokerProjection.ofJson (v : Json) : Option BrokerProjection := do
  match ← v.struct true ["sequence", "change"] with
  | [sequence, change] =>
    return {
      sequence := ← field sequence
      change := ← change.bind ProjectionChange.ofJson }
  | _ => failure

/-- Read a projection from its text. -/
def BrokerProjection.fromText (fmt : JsonFormat) (text : String) : Option BrokerProjection :=
  (fmt.read text).bind BrokerProjection.ofJson

/-- The text that a projection is digested over: its document as a map, with sorted keys. -/
def canonicalProjection (fmt : JsonFormat) (projection : BrokerProjection) : Bytes :=
  utf8 (fmt.print (obj projection.members).normalize)

instance : Normal AttentionSubjectKind where
  normalize_toJson := fun kind => by change (str _).normalize = _; rw [Json.normalize]; rfl

instance : Normal AttentionKind where
  normalize_toJson := fun kind => by change (str _).normalize = _; rw [Json.normalize]; rfl

instance : Normal AttentionCode where
  normalize_toJson := fun code => by change (str _).normalize = _; rw [Json.normalize]; rfl

instance : Normal WithdrawalUrgency where
  normalize_toJson := fun urgency => by change (str _).normalize = _; rw [Json.normalize]; rfl

/-! ### Documents that are read back -/

theorem ofJson_normalize_withdrawal (w : AttentionWithdrawal) :
    ofJson (toJson w).normalize = some w := by
  change AttentionWithdrawal.ofJson (obj w.members).normalize = some w
  rw [AttentionWithdrawal.ofJson, struct_normalize true _ (by simp [AttentionWithdrawal.members]),
    struct_obj true AttentionWithdrawal.fields rfl (by decide)]
  simp [AttentionWithdrawal.members]

theorem ofJson_normalize_key (key : AttentionKey) :
    AttentionKey.ofJson (obj key.members).normalize = some key := by
  rw [AttentionKey.ofJson, struct_normalize true _ (by simp [AttentionKey.members]),
    struct_obj true AttentionKey.fields rfl (by decide)]
  simp [AttentionKey.members]

/-- The fields of a report, with those that were left out. -/
theorem struct_draft (d : AttentionDraft) :
    struct true AttentionDraft.fields (.obj d.members) = some (
      d.key.members.map (fun m => some m.2) ++ [some (toJson d.createdAtMs),
        some (toJson d.linkedRunId), some (toJson d.stage), d.code.map toJson,
        d.withdrawal.map toJson]) := by
  obtain ⟨k, id, r, op, c, l, stage, code, withdrawal⟩ := d
  cases code <;> cases withdrawal <;>
    simp [struct, AttentionDraft.members, AttentionDraft.fields, AttentionKey.members,
      AttentionKey.fields, AttentionDraft.key, lookup_cons]

theorem nodup_draft_members (d : AttentionDraft) : (d.members.map Prod.fst).Nodup := by
  obtain ⟨k, id, r, op, c, l, s, co, w⟩ := d
  cases co <;> cases w <;>
    simp [AttentionDraft.members, AttentionKey.members, AttentionDraft.key]

theorem field_code (c : Option AttentionCode) : field (c.map (normalize ∘ toJson)) = some c := by
  cases c with
  | none => rfl
  | some c =>
    rw [Option.map_some, Function.comp_apply, Normal.normalize_toJson]
    exact Deserialize.ofJson_toJson (some c)

/-- An optional value is read from a document that is not `null`. -/
theorem ofJson_some {α : Type} [Deserialize α] [NonNull α] {v : Json} (h : v ≠ .null) :
    (ofJson v : Option (Option α)) = (ofJson v).map some := by
  cases v
  · exact absurd rfl h
  all_goals rfl

theorem field_withdrawal (withdrawal : Option AttentionWithdrawal) :
    field (withdrawal.map (normalize ∘ toJson)) = some withdrawal := by
  cases withdrawal with
  | none => rfl
  | some withdrawal =>
    rw [Option.map_some, Function.comp_apply, field_some, ofJson_some, ofJson_normalize_withdrawal]
    · rfl
    · change (obj withdrawal.members).normalize ≠ .null
      rw [Json.normalize]
      rintro ⟨⟩

theorem ofJson_normalize_draft (d : AttentionDraft) :
    AttentionDraft.ofJson (obj d.members).normalize = some d := by
  rw [AttentionDraft.ofJson, struct_normalize true _ (nodup_draft_members d), struct_draft]
  simp only [AttentionKey.members, map_cons, map_nil, cons_append, nil_append,
    Option.map_some, Normal.normalize_toJson, Option.map_map]
  simp [field_code, field_withdrawal, AttentionDraft.key]

/-- Two members of a change, in the order of their keys. -/
theorem normalize_tagged {key : String} (h : key < "type") (n : String) (v : Json) :
    (obj [("type", .str n), (key, v)]).normalize = .obj [(key, v.normalize), ("type", .str n)] := by
  have hn : "type" ≠ key := fun he => absurd h (he ▸ lt_irrefl key)
  rw [Json.normalize, normalizeMembers, normalizeMembers, normalizeMembers,
    Json.normalize, insertAbsent, insertAbsent, if_neg (lt_asymm h), if_neg hn, insertAbsent]

theorem ofJson_normalize_change (c : ProjectionChange) :
    ProjectionChange.ofJson (obj c.members).normalize = some c := by
  cases c with
  | upsert a =>
    rw [ProjectionChange.members, normalize_tagged (by decide)]
    simp [ProjectionChange.ofJson, tagged, struct, ofJson_normalize_draft]
  | clear key =>
    rw [ProjectionChange.members, normalize_tagged (by decide)]
    simp [ProjectionChange.ofJson, tagged, struct, ofJson_normalize_key]
  | clearSubject sk si =>
    have hd : (obj (ProjectionChange.clearSubject sk si).members).normalize =
        .obj [("subject_id", toJson si), ("subject_kind", toJson sk),
          ("type", .str "clear_subject")] := by
      rw [ProjectionChange.members, Json.normalize, normalizeMembers, normalizeMembers,
        normalizeMembers, normalizeMembers, Json.normalize, insertAbsent,
        insertAbsent, if_neg (by decide), if_neg (by decide), insertAbsent,
        insertAbsent, if_neg (by decide), if_neg (by decide), insertAbsent,
        if_neg (by decide), if_neg (by decide), insertAbsent, Normal.normalize_toJson,
        Normal.normalize_toJson]
    rw [hd]
    simp [ProjectionChange.ofJson, tagged, struct, lookup_cons]

/-- A projection is read back from its document with sorted keys. -/
theorem ofJson_normalize_projection (p : BrokerProjection) :
    BrokerProjection.ofJson (obj p.members).normalize = some p := by
  rw [BrokerProjection.ofJson, struct_normalize true _ (by simp [BrokerProjection.members]),
    struct_obj true ["sequence", "change"] rfl (by decide)]
  simp [BrokerProjection.members, ofJson_normalize_change]

/-! ### Changes of the broker -/

/-- The kind and the identity that a subject of the broker is received under. -/
def receivedSubject : AttentionSubject → AttentionSubjectKind × String
  | .session id => (.session, id)
  | .run id => (.run, id)
  | .supply id => (.supply, id)

def receivedUrgency : Endorsement.Urgency → WithdrawalUrgency
  | .reliedOn => .reliedOn
  | .subjectOnly => .subjectOnly

def receivedCode : FailureCode → AttentionCode
  | .rootTrustFailed => .rootTrustFailed
  | .signatureInvalid => .signatureInvalid
  | .witnessMissing => .witnessMissing
  | .nativeSupplyUncertain => .nativeSupplyUncertain
  | .runtimeDrift => .runtimeDrift
  | .isolationFailed => .isolationFailed
  | .brokerUnavailable => .brokerUnavailable
  | .auditPersistenceUnavailable => .auditPersistenceUnavailable
  | .providerDisclosureMissing => .providerDisclosureMissing
  | .evidenceMissing => .evidenceMissing
  | .evidenceInvalidated => .evidenceInvalidated
  | .quarantined => .quarantined
  | .unknownFailure => .unknownFailure

def receivedWithdrawal (details : WithdrawalDetails) : AttentionWithdrawal :=
  ⟨details.packageDigest, details.withdrawalDigest, details.endorser,
    receivedUrgency details.urgency⟩

/-- The kind of a reason, with its code and its evidence. -/
def receivedReason : AttentionReason →
    AttentionKind × Option AttentionCode × Option AttentionWithdrawal
  | .permissionRequired => (.permissionRequired, none, none)
  | .runParked => (.runParked, none, none)
  | .sessionFailed => (.sessionFailed, none, none)
  | .skillApprovalPending => (.skillApprovalPending, some .admissionRequired, none)
  | .skillUnverified code => (.skillUnverified, some (receivedCode code), none)
  | .endorsementWithdrawn details =>
    (.endorsementWithdrawn, none, some (receivedWithdrawal details))

def receivedDraft (condition : Broker.AttentionCondition) : AttentionDraft where
  subjectKind := (receivedSubject condition.subject).1
  subjectId := (receivedSubject condition.subject).2
  kind := (receivedReason condition.reason).1
  sourceOperationId := condition.operationId
  createdAtMs := condition.createdAtMs
  linkedRunId := condition.linkedRunId
  stage := none
  code := (receivedReason condition.reason).2.1
  withdrawal := (receivedReason condition.reason).2.2

def receivedChange : Broker.ProjectionChange → ProjectionChange
  | .upsert condition => .upsert (receivedDraft condition)
  | .clear condition => .clear (receivedDraft condition).key
  | .clearSubject subject => .clearSubject (receivedSubject subject).1 (receivedSubject subject).2

/-- What an entry of the outbox says to the receiver. -/
def received (entry : Broker.Projection) : BrokerProjection :=
  ⟨entry.sequence, receivedChange entry.change⟩

theorem members_key (c : Broker.AttentionCondition) : (receivedDraft c).key.members = c.key := by
  obtain ⟨l, s, op, cr, r⟩ := c
  cases s <;> cases r <;> rfl

/-- The receiver's document of an entry is the broker's. -/
theorem members_received (e : Broker.Projection) :
    (obj (received e).members).normalize = e.wire := by
  have hc : (receivedChange e.change).members = e.change.members := by
    cases e.change with
    | upsert c =>
      have hk := members_key c
      obtain ⟨l, s, op, cr, r⟩ := c
      cases r with
      | skillUnverified co => cases s <;> cases co <;> rfl
      | endorsementWithdrawn d =>
        obtain ⟨p, w, en, u⟩ := d
        cases s <;> cases u <;> rfl
      | _ => cases s <;> rfl
    | clear c =>
      simp only [receivedChange, ProjectionChange.members, Broker.ProjectionChange.members,
        members_key]
    | clearSubject s => cases s <;> rfl
  rw [Projection.wire, BrokerProjection.members, received, hc]

theorem fits_draft (d : AttentionDraft) : (obj d.members).Fits 2 := by
  intro m hm
  simp only [AttentionDraft.members, AttentionKey.members, mem_append, mem_cons,
    not_mem_nil, or_false, mem_map] at hm
  rcases hm with (((rfl | rfl | rfl | rfl) | rfl | rfl | rfl) | ⟨c, -, rfl⟩) |
    ⟨withdrawal, -, rfl⟩
  all_goals exact fits_toJson (by decide) _

/-- The document of a projection is shallow. -/
theorem fits_projection (p : BrokerProjection) : (obj p.members).Fits maxDepth := by
  have hc : (obj p.change.members).Fits 3 := by
    cases p.change with
    | upsert a =>
      simp only [ProjectionChange.members, fits_obj, fits_members_cons, fits_str,
        fits_members_nil, and_true, true_and]
      exact fits_draft a
    | clear key =>
      simp (disch := decide) only [ProjectionChange.members, AttentionKey.members, fits_obj,
        fits_members_cons, fits_members_nil, fits_str, fits_toJson, and_self]
    | clearSubject sk si =>
      simp (disch := decide) only [ProjectionChange.members, fits_obj, fits_members_cons,
        fits_members_nil, fits_str, fits_toJson, and_self]
  have hd : (obj p.members).Fits 4 := by
    simp (disch := decide) only [BrokerProjection.members, fits_obj, fits_members_cons,
      fits_members_nil, fits_toJson, and_true, true_and]
    exact hc
  exact hd.mono (by decide)

section

variable {uuid : String → Option String}

/-- The texts that the broker takes for UUIDs are printed as they are parsed. -/
abbrev ParsesCanonical (uuid : String → Option String) : Prop :=
  ∀ value, canonicalUuid value = true → uuid value = some value

theorem validateUuid_of_canonical (hu : ParsesCanonical uuid) {v : String}
    (h : canonicalUuid v = true) (f : String) : validateUuid uuid v f = .ok () := by
  simp [validateUuid, hu v h]

theorem canonicalDigest_of_shown {v : String} (h : shownDigest v = true) :
    canonicalDigest v = true := by
  unfold shownDigest at h
  split at h
  · next d _ =>
    rw [beq_iff_eq] at h
    have hh := d.valid
    rw [validHex, Bool.and_eq_true] at hh
    rw [← h, Digest.toString, canonicalDigest, String.toList_append, stripPrefix_append]
    simpa using hh
  · simp at h

/-- An identity that the broker accepts is one that the receiver accepts. -/
theorem validSubjectId_of_validSubject {k id : String} (h : validSubject k id = true) :
    validSubjectId id = true ∧ (k = "run" → canonicalUuid id = true) ∧
      (k = "supply" → canonicalUid id = true) := by
  have ho : (fun c => Text.isWhitespace c || Text.isControl c) =
      fun c => Text.isControl c || Text.isWhitespace c := funext fun c => Bool.or_comm _ _
  simp only [validSubject, ho, Bool.not_eq_true', Bool.or_eq_false_iff,
    Bool.not_eq_false', Bool.and_eq_false_iff] at h
  obtain ⟨⟨⟨⟨hn, hi⟩, hc⟩, hr⟩, hs⟩ := h
  refine ⟨?_, ?_, ?_⟩
  · simp only [validSubjectId, bne, hn, hc, hi, Bool.not_false, Bool.and_self]
  · rintro rfl
    simpa using hr
  · rintro rfl
    simpa [canonicalUid] using hs

theorem validSubject_of_validate {subject : AttentionSubject}
    (h : subject.validate = .ok ()) : validateSubjectId (receivedSubject subject).2 = .ok () ∧
      ((receivedSubject subject).1 = .run → canonicalUuid (receivedSubject subject).2 = true) ∧
      ((receivedSubject subject).1 = .supply →
        canonicalUid (receivedSubject subject).2 = true) := by
  obtain ⟨hi, hr, hs⟩ := validSubjectId_of_validSubject (require_ok.mp h)
  cases subject with
  | session id => exact ⟨require_ok.mpr hi, by rintro ⟨⟩, by rintro ⟨⟩⟩
  | run id => exact ⟨require_ok.mpr hi, fun _ => hr rfl, by rintro ⟨⟩⟩
  | supply id => exact ⟨require_ok.mpr hi, by rintro ⟨⟩, fun _ => hs rfl⟩

theorem validateWithdrawal_received {d : WithdrawalDetails} (h : d.valid = true) :
    validateWithdrawal .endorsementWithdrawn (some (receivedWithdrawal d)) = .ok () := by
  simp only [WithdrawalDetails.valid, Bool.and_eq_true] at h
  obtain ⟨⟨⟨⟨hp, hw⟩, hb⟩, hs⟩, hc⟩ := h
  have hp' := canonicalDigest_of_shown hp
  have hw' := canonicalDigest_of_shown hw
  simp only [validateWithdrawal, receivedWithdrawal, check_ok, require_ok, hp', hw', hb, hc]
  rw [Bool.true_and, Bool.and_true]
  exact ⟨rfl, rfl, hs⟩

/-- What a key has to meet to pass its check. -/
theorem validateKey_ok {key : AttentionKey} (hi : validateSubjectId key.subjectId = .ok ())
    (hr : key.subjectKind = .run → validateUuid uuid key.subjectId "Run subject_id" = .ok ())
    (hs : key.subjectKind = .supply → canonicalUid key.subjectId = true ∧
      (key.kind = .skillApprovalPending ∨ key.kind = .endorsementWithdrawn))
    (hw : key.kind = .endorsementWithdrawn → key.subjectKind = .supply)
    (hop : validateUuid uuid key.sourceOperationId "source_operation_id" = .ok ()) :
    validateKey uuid key = .ok () := by
  have hl : (!(key.kind == .endorsementWithdrawn && key.subjectKind != .supply)) = true := by
    by_cases hk : key.kind = .endorsementWithdrawn
    · simp [hw hk]
    · simp [hk]
  unfold validateKey
  refine check_ok.mpr ⟨hi, ?_⟩
  dsimp only
  split
  · next hk =>
    refine check_ok.mpr ⟨hr hk, ?_⟩
    rw [if_neg (by simp [hk])]
    exact check_ok.mpr ⟨require_ok.mpr hl, hop⟩
  split
  · next hk =>
    obtain ⟨hu, hki⟩ := hs hk
    refine check_ok.mpr ⟨require_ok.mpr hu, check_ok.mpr ⟨?_, ?_⟩⟩
    · simpa using hki
    · exact check_ok.mpr ⟨require_ok.mpr hl, hop⟩
  · exact check_ok.mpr ⟨require_ok.mpr hl, hop⟩

theorem isSupply_iff (s : AttentionSubject) :
    (receivedSubject s).1 = .supply ↔ s.isSupply = true := by
  cases s <;> simp [receivedSubject, AttentionSubject.isSupply]

theorem ofSupply_eq (r : AttentionReason) :
    r.ofSupply = ((receivedReason r).1 == .skillApprovalPending ||
      (receivedReason r).1 == .endorsementWithdrawn) := by
  cases r <;> rfl

/-- A reason carries evidence exactly when it is a withdrawal. -/
theorem withdrawal_iff (r : AttentionReason) :
    (receivedReason r).1 = .endorsementWithdrawn ↔ ∃ d, r.withdrawal = some d := by
  cases r <;> simp [receivedReason, AttentionReason.withdrawal]

/-- The code of a reason is one of its kind. -/
theorem validateCode_received (r : AttentionReason) :
    validateCode (receivedReason r).1 (receivedReason r).2.1 none = .ok () := by
  cases r with
  | skillUnverified c => cases c <;> rfl
  | _ => rfl

/-- A condition that the broker accepts is received as a report that the store accepts. -/
theorem validateDraft_received (hu : ParsesCanonical uuid) {c : Broker.AttentionCondition}
    (h : c.validate = .ok ()) : validateDraft uuid (receivedDraft c) = .ok () := by
  unfold AttentionCondition.validate at h
  obtain ⟨hsu, h⟩ := check_ok.mp h
  obtain ⟨hi, hn, hs⟩ := validSubject_of_validate hsu
  simp only [require_ok, Bool.not_eq_true', Bool.or_eq_false_iff, Bool.not_eq_false'] at h
  obtain ⟨⟨⟨⟨hop, hc⟩, ho⟩, hd⟩, hl⟩ := h
  have hso : (receivedReason c.reason).1 = .endorsementWithdrawn →
      (receivedSubject c.subject).1 = .supply := by
    rw [withdrawal_iff, isSupply_iff]
    rintro ⟨d, hr⟩
    simp only [hr, Option.any_some, Bool.or_eq_false_iff, Bool.not_eq_false'] at hd
    exact hd.1
  have hf : (receivedSubject c.subject).1 = .supply →
      c.reason.ofSupply = true ∧ c.linkedRunId = none := by
    rw [isSupply_iff]
    intro hs
    simpa [hs] using ho
  have he : validateKey uuid (receivedDraft c).key = .ok () := by
    refine validateKey_ok hi (fun hk => ?_) (fun hk => ⟨hs hk, ?_⟩) hso
      (validateUuid_of_canonical hu hop _)
    · exact validateUuid_of_canonical hu (hn hk) _
    · have hr := (hf hk).1
      rw [ofSupply_eq, Bool.or_eq_true, beq_iff_eq, beq_iff_eq] at hr
      exact hr
  have hco : validateContext uuid (receivedDraft c).subjectKind
      (receivedDraft c).linkedRunId (receivedDraft c).stage = .ok () := by
    unfold validateContext
    refine check_ok.mpr ⟨require_ok.mpr ?_, check_ok.mpr ⟨?_, rfl⟩⟩
    · by_cases hk : (receivedSubject c.subject).1 = .supply
      · simp [receivedDraft, (hf hk).2]
      · simp [receivedDraft, hk]
    · change validateLinkedRun uuid c.linkedRunId = .ok ()
      cases hri : c.linkedRunId with
      | none => rfl
      | some id =>
        simp only [hri, Option.any_some, Bool.not_eq_false'] at hl
        exact validateUuid_of_canonical hu hl _
  have hw : validateWithdrawal (receivedDraft c).kind (receivedDraft c).withdrawal = .ok () := by
    change validateWithdrawal (receivedReason c.reason).1 (receivedReason c.reason).2.2 = .ok ()
    cases hr : c.reason with
    | endorsementWithdrawn d =>
      simp only [hr, AttentionReason.withdrawal, Option.any_some,
        Bool.or_eq_false_iff, Bool.not_eq_false'] at hd
      exact validateWithdrawal_received hd.2
    | _ => rfl
  simp only [validateDraft, check_ok, require_ok]
  exact ⟨he, bne_iff_ne.mpr (beq_eq_false_iff_ne.mp hc), hco, validateCode_received c.reason, hw⟩

/-- A change that the broker accepts is received as one that the store accepts. -/
theorem validateChange_received (hu : ParsesCanonical uuid) {c : Broker.ProjectionChange}
    (h : c.validate = .ok ()) : validateChange uuid (receivedChange c) = .ok () := by
  cases c with
  | upsert co => exact validateDraft_received hu h
  | clear co => exact (check_ok.mp (validateDraft_received hu h)).1
  | clearSubject s =>
    cases s with
    | supply id => simp [Broker.ProjectionChange.validate] at h
    | session id =>
      obtain ⟨hi, -⟩ := validSubject_of_validate h
      exact check_ok.mpr ⟨rfl, check_ok.mpr ⟨hi, rfl⟩⟩
    | run id =>
      obtain ⟨hi, hr, -⟩ := validSubject_of_validate h
      refine check_ok.mpr ⟨rfl, check_ok.mpr ⟨hi, ?_⟩⟩
      exact validateUuid_of_canonical hu (hr rfl) _

/-- Every entry that the broker can enqueue is read by the receiver as what it says, passes its
check and is digested there as the broker digests it. -/
theorem wire_accepted (sha256 : Sha256) (fmt : JsonFormat) (huuid : ParsesCanonical uuid)
    (entry : Broker.Projection) (hsequence : 1 ≤ entry.sequence)
    (hvalid : entry.change.validate = .ok ()) :
    ∃ projection, BrokerProjection.fromText fmt (fmt.print entry.wire) = some projection ∧
      projection = received entry ∧ validateProjection uuid projection = .ok () ∧
      projectionDigest sha256 (canonicalProjection fmt) projection = entry.digest sha256 fmt := by
  have hw := members_received entry
  refine ⟨received entry, ?_, rfl, ?_, ?_⟩
  · rw [BrokerProjection.fromText, ← hw, fmt.read_print _ (fits_projection _).normalize]
    exact ofJson_normalize_projection (received entry)
  · refine check_ok.mpr ⟨require_ok.mpr ?_, validateChange_received huuid hvalid⟩
    rw [bne_iff_ne]
    intro hz
    change entry.sequence = 0 at hz
    simp [hz] at hsequence
  · rw [projectionDigest, canonicalProjection, hw, Projection.digest]

end
/-- A supply whose endorsement was withdrawn, as an entry of the outbox. -/
def sampleEntry : Broker.Projection where
  sequence := 1
  mutationId := "withdrawal-1"
  change := .upsert {
    linkedRunId := none
    subject := .supply "1000"
    operationId := "00000000-0000-4000-8000-000000000001"
    createdAtMs := 1
    reason := .endorsementWithdrawn {
      packageDigest := "sha256:0000000000000000000000000000000000000000000000000000000000000000"
      withdrawalDigest := "sha256:1111111111111111111111111111111111111111111111111111111111111111"
      endorser := "reviewer"
      urgency := .reliedOn } }

/-- A parser for canonical UUIDs alone. -/
def canonicalOnly (value : String) : Option String :=
  if canonicalUuid value then some value else none

theorem wire_accepted_withdrawal :
    ∃ projection, BrokerProjection.fromText Compact.format (Compact.format.print sampleEntry.wire) =
        some projection ∧
      projection = received sampleEntry ∧ validateProjection canonicalOnly projection = .ok () ∧
      projectionDigest (fun _ => Vector.replicate 32 0)
          (canonicalProjection Compact.format) projection =
        sampleEntry.digest (fun _ => Vector.replicate 32 0) Compact.format :=
  wire_accepted (fun _ => Vector.replicate 32 0) Compact.format (fun _ h => if_pos h) sampleEntry
    (by decide) (by decide +kernel)

end Louiselm.Attention
