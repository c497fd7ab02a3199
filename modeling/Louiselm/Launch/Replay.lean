import Louiselm.Launch.Protocol
import Louiselm.Launch.ReceiptHistory

/-!
# Executing a lifecycle request and replaying it

What `evaluate_request` of `skills-core/src/launch_protocol.rs` authorizes becomes a receipt
that validates and that the receipt chain accepts after the launcher head. An exact retry
finds that receipt again when the launcher head was also the broker's.
-/

namespace Louiselm.Launch.Protocol
open Base Canonical List Option Compact SupervisorStatus ReceiptIntent Verify Except

/-! ### Transitions -/

variable {action : LifecycleAction} {a : Authorization}

/-- The public transitions are those the receipt chain admits for an authorized outcome. -/
theorem transition_ok {pre l : SessionState} : transition pre action = .ok l ↔
      validTransition pre (action.outcome a) l = true := by
  cases pre <;> cases action <;> cases l <;>
    simp [transition, validTransition, LifecycleAction.outcome]

theorem resultMatches_of_validTransition {pre l : SessionState} {o : ReceiptOutcome}
    (h : validTransition pre o l = true) : o.resultMatches l = true := by
  cases validTransition_iff.mp h <;> rfl

@[simp] theorem authorizedLifecycleOutcome_outcome {r : SignedReceipt}
    (h : r.payload.outcome = action.outcome a) :
    authorizedLifecycleOutcome r = some (a, action) := by
  cases action <;> simp [authorizedLifecycleOutcome, h, LifecycleAction.outcome]

/-! ### Accepted statuses and requests -/

variable {status : SupervisorStatus} {launcher : ReceiptHead}

/-- The launcher head of an accepted status is the broker's when their sequences are equal. -/
theorem SupervisorStatus.launcherHead_eq_brokerHead (h : status.validate = .ok ()) {b : ReceiptHead}
    (hl : status.launcherHead = some launcher) (hb : status.brokerHead = some b)
    (he : launcher.sequence = b.sequence) : launcher = b := by
  simp only [validate, validateStatusShape, check_ok] at h
  obtain ⟨-, -, -, -, -, -, h⟩ := h
  obtain ⟨gap, hg, -⟩ := bind_ok.mp h
  have hn : ¬ launcher.sequence > b.sequence := by simp [he]
  simp only [signedGap, hl, hb, if_neg hn] at hg
  split at hg
  · next hs =>
    cases launcher
    cases b
    rw [ReceiptHead.mk.injEq]
    exact hs
  · simp at hg

theorem SupervisorStatus.launcherHead_digest (h : status.validate = .ok ())
    (hl : status.launcherHead = some launcher) : isCanonicalDigest launcher.digest = true := by
  simp only [validate, validateStatusShape, check_ok] at h
  have he : validateDigest launcher.digest = .ok () := by
    have hh := h.2.2.2.2.1
    rwa [hl, forM_some] at hh
  exact require_ok.mp he

/-! ### Execution -/

section

variable {sha256 : Sha256} {fmt : JsonFormat} {status : SupervisorStatus}
  {request : LifecycleRequest} {intent : ReceiptIntent}

variable (sha256 fmt) in
/-- What an intent is built from. -/
structure Executes (status : SupervisorStatus) (request : LifecycleRequest) (head : ReceiptHead)
    (intent : ReceiptIntent) : Prop where
  accepted : status.validate = .ok ()
  wellFormed : request.validate = .ok ()
  session : request.sessionId = status.sessionId
  run : request.runId = status.runId
  state : request.expectedState = status.state
  sequence : request.expectedReceiptSequence = status.currentSequence
  revision : request.envelopeRevision = status.envelopeRevision
  transition : transition status.state request.action = .ok intent.resultingState
  launcher : status.launcherHead = some head
  next : intent.sequence.toNat = head.sequence.toNat + 1
  built : intent = ⟨request.sessionId, request.runId, request.authorizationId,
    request.requestId, (request.digest sha256 fmt).toString, request.action,
    request.envelopeRevision, intent.sequence, head.digest, intent.resultingState⟩

theorem evaluateRequest_execute
    (h : evaluateRequest sha256 fmt status none request = .ok (.execute intent)) :
    ∃ head, Executes sha256 fmt status request head intent := by
  simp only [evaluateRequest, check_ok, require_ok, Bool.and_eq_true, beq_iff_eq] at h
  obtain ⟨ht, hr, ⟨hs, hu⟩, -, -, hst, he, hv, h⟩ := h
  obtain ⟨r, htr, h⟩ := bind_ok.mp h
  split at h
  · simp at h
  · next head hh =>
    split at h
    · next hn =>
      obtain rfl := RequestDisposition.execute.inj (ok.inj h)
      have hsu : nextSequence head.sequence = .ok (head.sequence + 1) := if_pos hn
      exact ⟨head, ht, hr, hs, hu, hst, he, hv, mapError_ok.mp htr, hh, nextSequence_ok.mp hsu, rfl⟩
    · simp at h

/-! ### The statement -/

variable {v : String}

theorem utf8ByteSize_of_isCanonicalDigest (h : isCanonicalDigest v = true) :
    v.utf8ByteSize = 71 := by
  unfold isCanonicalDigest at h
  split at h
  · next d _ => rw [← beq_iff_eq.mp h, d.utf8ByteSize_toString]
  · simp at h

theorem weight_identifier (h : validateIdentifier v = .ok ()) : weight (toJson v) ≤ 770 := by
  have hs : v.utf8ByteSize ≤ 128 := by
    simp only [validateIdentifier, require_ok, Text.bounded, Bool.and_eq_true,
      decide_eq_true_eq] at h
    exact h.1.2
  change 6 * v.utf8ByteSize + 2 ≤ 770
  omega

theorem weight_digest (h : isCanonicalDigest v = true) : weight (toJson v) = 428 := by
  change 6 * v.utf8ByteSize + 2 = 428
  rw [utf8ByteSize_of_isCanonicalDigest h]

theorem LifecycleRequest.validate_eq_ok (h : request.validate = .ok ()) :
    validateIdentifier request.requestId = .ok () ∧ validateIdentifier request.sessionId = .ok () ∧
      validateIdentifier request.runId = .ok () ∧
      validateIdentifier request.authorizationId = .ok () := by
  simp only [validate, check_ok] at h
  exact ⟨h.2.2.1, h.2.2.2.1, h.2.2.2.2.1, h.2.2.2.2.2.1⟩

theorem weight_tagged (tag n key : String) (v : Json) : weight (.obj [(tag, .str n), (key, v)]) =
      6 * (tag.utf8ByteSize + n.utf8ByteSize + key.utf8ByteSize) + 12 +
        weight v := by
  simp only [weight, weightMembers]
  omega

variable {a : Authorization}

/-- An authorization of bounded identifiers and a digest makes a small outcome. -/
theorem weight_outcome (action : LifecycleAction)
    (hi : validateIdentifier a.authorizationId = .ok ())
    (hr : validateIdentifier a.requestId = .ok ()) (hd : isCanonicalDigest a.requestDigest = true) :
    weight (toJson (action.outcome a)) ≤ 2500 := by
  have hi := weight_identifier hi
  have hr := weight_identifier hr
  have hd := weight_digest hd
  have hms : weight (.obj a.members) ≤ 2222 := by
    have hk : (a.members.map (·.1.utf8ByteSize)).sum = 40 := rfl
    rw [weight_obj, hk]
    simp only [Authorization.members, map_cons, map_nil, sum_cons, sum_nil, length_cons, length_nil]
    omega
  have ha : weight (toJson (ReceiptAuthority.authorized a)) ≤ 2312 := by
    change weight (.obj (("kind", .str "authorized") :: a.members)) ≤ _
    rw [weight, weightMembers]
    rw [weight] at hms
    have hki : 6 * "kind".utf8ByteSize + 4 + weight (.str "authorized") = 90 := rfl
    omega
  cases action with
  | park =>
    have hn : "action".utf8ByteSize + "park".utf8ByteSize + "authority".utf8ByteSize = 19 := rfl
    have hw := weight_tagged "action" "park" "authority" (toJson (ReceiptAuthority.authorized a))
    change weight (.obj _) ≤ _
    exact hw.trans_le (by omega)
  | resume =>
    have hn :
        "action".utf8ByteSize + "resume".utf8ByteSize + "authorization".utf8ByteSize = 25 := rfl
    have hw := weight_tagged "action" "resume" "authorization" (.obj a.members)
    exact hw.trans_le (by omega)
  | interrupt =>
    have hn :
        "action".utf8ByteSize + "interrupt".utf8ByteSize + "authorization".utf8ByteSize = 28 := rfl
    have hw := weight_tagged "action" "interrupt" "authorization" (.obj a.members)
    exact hw.trans_le (by omega)
  | disposal =>
    have hn : "action".utf8ByteSize + "disposal".utf8ByteSize + "authority".utf8ByteSize = 23 := rfl
    have hw := weight_tagged "action" "disposal" "authority" (toJson
      (ReceiptAuthority.authorized a))
    exact hw.trans_le (by omega)

variable {pl : ReceiptPayload}

/-- A payload of bounded identifiers and digests with a small outcome is small. -/
theorem weight_payload {p : String} (hc : pl.schema = receiptSchema)
    (hs : validateIdentifier pl.sessionId = .ok ()) (hu : validateIdentifier pl.runId = .ok ())
    (he : validateIdentifier pl.requestId = .ok ()) (hpr : pl.previousReceiptDigest = some p)
    (hp : isCanonicalDigest p = true) (hr : isCanonicalDigest pl.releaseId = true)
    (hy : isCanonicalDigest pl.signingKeyId = true) (ht : weight (toJson pl.outcome) ≤ 2500) :
    weight (toJson pl) ≤ 8192 := by
  have hk : (pl.members.map (·.1.utf8ByteSize)).sum = 126 := rfl
  have hst : weight (toJson pl.resultingState) ≤ 50 := by
    cases pl.resultingState <;> decide
  have hn : weight (toJson receiptSchema) = 152 := rfl
  have hm : ∀ n : UInt64, weight (toJson n) = 24 := fun _ => rfl
  have ho : weight (toJson (some p)) = weight (toJson p) :=
    rfl
  change weight (.obj pl.members) ≤ _
  rw [weight_obj, hk]
  simp only [ReceiptPayload.members, hpr, hc, map_cons, map_nil,
    sum_cons, sum_nil, length_cons, length_nil, hn, hm, ho,
    weight_digest hp, weight_digest hr, weight_digest hy]
  have := weight_identifier he
  have := weight_identifier hs
  have := weight_identifier hu
  omega

variable {head : ReceiptHead} {releaseId signingKeyId : String}

/-- The statement of an intent fits a receipt. -/
theorem checkSize_statement (h : Executes sha256 format status request head intent)
    (hr : isCanonicalDigest releaseId = true) (hk : isCanonicalDigest signingKeyId = true) :
    checkSize ((intent.statement releaseId signingKeyId).canonicalBytes format) = .ok () := by
  obtain ⟨hi, hs, hu, ha⟩ :=
    LifecycleRequest.validate_eq_ok h.wellFormed
  have hb : weight (toJson (intent.statement releaseId signingKeyId)) ≤ 8192 := by
    rw [h.built]
    refine weight_payload rfl hs hu hi rfl (launcherHead_digest h.accepted h.launcher) hr hk ?_
    exact weight_outcome request.action ha hi (isCanonicalDigest_toString _)
  rw [checkSize, require_ok, decide_eq_true_eq, maxReceiptBytes]
  exact (length_toVec_le _).trans (by omega)

/-- Both protocols bound identifiers alike. -/
theorem validateIdentifier_receipt (h : validateIdentifier v = .ok ()) (f : String) :
    Launch.validateIdentifier f v = .ok () :=
  require_ok.mpr (require_ok.mp h)

theorem validateLater_authorized (ho : pl.outcome.authorization = some a) (he : pl.sequence ≠ 0)
    (hi : validateIdentifier a.authorizationId = .ok ())
    (hr : validateIdentifier a.requestId = .ok ()) (hd : isCanonicalDigest a.requestDigest = true)
    (hs : a.requestId = pl.requestId) : pl.validateLater = .ok () := by
  rw [ReceiptPayload.validateLater, if_neg he, ho]
  simp only [validateAuthorization, check_ok]
  exact ⟨validateIdentifier_receipt hi _, validateIdentifier_receipt hr _,
    require_ok.mpr hd, require_ok.mpr (beq_iff_eq.mpr hs)⟩

theorem validateOutcome_authorized {action : LifecycleAction} (ho : pl.outcome = action.outcome a)
    (hl : pl.validateLater = .ok ()) : pl.validateOutcome sha256 fmt = .ok () := by
  unfold ReceiptPayload.validateOutcome
  rw [ho]
  cases action <;> exact hl

theorem validatePredecessor_some {p : String} (h : pl.previousReceiptDigest = some p)
    (hs : pl.sequence ≠ 0) (hd : isCanonicalDigest p = true) : pl.validatePredecessor = .ok () := by
  rw [ReceiptPayload.validatePredecessor, h]
  exact (if_neg hs).trans (require_ok.mpr hd)

theorem authorization_outcome (action : LifecycleAction) (a : Authorization) :
    (action.outcome a).authorization = some a := by
  cases action <;> rfl

/-- The statement of an intent validates under every measured release and key. -/
theorem validate_statement (h : Executes sha256 format status request head intent)
    (hr : isCanonicalDigest releaseId = true) (hk : isCanonicalDigest signingKeyId = true) :
    (intent.statement releaseId signingKeyId).validate sha256 format = .ok () := by
  obtain ⟨hi, hs, hu, ha⟩ :=
    LifecycleRequest.validate_eq_ok h.wellFormed
  have he : intent.sequence ≠ 0 := by
    intro hz
    have := h.next
    rw [hz] at this
    simp at this
  have hres : (intent.statement releaseId signingKeyId).outcome.resultMatches
      intent.resultingState = true := by
    rw [h.built]
    exact resultMatches_of_validTransition (transition_ok.mp h.transition)
  have hsi := checkSize_statement h hr hk
  rw [h.built] at hsi hres ⊢
  simp only [ReceiptPayload.validate, check_ok]
  refine ⟨hsi, require_ok.mpr (beq_self_eq_true _), validateIdentifier_receipt hs _,
    validateIdentifier_receipt hu _, validateIdentifier_receipt hi _, require_ok.mpr hr,
    require_ok.mpr hk, ?_, ?_, require_ok.mpr hres⟩
  · exact validatePredecessor_some rfl he (launcherHead_digest h.accepted h.launcher)
  · refine validateOutcome_authorized rfl ?_
    exact validateLater_authorized (authorization_outcome ..) he ha hi
      (isCanonicalDigest_toString _) rfl

/-! ### The receipt chain -/

/-- The verified head that a status names as its launcher head, of a chain under one release
and key, before a request. -/
structure Trusts (status : SupervisorStatus) (request : LifecycleRequest)
    (releaseId signingKeyId : String) (trusted : VerifiedReceiptHead) : Prop where
  anchor : trusted.anchor = ⟨status.sessionId, status.runId, releaseId, signingKeyId⟩
  launcher : status.launcherHead = some ⟨trusted.sequence, trusted.receiptDigest⟩
  state : trusted.state = status.state
  revision : trusted.envelopeRevision ≤ status.envelopeRevision
  fresh : request.requestId ∉ trusted.requestIds

variable {t : VerifiedReceiptHead}

theorem Trusts.validateHead (ht : Trusts status request releaseId signingKeyId t)
    (h : Executes sha256 fmt status request head intent) (hr : isCanonicalDigest releaseId = true)
    (hk : isCanonicalDigest signingKeyId = true) : Launch.validateHead t = .ok () := by
  obtain ⟨-, hs, hu, -⟩ := LifecycleRequest.validate_eq_ok h.wellFormed
  have hd := launcherHead_digest h.accepted ht.launcher
  rw [validateHead_ok, ht.anchor]
  refine ⟨?_, hd⟩
  have hr : Launch.validateDigest "release_id" releaseId = .ok () := require_ok.mpr hr
  have hk : Launch.validateDigest "signing_key_id" signingKeyId = .ok () := require_ok.mpr hk
  have hs := validateIdentifier_receipt (h.session ▸ hs) "session_id"
  have hu := validateIdentifier_receipt (h.run ▸ hu) "run_id"
  simp only [validateAnchor, hr, hk, hs, hu, ok_bind]

variable {rc : SignedReceipt}

/-- The chain's checks pass on a valid receipt of the statement. -/
theorem Trusts.checkNext (ht : Trusts status request releaseId signingKeyId t)
    (h : Executes sha256 fmt status request head intent)
    (hr : rc.payload = intent.statement releaseId signingKeyId)
    (hv : rc.validate sha256 fmt = .ok ()) : Launch.checkNext sha256 fmt t rc = .ok () := by
  have hh : head = ⟨t.sequence, t.receiptDigest⟩ :=
    some.inj (h.launcher.symm.trans ht.launcher)
  have hn : nextSequence t.sequence = .ok intent.sequence := by
    rw [nextSequence_ok, h.next, hh]
  have hp : rc.payload.pins = t.anchor := by
    rw [hr, ht.anchor, ReceiptPayload.pins, h.built, ← h.session, ← h.run]
    rfl
  have htr : validTransition t.state rc.payload.outcome rc.payload.resultingState = true := by
    rw [hr, ht.state, h.built]
    exact transition_ok.mp h.transition
  rw [Launch.checkNext, hv, hn]
  simp only [ok_bind, check_ok, require_ok, beq_iff_eq, decide_eq_true_eq, checkHeadPinned,
    checkPinned_ok, htr, hp, true_and]
  rw [hr, h.built, hh]
  refine ⟨rfl, rfl, ?_, ht.fresh⟩
  rw [statement, h.revision]
  exact ht.revision

/-- One receipt that passes its checks and its signature is accepted after a valid head. -/
theorem verifySuffix_singleton {σ : Type} {vs : SignatureVerifier σ} {s n : σ}
    (hv : Launch.validateHead t = .ok ()) (hc : Launch.checkNext sha256 fmt t rc = .ok ())
    (hs : vs rc.payload.signingKeyId (rc.payload.canonicalBytes fmt) rc.signature s = (true, n)) :
    Verify.from s (verifySuffix sha256 fmt vs [rc] t) = (.ok (advance sha256 fmt t rc), n) := by
  have ho : Verify.from s (verifyOne fmt vs rc) = (.ok (), n) := by
    rw [verifyOne, from_bind_ok]
    refine ⟨true, n, ?_, rfl⟩
    change (Except.ok (vs _ _ _ s).1, (vs _ _ _ s).2) = _
    rw [hs]
  rw [verifySuffix_eq [rc] hv, verifyAfter, foldlM_cons, from_bind_ok]
  refine ⟨_, n, ?_, rfl⟩
  rw [verifyNext, from_bind_ok]
  refine ⟨(), s, by rw [from_check, hc], ?_⟩
  rw [from_bind_ok]
  exact ⟨(), n, ho, rfl⟩

/-! ### The retry -/

/-- A retry expects the receipt's sequence exactly when the launcher head was the broker's. -/
theorem Executes.sequence_iff (h : Executes sha256 fmt status request head intent) :
    (some intent.sequence == request.expectedReceiptSequence.bind fun v =>
      if v.toNat + 1 < UInt64.size then some (v + 1) else none) = true ↔
        status.launcherHead = status.brokerHead := by
  rw [beq_iff_eq, h.sequence, h.launcher, currentSequence]
  cases hb : status.brokerHead with
  | none => simp
  | some b =>
    simp only [map_some, bind_some, some.injEq]
    have hn := h.next
    constructor
    · intro he
      refine launcherHead_eq_brokerHead h.accepted h.launcher hb ?_
      split at he
      · next hl =>
        have hs : nextSequence b.sequence = .ok (b.sequence + 1) := if_pos hl
        rw [nextSequence_ok, ← some.inj he] at hs
        rw [← UInt64.toNat_inj]
        omega
      · simp at he
    · rintro rfl
      have hs := nextSequence_ok.mpr h.next
      unfold nextSequence at hs
      split at hs
      · next hl => rw [if_pos hl, ok.inj hs]
      · simp at hs

section

variable {c : CompletedRequest} {seq : Option UInt64}

theorem validateCompleted_error {s : SessionState} {e : ProtocolError}
    (h : validateCompleted sha256 fmt c s seq = .error e) :
    e = .new .receiptChainInvalid (some s) seq := by
  unfold validateCompleted at h
  obtain h | ⟨-, -, h⟩ := bind_eq_error.mp h
  · exact mapError_const_error h
  obtain h | ⟨-, -, h⟩ := bind_eq_error.mp h
  · exact mapError_const_error h
  obtain h | ⟨-, -, h⟩ := bind_eq_error.mp h
  · exact mapError_const_error h
  split at h
  · exact (error.inj h).symm
  · exact require_error h

theorem validateReplay_error {s : SessionState} {e : ProtocolError}
    (h : validateReplay c request s seq = .error e) :
    e = .new .receiptChainInvalid (some s) seq := by
  unfold validateReplay at h
  dsimp only at h
  split at h
  · exact (error.inj h).symm
  obtain h | ⟨_, -, h⟩ := bind_eq_error.mp h
  · exact mapError_const_error h
  · exact require_error h

variable {head : ReceiptHead} {releaseId signingKeyId : String} {rc : SignedReceipt}

theorem Executes.authorized (h : Executes sha256 fmt status request head intent)
    (hr : rc.payload = intent.statement releaseId signingKeyId) :
    authorizedLifecycleOutcome rc = some (⟨request.authorizationId, request.requestId,
        (request.digest sha256 fmt).toString⟩, request.action) := by
  refine authorizedLifecycleOutcome_outcome ?_
  rw [hr, h.built]
  rfl

theorem Executes.validateCompleted (h : Executes sha256 fmt status request head intent)
    (hr : rc.payload = intent.statement releaseId signingKeyId) (s : SessionState)
    (seq : Option UInt64) :
    validateCompleted sha256 fmt (.new sha256 fmt request rc) s seq = .ok () ↔
      rc.validate sha256 fmt = .ok () := by
  have hi := (LifecycleRequest.validate_eq_ok h.wellFormed).1
  have hd : validateDigest (request.digest sha256 fmt).toString = .ok () :=
    require_ok.mpr (isCanonicalDigest_toString _)
  have hs : rc.payload.requestId = request.requestId := by
    rw [hr, h.built]
    rfl
  simp [Protocol.validateCompleted, CompletedRequest.new, h.authorized hr, hi, hd, hs]

theorem Executes.validateReplay (h : Executes sha256 fmt status request head intent)
    (hr : rc.payload = intent.statement releaseId signingKeyId) (s : SessionState)
    (seq : Option UInt64) : validateReplay (.new sha256 fmt request rc) request s seq = .ok () ↔
      status.launcherHead = status.brokerHead := by
  have ht : Protocol.transition request.expectedState request.action =
      .ok intent.resultingState := by rw [h.state, h.transition]
  have he : rc.payload.resultingState = intent.resultingState := by
    rw [hr, statement]
  have hq : rc.payload.sequence = intent.sequence := by
    rw [hr, statement]
  have hs : rc.payload.sessionId = request.sessionId ∧ rc.payload.runId = request.runId ∧
      rc.payload.envelopeRevision = request.envelopeRevision := by
    rw [hr, h.built]
    exact ⟨rfl, rfl, rfl⟩
  rw [← h.sequence_iff]
  simp [Protocol.validateReplay, CompletedRequest.new, h.authorized hr, ht,
    he, hq, hs, Except.mapError]

/-- What an exact retry of an executed request answers for a receipt of the statement. -/
theorem Executes.retry (h : Executes sha256 fmt status request head intent)
    (hrc : rc.payload = intent.statement releaseId signingKeyId) {l : SupervisorStatus}
    (hl : l.validate = .ok ()) (hs : l.sessionId = status.sessionId) (hu : l.runId = status.runId) :
    evaluateRequest sha256 fmt l (some (.new sha256 fmt request rc)) request =
      if rc.validate sha256 fmt = .ok () ∧ status.launcherHead = status.brokerHead then
        .ok (.replay rc)
      else .error (.new .receiptChainInvalid (some l.state) l.currentSequence) := by
  have hsu : (request.sessionId == l.sessionId && request.runId == l.runId) = true := by
    simp [hs, hu, h.session, h.run]
  have ht : evaluateRequest sha256 fmt l (some (.new sha256 fmt request rc)) request = (do
        Protocol.validateCompleted sha256 fmt (.new sha256 fmt request rc) l.state
          l.currentSequence
        Protocol.validateReplay (.new sha256 fmt request rc) request l.state
          l.currentSequence
        return .replay rc) := by
    rw [evaluateRequest, hl, h.wellFormed]
    simp [hsu, require, CompletedRequest.new]
  have ho := h.validateCompleted hrc l.state l.currentSequence
  have he := h.validateReplay hrc l.state l.currentSequence
  rw [ht]
  cases hc : Protocol.validateCompleted sha256 fmt (.new sha256 fmt request rc)
      l.state l.currentSequence with
  | error error =>
    have hi : ¬ rc.validate sha256 fmt = .ok () := by
      rw [← ho, hc]
      simp
    rw [if_neg fun hb => hi hb.1, validateCompleted_error hc]
    rfl
  | ok _ =>
    cases hr : Protocol.validateReplay (.new sha256 fmt request rc) request l.state
        l.currentSequence with
    | error error =>
      have ha : ¬ status.launcherHead = status.brokerHead := by
        rw [← he, hr]
        simp
      rw [if_neg fun hb => ha hb.2, validateReplay_error hr]
      rfl
    | ok _ => rw [if_pos ⟨ho.mp hc, he.mp hr⟩]; rfl

end
end

/-- What an executed lifecycle request leaves. Its statement validates under every measured
release and key, and the receipt chain accepts every valid and verified receipt of it after
the launcher head that the intent was built from. An exact retry replays exactly the valid
receipts of the statement when the launcher head was also the broker's, and none when the
launcher was ahead. -/
theorem evaluateRequest_retry (sha256 : Sha256) (status : SupervisorStatus)
    (request : LifecycleRequest) (intent : ReceiptIntent)
    (h : evaluateRequest sha256 format status none request = .ok (.execute intent))
    (releaseId signingKeyId : String) (hrelease : isCanonicalDigest releaseId = true)
    (hkey : isCanonicalDigest signingKeyId = true) : ∃ payload,
      intent.receiptPayload sha256 format releaseId signingKeyId = .ok payload ∧
      payload.validate sha256 format = .ok () ∧
      (∀ trusted, Trusts status request releaseId signingKeyId trusted → ∀ receipt,
        receipt.payload = payload → receipt.validate sha256 format = .ok () →
        ∀ (σ : Type) (verifySignature : SignatureVerifier σ) (state next : σ),
          verifySignature payload.signingKeyId (payload.canonicalBytes format)
              receipt.signature state = (true, next) →
          Verify.from state (verifySuffix sha256 format verifySignature [receipt] trusted) =
            (.ok (advance sha256 format trusted receipt), next)) ∧
      ∀ receipt, receipt.payload = payload → ∀ later : SupervisorStatus,
        later.validate = .ok () → later.sessionId = status.sessionId → later.runId = status.runId →
          (evaluateRequest sha256 format later
              (some (.new sha256 format request receipt)) request = .ok (.replay receipt) ↔
            receipt.validate sha256 format = .ok () ∧ status.launcherHead = status.brokerHead) := by
  obtain ⟨head, h⟩ := evaluateRequest_execute h
  have hv := validate_statement h hrelease hkey
  refine ⟨intent.statement releaseId signingKeyId, ?_, hv, ?_, ?_⟩
  · rw [receiptPayload, hv]
    rfl
  · intro trusted ht receipt hr hrv σ verifySignature state next hi
    rw [← hr] at hi
    exact verifySuffix_singleton (ht.validateHead h hrelease hkey) (ht.checkNext h hr hrv) hi
  · intro receipt hr later hl hs hu
    rw [h.retry hr hl hs hu]
    split <;> simp_all

/-! ### A backlog -/

def zeroHash : Sha256 := fun _ => Vector.replicate 32 0

def zeroText : String := (Digest.fromRaw (Vector.replicate 32 0)).toString

theorem zeroText_canonical : isCanonicalDigest zeroText = true :=
  isCanonicalDigest_toString _

/-- A running Session whose launcher is one receipt ahead of the broker. -/
def backlog : SupervisorStatus where
  schema := supervisorStatusSchema
  protocolVersion := protocolVersion
  sessionId := "session"
  runId := "run"
  state := .running
  brokerConnection := .connected
  envelopeRevision := 7
  channelState := .enabled
  launcherHead := some ⟨2, zeroText⟩
  brokerHead := some ⟨1, zeroText⟩
  pendingReceiptCount := 1
  pendingOperation := none
  processExit := none
  lastFailure := none

/-- The Session once it is parked and its receipts are acknowledged. -/
def caughtUp : SupervisorStatus :=
  { backlog with
    state := .parked
    channelState := .revoked
    launcherHead := some ⟨3, zeroText⟩
    brokerHead := some ⟨3, zeroText⟩
    pendingReceiptCount := 0 }

def parkRequest : LifecycleRequest where
  schema := lifecycleRequestSchema
  protocolVersion := protocolVersion
  requestId := "request"
  sessionId := "session"
  runId := "run"
  authorizationId := "authorization"
  action := .park
  expectedState := .running
  expectedReceiptSequence := some 1
  envelopeRevision := 7

def parkIntent : ReceiptIntent where
  sessionId := "session"
  runId := "run"
  authorizationId := "authorization"
  requestId := "request"
  requestDigest := zeroText
  action := .park
  envelopeRevision := 7
  sequence := 3
  previousReceiptDigest := zeroText
  resultingState := .parked

def parkReceipt : SignedReceipt where
  schema := signedReceiptSchema
  payload := parkIntent.statement zeroText zeroText
  signature := "armored"

private theorem backlog_validate : backlog.validate = .ok () := by
  have hh : validateDigest zeroText = .ok () := require_ok.mpr zeroText_canonical
  simp only [validate, validateStatusShape, backlog, forM_some, hh]
  decide

private theorem caughtUp_validate : caughtUp.validate = .ok () := by
  have hh : validateDigest zeroText = .ok () := require_ok.mpr zeroText_canonical
  simp only [validate, validateStatusShape, caughtUp, backlog, forM_some, hh]
  decide

private theorem backlog_executes :
    evaluateRequest zeroHash format backlog none parkRequest = .ok (.execute parkIntent) := by
  have hr : parkRequest.validate = .ok () := by decide
  rw [evaluateRequest, backlog_validate, hr]
  rfl

private theorem parkReceipt_validate : parkReceipt.validate zeroHash format = .ok () := by
  obtain ⟨head, h⟩ := evaluateRequest_execute backlog_executes
  have hp : parkReceipt.payload.validate zeroHash format = .ok () :=
    validate_statement h zeroText_canonical zeroText_canonical
  have hs : checkSize (parkReceipt.canonicalBytes format) = .ok () := by
    rw [checkSize, require_ok, decide_eq_true_eq, maxReceiptBytes]
    exact (length_toVec_le parkReceipt).trans (by decide)
  simp only [SignedReceipt.validate, check_ok]
  exact ⟨hs, by decide, by decide, hp⟩

theorem evaluateRequest_retry_backlog :
    ∃ payload, parkIntent.receiptPayload zeroHash format zeroText zeroText = .ok payload ∧
      payload.validate zeroHash format = .ok () :=
  let ⟨payload, hp, hv, _⟩ := evaluateRequest_retry zeroHash backlog parkRequest parkIntent
    backlog_executes zeroText zeroText zeroText_canonical zeroText_canonical
  ⟨payload, hp, hv⟩

/-- A Park completed from a backlog is never replayed: its receipt has sequence 3, and the
request that observed the broker's sequence 1 expects sequence 2. -/
theorem retry_backlog_refused : evaluateRequest zeroHash format backlog none parkRequest =
        .ok (.execute parkIntent) ∧ parkIntent.receiptPayload zeroHash format zeroText zeroText =
        .ok parkReceipt.payload ∧ parkReceipt.validate zeroHash format = .ok () ∧
      caughtUp.validate = .ok () ∧ evaluateRequest zeroHash format caughtUp
          (some (.new zeroHash format parkRequest parkReceipt)) parkRequest =
        .error (.new .receiptChainInvalid (some .parked) (some 3)) := by
  obtain ⟨head, h⟩ := evaluateRequest_execute backlog_executes
  have hp := validate_statement h zeroText_canonical zeroText_canonical
  have ha : ¬ backlog.launcherHead = backlog.brokerHead := by decide
  refine ⟨backlog_executes, ?_, parkReceipt_validate, caughtUp_validate, ?_⟩
  · rw [receiptPayload, hp]
    rfl
  · have hr := h.retry (show parkReceipt.payload = _ from rfl) caughtUp_validate rfl rfl
    rw [hr, if_neg fun hb => ha hb.2]
    rfl

end Louiselm.Launch.Protocol
