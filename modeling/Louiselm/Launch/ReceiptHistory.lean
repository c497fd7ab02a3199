import Louiselm.Base.JsonCompact
import Louiselm.Launch.ReceiptChain

/-!
# What an accepted receipt chain is

The lifecycle that `verify_chain` of `skills-core/src/launch_receipt.rs` admits, and the
history that its head pins. An accepted chain is described one receipt at a time; the shape
of the whole chain and the links between its envelopes follow by induction on it.
-/

namespace Louiselm.Launch
open Base Canonical List Option ReceiptOutcome Compact SignedReceipt

/-! ### The shape of a chain -/

/-- The two actions that must take turns. -/
inductive ParkMove where
  | park
  | resume
deriving DecidableEq, Repr

def ReceiptOutcome.isLaunch : ReceiptOutcome → Bool
  | .launch .. => true
  | _ => false

def ReceiptOutcome.isStart : ReceiptOutcome → Bool
  | .start .. => true
  | _ => false

def ReceiptOutcome.parkMove : ReceiptOutcome → Option ParkMove
  | .park _ => some .park
  | .resume _ => some .resume
  | _ => none

/-- The parks and resumes of a chain, in order. -/
def parkMoves (receipts : List SignedReceipt) : List ParkMove :=
  receipts.filterMap fun receipt => receipt.payload.outcome.parkMove

/-- A property of every receipt of a chain and its position. -/
def EachAt (receipts : List SignedReceipt) (P : Nat → SignedReceipt → Prop) : Prop :=
  ∀ (i : Nat) (receipt : SignedReceipt), receipts[i]? = some receipt → P i receipt

/-- The lifecycle of one Session under its pinned identities. -/
structure ChainShape (anchor : ChainAnchor) (receipts : List SignedReceipt) : Prop where
  nonempty : receipts ≠ []
  sequence : EachAt receipts fun i receipt => receipt.payload.sequence.toNat = i
  launch : EachAt receipts fun i receipt => receipt.payload.outcome.isLaunch = true ↔ i = 0
  start : EachAt receipts fun i receipt => receipt.payload.outcome.isStart = true → i = 1
  requestIds : (receipts.map fun receipt => receipt.payload.requestId).Nodup
  revisions : receipts.Pairwise fun a b => a.payload.envelopeRevision ≤ b.payload.envelopeRevision
  pinned : ∀ receipt ∈ receipts, receipt.payload.pins = anchor
  terminal : EachAt receipts fun i receipt =>
    receipt.payload.resultingState = .terminal → i + 1 = receipts.length
  alternate : (parkMoves receipts).IsChain (· ≠ ·)
  parkFirst : (parkMoves receipts).head? ≠ some .resume

/-- What the head remembers of the chain before it. -/
structure Summary (receipts : List SignedReceipt) (head : VerifiedReceiptHead) : Prop where
  sequence : head.sequence.toNat + 1 = receipts.length
  requestIds : ∀ id, id ∈ head.requestIds ↔ ∃ receipt ∈ receipts, receipt.payload.requestId = id
  revision : ∀ receipt ∈ receipts, receipt.payload.envelopeRevision ≤ head.envelopeRevision
  starting : head.state = .starting → receipts.length = 1 ∧ parkMoves receipts = []
  terminal : ∀ receipt ∈ receipts, receipt.payload.resultingState = .terminal →
    head.state = .terminal
  running : head.state = .running → (parkMoves receipts).getLast? ≠ some .park
  parked : head.state = .parked → (parkMoves receipts).getLast? = some .park

private theorem isLaunch_iff {out : ReceiptOutcome} :
    out.isLaunch = true ↔ ∃ a e, out = .launch a e := by
  cases out <;> simp [isLaunch]

variable {P : Nat → SignedReceipt → Prop} {receipt : SignedReceipt}

private theorem eachAt_singleton : EachAt [receipt] P ↔ P 0 receipt := by
  constructor
  · exact fun h => h 0 receipt rfl
  · intro h i r hr
    rw [List.getElem?_singleton] at hr
    split at hr
    · next hi =>
      rw [hi, ← some.inj hr]
      exact h
    · simp at hr

private theorem eachAt_concat {receipts : List SignedReceipt} :
    EachAt (receipts ++ [receipt]) P ↔ EachAt receipts P ∧ P receipts.length receipt := by
  constructor
  · intro h
    refine ⟨fun i r hr => h i r ?_, h receipts.length receipt (by simp)⟩
    have ht : i < receipts.length := (List.getElem?_eq_some_iff.mp hr).1
    rwa [List.getElem?_append_left ht]
  · rintro ⟨ha, hl⟩ i r hr
    rcases Nat.lt_or_ge i receipts.length with ht | hg
    · rw [List.getElem?_append_left ht] at hr
      exact ha i r hr
    · rw [List.getElem?_append_right hg, List.getElem?_singleton] at hr
      obtain ⟨hi, rfl⟩ : i - receipts.length = 0 ∧ receipt = r := by
        split at hr
        · next h => exact ⟨h, some.inj hr⟩
        · simp at hr
      obtain rfl : i = receipts.length := by omega
      exact hl

private theorem parkMoves_concat (r : List SignedReceipt) (receipt : SignedReceipt) :
    parkMoves (r ++ [receipt]) = parkMoves r ++ receipt.payload.outcome.parkMove.toList := by
  cases h : receipt.payload.outcome.parkMove <;> simp [parkMoves, h]

section

variable {sha256 : Sha256} {fmt : JsonFormat}

/-! ### One valid receipt -/

variable {p : ReceiptPayload}

/-- A valid receipt names no predecessor exactly at sequence zero. -/
theorem ReceiptPayload.validatePredecessor_ok (h : p.validatePredecessor = .ok ()) :
    p.previousReceiptDigest = none ↔ p.sequence = 0 := by
  unfold validatePredecessor at h
  split at h
  · next hn => simpa [hn] using h
  · next hs =>
    split at h
    · simp at h
    · next hz => simp [hs, hz]

/-- Every action but a launch waits for sequence zero to pass. -/
theorem ReceiptPayload.validateLater_ok (h : p.validateLater = .ok ()) : p.sequence ≠ 0 := by
  unfold validateLater at h
  split at h
  · simp at h
  · next hz => exact hz

/-- A valid outcome is a launch exactly at sequence zero. -/
theorem ReceiptPayload.validateOutcome_ok (h : p.validateOutcome sha256 fmt = .ok ()) :
    p.outcome.isLaunch = true ↔ p.sequence = 0 := by
  unfold validateOutcome at h
  split at h
  · next hp =>
    simp only [check_ok, require_ok, beq_iff_eq] at h
    simp [hp, isLaunch, h.1]
  · next hp =>
    simp only [check_ok, require_ok, bne_iff_ne] at h
    simp [hp, isLaunch, h.2.2.2]
  · next hp =>
    split at h
    · simp [hp, isLaunch, validateLater_ok h]
    · simp at h
  · next hp =>
    split at h
    · simp [hp, isLaunch, validateLater_ok h]
    · simp at h
  · next hp => simp [hp, isLaunch, validateLater_ok h]
  · next hp => simp [hp, isLaunch, validateLater_ok h]

/-- What the validation of one receipt leaves for its chain. -/
structure Genesis (receipt : SignedReceipt) : Prop where
  predecessor : receipt.payload.previousReceiptDigest = none ↔ receipt.payload.sequence = 0
  launch : receipt.payload.outcome.isLaunch = true ↔ receipt.payload.sequence = 0
  result : receipt.payload.outcome.resultMatches receipt.payload.resultingState = true

variable {receipt : SignedReceipt}

theorem SignedReceipt.validate_ok (h : receipt.validate sha256 fmt = .ok ()) : Genesis receipt := by
  simp only [validate, ReceiptPayload.validate, check_ok] at h
  obtain ⟨_, _, _, _, _, _, _, _, _, _, hp, ho, hr⟩ := h
  exact ⟨ReceiptPayload.validatePredecessor_ok hp, ReceiptPayload.validateOutcome_ok ho,
    require_ok.mp hr⟩

/-- What one turn of the loop requires of a receipt. -/
structure Follows (sha256 : Sha256) (fmt : JsonFormat) (head : VerifiedReceiptHead)
    (receipt : SignedReceipt) : Prop where
  genesis : Genesis receipt
  sequence : receipt.payload.sequence.toNat = head.sequence.toNat + 1
  predecessor : receipt.payload.previousReceiptDigest = some head.receiptDigest
  pinned : receipt.payload.pins = head.anchor
  revision : head.envelopeRevision ≤ receipt.payload.envelopeRevision
  transition :
    validTransition head.state receipt.payload.outcome receipt.payload.resultingState = true
  fresh : receipt.payload.requestId ∉ head.requestIds

variable {head : VerifiedReceiptHead}

theorem checkNext_ok (h : checkNext sha256 fmt head receipt = .ok ()) :
    Follows sha256 fmt head receipt := by
  rw [checkNext, check_ok] at h
  obtain ⟨hv, h⟩ := h
  obtain ⟨n, hn, h⟩ := bind_ok.mp h
  simp only [check_ok, require_ok, beq_iff_eq, decide_eq_true_eq] at h
  obtain ⟨rfl, hd, hp, hr, ht, hf⟩ := h
  exact ⟨validate_ok hv, nextSequence_ok.mp hn, hd, checkPinned_ok.mp hp, hr, ht, hf⟩

/-- The transitions the loop admits, one constructor for each arm of the source. -/
inductive Transition : SessionState → ReceiptOutcome → SessionState → Prop where
  | start {authority evidence} : Transition .starting (.start authority evidence) .running
  | park {authority} : Transition .running (.park authority) .parked
  | resume {authorization} : Transition .parked (.resume authorization) .running
  | interruptRunning {authorization} : Transition .running (.interrupt authorization) .running
  | interruptParked {authorization} : Transition .parked (.interrupt authorization) .parked
  | disposeRunning {authority} : Transition .running (.disposal authority) .terminal
  | disposeParked {authority} : Transition .parked (.disposal authority) .terminal

variable {l : SessionState} {o : ReceiptOutcome}

theorem validTransition_iff {pre : SessionState} :
    validTransition pre o l = true ↔ Transition pre o l := by
  constructor
  · intro h
    unfold validTransition at h
    split at h
    · exact .start
    · exact .park
    · exact .resume
    · exact .interruptRunning
    · exact .interruptParked
    · exact .disposeRunning
    · exact .disposeParked
    · simp at h
  · intro h
    cases h <;> rfl

/-- Only a Session that is starting can start. -/
theorem Transition.starting_of_isStart {pre : SessionState}
    (ht : Transition pre o l) (h : o.isStart = true) : pre = .starting := by
  cases ht with
  | start => rfl
  | _ => cases h

/-! ### Accepted chains, one receipt at a time -/

/-- The receipts that the checks of a complete verification admit, with their head. -/
inductive Accepted (sha256 : Sha256) (fmt : JsonFormat) (anchor : ChainAnchor) :
    List SignedReceipt → VerifiedReceiptHead → Prop where
  | first {receipt : SignedReceipt} : checkFirst sha256 fmt anchor receipt = .ok () →
      Accepted sha256 fmt anchor [receipt] (headOf sha256 fmt receipt)
  | next {receipts : List SignedReceipt} {head : VerifiedReceiptHead} {receipt : SignedReceipt} :
      Accepted sha256 fmt anchor receipts head → checkNext sha256 fmt head receipt = .ok () →
      Accepted sha256 fmt anchor (receipts ++ [receipt]) (advance sha256 fmt head receipt)

variable {re : List SignedReceipt} {an : ChainAnchor}

/-- A verified chain is an accepted one, whatever the signature verifier does. -/
theorem verifyChain_accepted {σ : Type} {vs : SignatureVerifier σ} {s la : σ}
    (h : Verify.from s (verifyChain sha256 fmt vs re an) = (.ok head, la)) :
    Accepted sha256 fmt an re head := by
  obtain ⟨x, xs, t, rfl, _, hc, h⟩ := verifyChain_ok h
  exact verifyAfter_induct (fun _ _ _ ha hc => ha.next hc) [x] (.first hc) h

/-- The head of an accepted chain keeps the anchor's identities. -/
theorem Accepted.head_anchor (h : Accepted sha256 fmt an re head) : head.anchor = an := by
  induction h with
  | first hc =>
    simp only [checkFirst, check_ok] at hc
    exact checkPinned_ok.mp hc.2.1
  | next _ _ ih => exact ih

/-! ### The shape of an accepted chain -/

private theorem shape_first (hc : checkFirst sha256 fmt an receipt = .ok ()) :
    ChainShape an [receipt] ∧ Summary [receipt] (headOf sha256 fmt receipt) := by
  simp only [checkFirst, check_ok, require_ok, beq_iff_eq] at hc
  obtain ⟨hz, hp, hv⟩ := hc
  have hg := validate_ok hv
  have hl : receipt.payload.outcome.isLaunch = true := hg.launch.mpr hz
  obtain ⟨a, e, ho⟩ := isLaunch_iff.mp hl
  have hs : receipt.payload.resultingState = .starting := by
    simpa [ho, resultMatches] using hg.result
  have ht : receipt.payload.outcome.isStart = false := by rw [ho]; rfl
  have hm : parkMoves [receipt] = [] := by simp [parkMoves, ho, parkMove]
  constructor
  · have hi : receipt.payload.pins = an := checkPinned_ok.mp hp
    constructor <;> simp [eachAt_singleton, hz, hl, ht, hi, hm]
  · constructor <;> simp [headOf, hz, hs, hm, eq_comm]

private theorem terminal_next (hs : Summary re head) (ht : Transition head.state o l) :
    ∀ receipt ∈ re, receipt.payload.resultingState ≠ .terminal := by
  intro receipt hm he
  rw [hs.terminal receipt hm he] at ht
  cases ht

private theorem alternate_next (hs : Summary re head)
    (ht : Transition head.state o l) (ha : (parkMoves re).IsChain (· ≠ ·)) :
    (parkMoves re ++ o.parkMove.toList).IsChain (· ≠ ·) := by
  generalize hst : head.state = before at ht
  cases ht with
  | park =>
    have hl := hs.running hst
    refine isChain_append.mpr ⟨ha, isChain_singleton _, ?_⟩
    intro x hx y hy hxy
    simp only [parkMove, toList_some, List.head?_cons, mem_def, some.injEq] at hy
    exact hl (by rw [mem_def.mp hx, hxy, ← hy])
  | resume =>
    have hl := hs.parked hst
    refine isChain_append.mpr ⟨ha, isChain_singleton _, ?_⟩
    intro x hx y hy hxy
    simp only [parkMove, toList_some, List.head?_cons, mem_def, some.injEq] at hy
    rw [mem_def, hl] at hx
    rw [← some.inj hx, ← hy] at hxy
    cases hxy
  | _ => simpa [parkMove] using ha

private theorem parkFirst_next (hs : Summary re head)
    (ht : Transition head.state o l) (hf : (parkMoves re).head? ≠ some .resume) :
    (parkMoves re ++ o.parkMove.toList).head? ≠ some .resume := by
  generalize hst : head.state = before at ht
  cases ht with
  | park =>
    cases hm : parkMoves re with
    | nil => simp [parkMove]
    | cons mo m => simpa [hm] using hf
  | resume =>
    have hl := hs.parked hst
    cases hm : parkMoves re with
    | nil => simp [hm] at hl
    | cons mo m => simpa [hm] using hf
  | _ => simpa [parkMove] using hf

private theorem shape_next (hh : head.anchor = an) (hc : ChainShape an re) (hs : Summary re head)
    (hf : Follows sha256 fmt head receipt) : ChainShape an (re ++ [receipt]) := by
  have ht := validTransition_iff.mp hf.transition
  have he : receipt.payload.sequence.toNat = re.length := by
    rw [hf.sequence, hs.sequence]
  have hp : re.length ≠ 0 := by simpa using hc.nonempty
  exact {
    nonempty := by simp
    sequence := eachAt_concat.mpr ⟨hc.sequence, he⟩
    launch := by
      refine eachAt_concat.mpr ⟨hc.launch, ?_⟩
      rw [hf.genesis.launch, ← he, ← UInt64.toNat_inj]
      rfl
    start := by
      refine eachAt_concat.mpr ⟨hc.start, fun hst => ?_⟩
      exact (hs.starting (ht.starting_of_isStart hst)).1
    requestIds := by
      rw [map_append, map_singleton, nodup_append]
      refine ⟨hc.requestIds, nodup_singleton _, ?_⟩
      rintro id hi _ hl rfl
      rw [mem_singleton] at hl
      obtain ⟨r, hm, hr⟩ := mem_map.mp hi
      exact hf.fresh ((hs.requestIds _).mpr ⟨r, hm, hr.trans hl⟩)
    revisions := by
      rw [pairwise_append]
      refine ⟨hc.revisions, pairwise_singleton _ _, ?_⟩
      intro r hm la hl
      rw [mem_singleton.mp hl]
      exact UInt64.le_trans (hs.revision r hm) hf.revision
    pinned := by
      intro r hm
      rcases mem_append.mp hm with hm | hm
      · exact hc.pinned r hm
      · rw [mem_singleton.mp hm, hf.pinned, hh]
    terminal := by
      refine eachAt_concat.mpr ⟨fun i r hr hte => ?_, fun _ => by simp⟩
      exact absurd hte (terminal_next hs ht r (mem_of_getElem? hr))
    alternate := by
      rw [parkMoves_concat]
      exact alternate_next hs ht hc.alternate
    parkFirst := by
      rw [parkMoves_concat]
      exact parkFirst_next hs ht hc.parkFirst }

private theorem summary_next (hs : Summary re head) (hf : Follows sha256 fmt head receipt) :
    Summary (re ++ [receipt]) (advance sha256 fmt head receipt) := by
  have ht := validTransition_iff.mp hf.transition
  generalize hst : head.state = before at ht
  generalize ha : receipt.payload.resultingState = l at ht
  generalize ho : receipt.payload.outcome = o at ht
  exact {
    sequence := by
      rw [length_append, length_singleton, ← hs.sequence, ← hf.sequence]
      rfl
    requestIds := by
      intro id
      simp only [advance, Finset.mem_insert, hs.requestIds, mem_append, mem_singleton,
        or_and_right, exists_or, exists_eq_left]
      rw [or_comm, eq_comm]
    revision := by
      intro r hm
      rcases mem_append.mp hm with hm | hm
      · exact UInt64.le_trans (hs.revision r hm) hf.revision
      · rw [mem_singleton.mp hm]
        exact UInt64.le_refl _
    starting := by
      intro h
      rw [advance, ha] at h
      cases ht <;> cases h
    terminal := by
      intro r hm he
      rcases mem_append.mp hm with hm | hm
      · have ht := validTransition_iff.mp hf.transition
        exact absurd he (terminal_next hs ht r hm)
      · rw [mem_singleton.mp hm] at he
        exact he
    running := by
      intro h
      rw [parkMoves_concat, ho]
      rw [advance, ha] at h
      cases ht with
      | start => simp [parkMove, (hs.starting hst).2]
      | resume => simp [parkMove]
      | interruptRunning => simpa [parkMove] using hs.running hst
      | _ => cases h
    parked := by
      intro h
      rw [parkMoves_concat, ho]
      rw [advance, ha] at h
      cases ht with
      | park => simp [parkMove]
      | interruptParked => simpa [parkMove] using hs.parked hst
      | _ => cases h }

/-- An accepted chain has the lifecycle's shape, and its head summarises it. -/
theorem Accepted.shape (h : Accepted sha256 fmt an re head) :
    ChainShape an re ∧ Summary re head := by
  induction h with
  | first hc => exact shape_first hc
  | next ha hc ih =>
    have hf := checkNext_ok hc
    exact ⟨shape_next ha.head_anchor ih.1 ih.2 hf, summary_next ih.2 hf⟩

/-! ### The history a head pins -/

/-- The envelopes of an accepted chain are linked, and its head names the last of them. -/
theorem Accepted.linked (h : Accepted sha256 fmt an re head) : ∃ e la, re = e ++ [la] ∧
      HashChain.Linked (fun receipt => receipt.payload.previousReceiptDigest)
        (fun receipt => (receipt.digest sha256 fmt).toString) e la ∧
      head.receiptDigest = (la.digest sha256 fmt).toString := by
  induction h with
  | @first receipt hc =>
    simp only [checkFirst, check_ok, require_ok, beq_iff_eq] at hc
    have hg := validate_ok hc.2.2
    exact ⟨[], receipt, rfl, .first (hg.predecessor.mpr hc.1), rfl⟩
  | @next _ head receipt _ hc ih =>
    obtain ⟨e, la, rfl, hl, hd⟩ := ih
    have hp := (checkNext_ok hc).predecessor
    rw [hd] at hp
    exact ⟨e ++ [la], receipt, rfl, hl.next hp, rfl⟩

/-- Signed envelopes are separated by their digests where SHA-256 separates their bytes. -/
theorem digest_injOn
    (hc : CollisionFree sha256 {bytes | ∃ receipt ∈ re, receipt.canonicalBytes fmt = bytes}) :
    Set.InjOn (fun receipt => (receipt.digest sha256 fmt).toString) {receipt | receipt ∈ re} := by
  intro a ha b hb h
  have hd : a.digest sha256 fmt = b.digest sha256 fmt := Digest.toString_inj.mp h
  have hy := (Digest.of_inj hc ⟨a, ha, rfl⟩ ⟨b, hb, rfl⟩).mp hd
  exact (fmt.toVec_inj (by decide)).mp hy

/-- Accepted chains under one head digest are one chain. -/
theorem Accepted.unique {a' : ChainAnchor} {r' : List SignedReceipt} {he' : VerifiedReceiptHead}
    (h : Accepted sha256 fmt an re head) (h' : Accepted sha256 fmt a' r' he')
    (hc : CollisionFree sha256 {bytes | ∃ receipt ∈ re ++ r', receipt.canonicalBytes fmt = bytes})
    (hd : head.receiptDigest = he'.receiptDigest) : re = r' := by
  obtain ⟨e, la, rfl, hl, hh⟩ := h.linked
  obtain ⟨e', l', rfl, hl', hh'⟩ := h'.linked
  exact hl.unique hl' (by rw [← hh, ← hh', hd]) (digest_injOn hc)

end

private def lengthHash : Sha256 := fun bytes => Vector.replicate 32 (UInt8.ofNat bytes.length)

private def zeroDigest : Digest := Digest.fromRaw (Vector.replicate 32 0)

private def launchReceipt : SignedReceipt where
  schema := signedReceiptSchema
  signature := "armored"
  payload := {
    schema := receiptSchema
    sessionId := "session"
    runId := "run"
    requestId := "request"
    envelopeRevision := 1
    sequence := 0
    previousReceiptDigest := none
    releaseId := zeroDigest.toString
    signingKeyId := zeroDigest.toString
    resultingState := .starting
    outcome := .launch ⟨"authorization", "request", zeroDigest.toString⟩ {
      role := .agent
      conformance := .unevaluated
      launchRequestDigest := zeroDigest.toString
      runtimeMeasurementDigest := zeroDigest.toString
      skills := .enabled zeroDigest.toString zeroDigest.toString
      sessionInputManifestId := zeroDigest.toString
      isolationContract := contractVersion
      isolationBackendId := "backend"
      kernelIdentity := "kernel"
      isolationEvidenceDigest := zeroDigest.toString
      brokerLossGraceMs := 5000
      capabilityChannelIds := ["model"] } }

private def launchAnchor : ChainAnchor := launchReceipt.payload.pins

private theorem launchReceipt_validate : launchReceipt.validate lengthHash format = .ok () := by
  have hs : ∀ {α : Type} [Serialize α] (a : α), weight (toJson a) ≤ 8192 →
      checkSize (format.toVec a) = .ok () := by
    intro α _ a h
    rw [checkSize, require_ok, decide_eq_true_eq, maxReceiptBytes]
    exact Nat.le_trans (length_toVec_le a) (by omega)
  have hd : ∀ f, validateDigest f zeroDigest.toString = .ok () :=
    fun f => require_ok.mpr (isCanonicalDigest_toString _)
  simp only [validate, ReceiptPayload.validate, check_ok]
  refine ⟨hs _ (by decide), by decide, by decide, hs _ (by decide), by decide, by decide,
    by decide, by decide, hd _, hd _, by decide, ?_, by decide⟩
  simp only [launchReceipt, ReceiptPayload.validateOutcome, validateAuthorization,
    validateLaunchEvidence, validateConformance, hd, check_ok, SkillInputs.validate,
    validViewDigest_toString, Bool.and_self]
  decide

private theorem launchReceipt_verifies :
    Verify.from () (verifyChain lengthHash format (fun _ _ _ => pure true)
      [launchReceipt] launchAnchor) = (.ok (headOf lengthHash format launchReceipt), ()) := by
  have ha : validateAnchor launchAnchor = .ok () := by
    simp only [validateAnchor, check_ok]
    exact ⟨by decide, by decide, require_ok.mpr (isCanonicalDigest_toString _),
      require_ok.mpr (isCanonicalDigest_toString _)⟩
  have hf : checkFirst lengthHash format launchAnchor launchReceipt = .ok () := by
    simp only [checkFirst, check_ok]
    exact ⟨by decide, checkPinned_ok.mpr rfl, launchReceipt_validate⟩
  simp only [verifyChain, ha, hf]
  rfl

end Louiselm.Launch
