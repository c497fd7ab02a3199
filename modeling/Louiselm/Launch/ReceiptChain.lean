import Mathlib.Control.Lawful
import Mathlib.Data.List.Chain
import Louiselm.Base.HashChain
import Louiselm.Launch.Receipt

/-!
# Verification of receipt chains

`skills-core/src/launch_receipt.rs`: complete verification from a trusted anchor and
incremental verification of a launcher-ahead suffix. The signature verifier of the source
is a mutable closure, so every entry point here runs in its state; a failed call leaves the
state it reached.
-/

namespace Louiselm.Launch
open Base Canonical

/-- Trusted identity a complete sequence-zero chain must match. -/
@[ext]
structure ChainAnchor where
  sessionId : String
  runId : String
  releaseId : String
  signingKeyId : String
deriving DecidableEq, Repr

/-- Trusted state needed to verify a launcher-ahead suffix. -/
structure VerifiedReceiptHead where
  sessionId : String
  runId : String
  releaseId : String
  signingKeyId : String
  sequence : UInt64
  receiptDigest : String
  state : SessionState
  envelopeRevision : UInt64
  requestIds : Finset String
deriving DecidableEq

/-- The identities a head holds its successors to. -/
def VerifiedReceiptHead.anchor (head : VerifiedReceiptHead) : ChainAnchor :=
  ⟨head.sessionId, head.runId, head.releaseId, head.signingKeyId⟩

/-- A computation that calls the signature verifier and may refuse. -/
abbrev Verify (σ : Type) := ExceptT ReceiptError (StateM σ)

/-- A signature verifier over a key identity, signed bytes and an armored signature. -/
abbrev SignatureVerifier (σ : Type) := String → Bytes → String → StateM σ Bool

/-- The result and final verifier state of a computation. -/
def Verify.from {σ α : Type} (state : σ) (x : Verify σ α) : Except ReceiptError α × σ :=
  (ExceptT.run x).run state

/-- Whether an action may take the Session from one state to another. -/
def validTransition : SessionState → ReceiptOutcome → SessionState → Bool
  | .starting, .start .., .running => true
  | .running, .park _, .parked => true
  | .parked, .resume _, .running => true
  | .running, .interrupt _, .running => true
  | .parked, .interrupt _, .parked => true
  | .running, .disposal _, .terminal => true
  | .parked, .disposal _, .terminal => true
  | _, _, _ => false

def checkPinned (payload : ReceiptPayload) (anchor : ChainAnchor) : Except ReceiptError Unit := do
  require (payload.sessionId == anchor.sessionId) .foreignSession
  require (payload.runId == anchor.runId) .foreignRun
  require (payload.releaseId == anchor.releaseId) .releaseChanged
  require (payload.signingKeyId == anchor.signingKeyId) .signingKeyChanged

def checkHeadPinned (payload : ReceiptPayload) (head : VerifiedReceiptHead) :
    Except ReceiptError Unit :=
  checkPinned payload head.anchor

def validateAnchor (anchor : ChainAnchor) : Except ReceiptError Unit := do
  validateIdentifier "session_id" anchor.sessionId
  validateIdentifier "run_id" anchor.runId
  validateDigest "release_id" anchor.releaseId
  validateDigest "signing_key_id" anchor.signingKeyId

def validateHead (head : VerifiedReceiptHead) : Except ReceiptError Unit := do
  validateAnchor head.anchor
  validateDigest "receipt_digest" head.receiptDigest

/-- The next sequence number, when it has not run out. -/
def nextSequence (sequence : UInt64) : Except ReceiptError UInt64 :=
  if sequence.toNat + 1 < UInt64.size then .ok (sequence + 1) else .error .sequenceOverflow

section

variable (sha256 : Sha256) (fmt : JsonFormat)

/-- The head after a first receipt. -/
def headOf (receipt : SignedReceipt) : VerifiedReceiptHead where
  sessionId := receipt.payload.sessionId
  runId := receipt.payload.runId
  releaseId := receipt.payload.releaseId
  signingKeyId := receipt.payload.signingKeyId
  sequence := receipt.payload.sequence
  receiptDigest := (receipt.digest sha256 fmt).toString
  state := receipt.payload.resultingState
  envelopeRevision := receipt.payload.envelopeRevision
  requestIds := {receipt.payload.requestId}

/-- The head after one more receipt; the pinned identities stay. -/
def advance (head : VerifiedReceiptHead) (receipt : SignedReceipt) : VerifiedReceiptHead :=
  { head with
    sequence := receipt.payload.sequence
    receiptDigest := (receipt.digest sha256 fmt).toString
    state := receipt.payload.resultingState
    envelopeRevision := receipt.payload.envelopeRevision
    requestIds := insert receipt.payload.requestId head.requestIds }

/-- What `verifyChain` checks of its first receipt before the signature. -/
def checkFirst (anchor : ChainAnchor) (receipt : SignedReceipt) : Except ReceiptError Unit := do
  require (receipt.payload.sequence == 0) (.expectedSequence 0 receipt.payload.sequence)
  checkPinned receipt.payload anchor
  receipt.validate sha256 fmt

/-- What the loop of `verifyAfter` checks of a receipt before the signature. -/
def checkNext (head : VerifiedReceiptHead) (receipt : SignedReceipt) :
    Except ReceiptError Unit := do
  receipt.validate sha256 fmt
  let sequence ← nextSequence head.sequence
  require (receipt.payload.sequence == sequence)
    (.expectedSequence sequence receipt.payload.sequence)
  require (receipt.payload.previousReceiptDigest == some head.receiptDigest)
    (.wrongPredecessor sequence)
  checkHeadPinned receipt.payload head
  require (decide (head.envelopeRevision ≤ receipt.payload.envelopeRevision))
    (.envelopeRevisionRegressed head.envelopeRevision receipt.payload.envelopeRevision sequence)
  require (validTransition head.state receipt.payload.outcome receipt.payload.resultingState)
    (.invalidTransition sequence)
  require (decide (receipt.payload.requestId ∉ head.requestIds))
    (.duplicateRequestId receipt.payload.requestId)

variable {σ : Type} (verifySignature : SignatureVerifier σ)

def verifyOne (receipt : SignedReceipt) : Verify σ Unit := do
  let verified ← verifySignature receipt.payload.signingKeyId
    (receipt.payload.canonicalBytes fmt) receipt.signature
  if !verified then throw (.invalidSignature receipt.payload.sequence)

/-- One turn of the loop of `verifyAfter`. -/
def verifyNext (head : VerifiedReceiptHead) (receipt : SignedReceipt) :
    Verify σ VerifiedReceiptHead := do
  checkNext sha256 fmt head receipt
  verifyOne fmt verifySignature receipt
  return advance sha256 fmt head receipt

def verifyAfter (receipts : List SignedReceipt) (head : VerifiedReceiptHead) :
    Verify σ VerifiedReceiptHead :=
  receipts.foldlM (verifyNext sha256 fmt verifySignature) head

/-- Verify a complete chain beginning at its trusted sequence-zero anchor. -/
def verifyChain (receipts : List SignedReceipt) (anchor : ChainAnchor) :
    Verify σ VerifiedReceiptHead := do
  validateAnchor anchor
  match receipts with
  | [] => throw .emptyChain
  | first :: rest => do
    checkFirst sha256 fmt anchor first
    verifyOne fmt verifySignature first
    verifyAfter sha256 fmt verifySignature rest (headOf sha256 fmt first)

/-- Verify a continuous launcher-ahead suffix against a trusted prior head. -/
def verifySuffix (receipts : List SignedReceipt) (trustedHead : VerifiedReceiptHead) :
    Verify σ VerifiedReceiptHead := do
  validateHead trustedHead
  verifyAfter sha256 fmt verifySignature receipts trustedHead

end

/-! ### Runs of the verifier -/

section

variable {σ α β : Type} {s : σ}

@[simp] theorem Verify.from_pure (a : α) : Verify.from s (pure a : Verify σ α) = (.ok a, s) := rfl

@[simp] theorem Verify.from_throw (e : ReceiptError) :
    Verify.from s (throw e : Verify σ α) = (.error e, s) := rfl

@[simp] theorem Verify.from_check (x : Except ReceiptError α) :
    Verify.from s (liftM x : Verify σ α) = (x, s) := rfl

/-- A bind runs its second part from where the first one ended. -/
theorem Verify.from_bind (x : Verify σ α) (f : α → Verify σ β) : Verify.from s (x >>= f) =
      match Verify.from s x with
      | (.ok a, next) => Verify.from next (f a)
      | (.error e, next) => (.error e, next) := by
  change (match (ExceptT.run x).run s with
    | (r, next) => (ExceptT.bindCont f r).run next) = _
  rw [Verify.from]
  rcases (ExceptT.run x).run s with ⟨r | r, next⟩ <;> rfl

/-- A bind succeeds when both of its parts do. -/
theorem Verify.from_bind_ok {x : Verify σ α} {f : α → Verify σ β} {b : β} {last : σ} :
    Verify.from s (x >>= f) = (.ok b, last) ↔
      ∃ a next, Verify.from s x = (.ok a, next) ∧ Verify.from next (f a) = (.ok b, last) := by
  rw [Verify.from_bind]
  rcases Verify.from s x with ⟨r | r, next⟩ <;> simp

end

/-! ### One turn and the loop -/

/-- The identities one payload names. -/
def ReceiptPayload.pins (payload : ReceiptPayload) : ChainAnchor :=
  ⟨payload.sessionId, payload.runId, payload.releaseId, payload.signingKeyId⟩

theorem checkPinned_ok {p : ReceiptPayload} {a : ChainAnchor} :
    checkPinned p a = .ok () ↔ p.pins = a := by
  simp [checkPinned, ReceiptPayload.pins, ChainAnchor.ext_iff]

theorem nextSequence_ok {n next : UInt64} :
    nextSequence n = .ok next ↔ next.toNat = n.toNat + 1 := by
  have hl := next.toNat_lt_size
  unfold nextSequence
  split
  · next h =>
    rw [Except.ok.injEq, ← UInt64.toNat_inj, UInt64.toNat_add, UInt64.toNat_one, Nat.mod_eq_of_lt h]
    exact eq_comm
  · next h =>
    simp only [reduceCtorEq, false_iff]
    omega

section

variable {sh2 : Sha256} {fmt : JsonFormat} {σ : Type} {vs : SignatureVerifier σ}

variable {head final : VerifiedReceiptHead} {state last : σ}

/-- A turn passes its checks and advances the head. -/
theorem verifyNext_ok {r : SignedReceipt}
    (h : Verify.from state (verifyNext sh2 fmt vs head r) = (.ok final, last)) :
    checkNext sh2 fmt head r = .ok () ∧ final = advance sh2 fmt head r := by
  obtain ⟨_, t, hc, h⟩ := Verify.from_bind_ok.mp h
  obtain ⟨_, t', _, h⟩ := Verify.from_bind_ok.mp h
  rw [Verify.from_check] at hc
  rw [Verify.from_pure] at h
  simp only [Prod.mk.injEq, Except.ok.injEq] at hc h
  exact ⟨hc.1, h.1.symm⟩

/-- What holds of a head and survives every accepted turn holds after the loop. -/
theorem verifyAfter_induct {motive : List SignedReceipt → VerifiedReceiptHead → Prop}
    (st : ∀ receipts head r, motive receipts head → checkNext sh2 fmt head r = .ok () →
    motive (receipts ++ [r]) (advance sh2 fmt head r))
    (receipts : List SignedReceipt) {m : List SignedReceipt} (hm : motive receipts head)
    (h : Verify.from state (verifyAfter sh2 fmt vs m head) = (.ok final, last)) :
    motive (receipts ++ m) final := by
  induction m generalizing receipts head state with
  | nil =>
    have hf : head = final := Except.ok.inj (congrArg Prod.fst h)
    simpa [← hf] using hm
  | cons r m ih =>
    rw [verifyAfter, List.foldlM_cons] at h
    obtain ⟨t, n, hn, h⟩ := Verify.from_bind_ok.mp h
    obtain ⟨hc, rfl⟩ := verifyNext_ok hn
    simpa using ih _ (st receipts head r hm hc) h

/-- A complete verification validates its anchor and first receipt, then runs the loop. -/
theorem verifyChain_ok {receipts : List SignedReceipt} {anchor : ChainAnchor}
    (h : Verify.from state (verifyChain sh2 fmt vs receipts anchor) = (.ok final, last)) :
    ∃ first rest next, receipts = first :: rest ∧ validateAnchor anchor = .ok () ∧
      checkFirst sh2 fmt anchor first = .ok () ∧
      Verify.from next (verifyAfter sh2 fmt vs rest (headOf sh2 fmt first)) =
        (.ok final, last) := by
  obtain ⟨_, next, ha, h⟩ := Verify.from_bind_ok.mp h
  cases receipts with
  | nil => simp at h
  | cons first rest =>
    obtain ⟨_, next', hc, h⟩ := Verify.from_bind_ok.mp h
    obtain ⟨_, next'', _, h⟩ := Verify.from_bind_ok.mp h
    rw [Verify.from_check] at ha hc
    simp only [Prod.mk.injEq] at ha hc
    exact ⟨first, rest, next'', rfl, ha.1, hc.1, h⟩

end

/-! ### Incremental verification -/

section

variable {sha256 : Sha256} {fmt : JsonFormat} {σ : Type} {ves : SignatureVerifier σ}
  {head : VerifiedReceiptHead}

theorem validateHead_ok : validateHead head = .ok () ↔
      validateAnchor head.anchor = .ok () ∧ isCanonicalDigest head.receiptDigest = true := by
  simp [validateHead, validateDigest]

/-- The head after a valid first receipt is itself valid. -/
theorem validateHead_headOf {a : ChainAnchor} {r : SignedReceipt} (ha : validateAnchor a = .ok ())
    (hc : checkFirst sha256 fmt a r = .ok ()) : validateHead (headOf sha256 fmt r) = .ok () := by
  have hp : r.payload.pins = a := by
    simp only [checkFirst, check_ok] at hc
    obtain ⟨_, hp, _⟩ := hc
    exact checkPinned_ok.mp hp
  rw [validateHead_ok]
  refine ⟨?_, isCanonicalDigest_toString _⟩
  change validateAnchor r.payload.pins = .ok ()
  rw [hp]
  exact ha

/-- A turn of the loop keeps the head valid. -/
theorem validateHead_advance (r : SignedReceipt) (h : validateHead head = .ok ()) :
    validateHead (advance sha256 fmt head r) = .ok () := by
  rw [validateHead_ok] at h ⊢
  exact ⟨h.1, isCanonicalDigest_toString _⟩

variable {re : List SignedReceipt} {final : VerifiedReceiptHead} {state : σ}

/-- The loop keeps the head valid. -/
theorem validateHead_verifyAfter {last : σ} (hv : validateHead head = .ok ())
    (h : Verify.from state (verifyAfter sha256 fmt ves re head) =
      (.ok final, last)) : validateHead final = .ok () :=
  verifyAfter_induct (motive := fun _ head => validateHead head = .ok ())
    (fun _ _ r hv _ => validateHead_advance r hv) [] hv h

/-- Every head a complete verification returns is valid, so its suffixes are not refused. -/
theorem validateHead_verifyChain {a : ChainAnchor} {last : σ}
    (h : Verify.from state (verifyChain sha256 fmt ves re a) =
      (.ok final, last)) : validateHead final = .ok () := by
  obtain ⟨x, xs, t, _, ha, hc, h⟩ := verifyChain_ok h
  exact validateHead_verifyAfter (validateHead_headOf ha hc) h

/-- From a valid head, verifying a suffix is just the loop. -/
theorem verifySuffix_eq (re : List SignedReceipt) (hv : validateHead head = .ok ()) :
    verifySuffix sha256 fmt ves re head =
      verifyAfter sha256 fmt ves re head := by
  rw [verifySuffix, hv]
  rfl

/-- A complete verification continues with the loop over whatever is appended. -/
theorem verifyChain_append (x : SignedReceipt) (xs m : List SignedReceipt) (a : ChainAnchor) :
    verifyChain sha256 fmt ves (x :: xs ++ m) a = (do
        let head ← verifyChain sha256 fmt ves (x :: xs) a
        verifyAfter sha256 fmt ves m head) := by
  simp only [verifyChain, verifyAfter, List.cons_append, List.foldlM_append, bind_assoc]

/-- Batches of a suffix continue from one another like the loop over all of them. -/
theorem verifySuffix_flatten (b : List (List SignedReceipt)) (hv : validateHead head = .ok ()) :
    Verify.from state (b.foldlM (fun head ba =>
        verifySuffix sha256 fmt ves ba head) head) =
      Verify.from state (verifyAfter sha256 fmt ves b.flatten head) := by
  induction b generalizing head state with
  | nil => rfl
  | cons ba b ih =>
    rw [List.foldlM_cons, List.flatten_cons, verifyAfter, List.foldlM_append,
      verifySuffix_eq ba hv, ← verifyAfter, Verify.from_bind, Verify.from_bind]
    rcases h : Verify.from state (verifyAfter sha256 fmt ves ba head) with ⟨e | middle, next⟩
    · rfl
    · exact ih (validateHead_verifyAfter hv h)

/-- A complete verification continues with the verification of any suffix from the head it
reached, in one batch or in several. -/
theorem verifyChain_from (state : σ) (x : SignedReceipt) (xs : List SignedReceipt)
    (b : List (List SignedReceipt)) (a : ChainAnchor) : Verify.from state
        (verifyChain sha256 fmt ves (x :: xs ++ b.flatten) a) = Verify.from state (do
        let head ← verifyChain sha256 fmt ves (x :: xs) a
        b.foldlM (fun head ba => verifySuffix sha256 fmt ves ba head) head) := by
  rw [verifyChain_append, Verify.from_bind, Verify.from_bind]
  rcases h : Verify.from state (verifyChain sha256 fmt ves (x :: xs) a) with ⟨e | head, next⟩
  · rfl
  · exact (verifySuffix_flatten b (validateHead_verifyChain h)).symm

end

/-- Incremental verification agrees with complete verification: a chain verifies to a head
exactly when its first part verifies and the rest verifies from there, a failure after a
verified first part is the failure of the rest, and batching a suffix changes nothing. -/
theorem verifyChain_incremental (sha256 : Sha256) (fmt : JsonFormat) {σ : Type}
    (verifySignature : SignatureVerifier σ) (anchor : ChainAnchor) (first : SignedReceipt)
    (rest : List SignedReceipt) (state : σ) : (∀ suffix head last,
      Verify.from state (verifyChain sha256 fmt verifySignature (first :: rest ++ suffix) anchor) =
          (.ok head, last) ↔ ∃ trusted middle,
          Verify.from state (verifyChain sha256 fmt verifySignature (first :: rest) anchor) =
            (.ok trusted, middle) ∧
          Verify.from middle (verifySuffix sha256 fmt verifySignature suffix trusted) =
            (.ok head, last)) ∧ (∀ suffix trusted middle,
      Verify.from state (verifyChain sha256 fmt verifySignature (first :: rest) anchor) =
          (.ok trusted, middle) → Verify.from state
            (verifyChain sha256 fmt verifySignature (first :: rest ++ suffix) anchor) =
          Verify.from middle (verifySuffix sha256 fmt verifySignature suffix trusted)) ∧
    (∀ batches : List (List SignedReceipt), Verify.from state
          (verifyChain sha256 fmt verifySignature (first :: rest ++ batches.flatten) anchor) =
        Verify.from state (do
          let trusted ← verifyChain sha256 fmt verifySignature (first :: rest) anchor
          batches.foldlM (fun head batch => verifySuffix sha256 fmt verifySignature batch head)
            trusted)) := by
  have ho : ∀ suffix,
      Verify.from state (verifyChain sha256 fmt verifySignature (first :: rest ++ suffix) anchor) =
        Verify.from state (do
          let trusted ← verifyChain sha256 fmt verifySignature (first :: rest) anchor
          verifySuffix sha256 fmt verifySignature suffix trusted) := by
    intro suffix
    simpa using verifyChain_from state first rest [suffix] anchor
  refine ⟨fun suffix head last => ?_, fun suffix trusted middle h => ?_,
    fun batches => verifyChain_from state first rest batches anchor⟩
  · rw [ho, Verify.from_bind_ok]
  · rw [ho, Verify.from_bind, h]

end Louiselm.Launch
