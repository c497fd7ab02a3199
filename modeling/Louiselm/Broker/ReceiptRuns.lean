import Mathlib.Data.Finset.Image
import Louiselm.Base.Runs
import Louiselm.Broker.Receipts
import Louiselm.Launch.Replay

/-!
# An acknowledged receipt and the readers after it

What every acknowledged append of `skills-core/src/broker/receipts.rs` leaves: the stored
envelopes are the earlier ones and the new one, and they verify from the Session's anchor.
The readers refuse a chain that is longer than they read back, and an append reads before it
writes, so one receipt can be acknowledged that no reader accepts.
-/

namespace Louiselm.Broker.ReceiptStore
open Base Canonical Launch List
open Launch.Protocol (LaunchAuthorization ReceiptHead)
open Compact Protocol ReceiptPayload
open Except (ok.injEq ok.inj)

variable {store : ReceiptStore} {sha256 : Sha256} {fmt : JsonFormat}
  {verify : String → Bytes → String → Bool}

/-! ### Single checks -/

variable {bytes : Bytes} {receipt : SignedReceipt}

theorem parseCanonical_ok : store.parseCanonical sha256 fmt bytes = .ok receipt ↔
      checkSize bytes = .ok () ∧ store.decodeReceipt bytes = .ok receipt ∧
        receipt.canonicalBytes fmt = bytes ∧ receipt.validate sha256 fmt = .ok () := by
  rw [parseCanonical, check_ok, bind_ok]
  simp only [check_ok, require_ok, beq_iff_eq, pure, Except.pure, ok.injEq]
  constructor
  · rintro ⟨hs, o, hd, hb, hv, rfl⟩
    exact ⟨hs, hd, hb, hv⟩
  · rintro ⟨hs, hd, hb, hv⟩
    exact ⟨hs, receipt, hd, hb, hv, rfl⟩

/-- An authorized receipt names the Session of its authorization. -/
theorem checkAuthorized_sessionId {authorization : LaunchAuthorization}
    (h : checkAuthorized receipt authorization = .ok ()) :
    receipt.payload.sessionId = authorization.sessionId := by
  simp only [checkAuthorized, check_ok, require_ok, Bool.and_eq_true, beq_iff_eq] at h
  exact h.1.1.1

/-- Only a launch binds a report. -/
theorem isLaunch_of_reportDigest {d : String} (h : reportDigest (admission receipt) = some d) :
    receipt.payload.outcome.isLaunch = true := by
  cases ho : receipt.payload.outcome <;>
    simp_all [admission, reportDigest, ReceiptOutcome.isLaunch]

/-- A report is accepted only from an admission that binds one, and only within its bound. -/
theorem validateReport_some {a : ConformanceEvidence}
    (h : store.validateReport sha256 a (some bytes) = .ok ()) :
    (∃ d, reportDigest a = some d) ∧ bytes.length ≤ maxReportBytes := by
  unfold validateReport at h
  split at h
  · simp at h
  · simp at h
  · cases hd : reportDigest a with
    | none => simp [hd] at h
    | some d =>
      simp only [hd, check_ok, require_ok, decide_eq_true_eq] at h
      exact ⟨⟨d, rfl⟩, h.1⟩

/-- Without a report an accepted admission binds none. -/
theorem validateReport_none {a : ConformanceEvidence}
    (h : store.validateReport sha256 a none = .ok ()) : reportDigest a = none := by
  unfold validateReport at h
  split at h
  · simp at h
  · simp at h
  · cases hd : reportDigest a with
    | none => rfl
    | some d => simp [hd] at h

variable {anchor : ChainAnchor}

theorem verifyFrom_eq {receipts : List SignedReceipt}
    {r : Except ReceiptError VerifiedReceiptHead} :
    verifyFrom sha256 fmt verify receipts anchor = r ↔ Verify.from ()
      (verifyChain sha256 fmt (fixedVerifier verify) receipts anchor) = (r, ()) :=
  ⟨fun h => Prod.ext h rfl, fun h => congrArg Prod.fst h⟩

variable {y : Option VerifiedReceiptHead}

/-- A head is verified from the anchor of the first receipt. -/
theorem verifiedHead_ok {receipts : List SignedReceipt} {authorization : LaunchAuthorization}
    (hn : receipts ≠ []) : store.verifiedHead sha256 fmt verify receipts authorization = .ok y ↔
      ∃ anchor head, store.anchor authorization receipts.head? = .ok anchor ∧
        verifyFrom sha256 fmt verify receipts anchor = .ok head ∧ y = some head := by
  rw [verifiedHead, if_neg hn, bind_ok]
  refine exists_congr fun anchor => ?_
  cases hr : verifyFrom sha256 fmt verify receipts anchor with
  | ok head => simp [pure, Except.pure, eq_comm]
  | error error => cases error <;> simp

variable {head : VerifiedReceiptHead}

/-- A first receipt is admitted under the anchor that the chain it starts is read with. -/
theorem anchor_first {authorization : LaunchAuthorization}
    (h : store.anchor authorization none = .ok anchor)
    (hv : verifyFrom sha256 fmt verify [receipt] anchor = .ok head) :
    store.anchor authorization (some receipt) = .ok anchor := by
  have hp := (verifyChain_accepted (verifyFrom_eq.mp hv)).shape.1.pinned receipt (by simp)
  cases ht : store.trust with
  | installed ra => simpa [ReceiptStore.anchor, ht] using h
  | fixed r =>
    simp only [ReceiptStore.anchor, ht, Option.elim_none, Option.elim_some, ok.injEq] at h ⊢
    rw [← h] at hp ⊢
    rw [ChainAnchor.mk.injEq]
    have hr := congrArg ChainAnchor.releaseId hp
    have hk := congrArg ChainAnchor.signingKeyId hp
    exact ⟨rfl, rfl, hr, hk⟩

/-- A verified chain and a receipt that continues it are a verified chain. -/
theorem verifyFrom_concat {receipts : List SignedReceipt} {t : VerifiedReceiptHead}
    (h : verifyFrom sha256 fmt verify receipts anchor = .ok head)
    (hn : (Verify.from () (verifySuffix sha256 fmt (fixedVerifier verify) [receipt] head)).1 =
      .ok t) : verifyFrom sha256 fmt verify (receipts ++ [receipt]) anchor = .ok t := by
  have hc := verifyFrom_eq.mp h
  obtain ⟨x, xs, _, rfl, _⟩ := verifyChain_ok hc
  rw [verifySuffix_eq _ (validateHead_verifyChain hc)] at hn
  rw [verifyFrom_eq, verifyChain_append, Verify.from_bind, hc]
  exact Prod.ext hn rfl

/-! ### Chains the store has kept -/

/-- The files of a Session are a chain that answers its authorization. -/
structure Keeps (store : ReceiptStore) (sha256 : Sha256) (fmt : JsonFormat)
    (verify : String → Bytes → String → Bool) (authorization : LaunchAuthorization)
    (receipts : List SignedReceipt) (files : Files) : Prop where
  upto : (files.receipts authorization.sessionId).Upto receipts.length
  stored : ∀ sequence receipt, receipts[sequence]? = some receipt →
    (files.receipts authorization.sessionId).lookup sequence = some (receipt.canonicalBytes fmt)
  parsed : ∀ receipt ∈ receipts,
    store.parseCanonical sha256 fmt (receipt.canonicalBytes fmt) = .ok receipt
  reported : ∀ receipt ∈ receipts,
    ∃ report, store.readConformanceReport sha256 files receipt = .ok report
  authorized : ∀ receipt ∈ receipts, checkAuthorized receipt authorization = .ok ()
  verified : receipts ≠ [] → ∃ anchor head, store.anchor authorization receipts.head? = .ok anchor ∧
      verifyFrom sha256 fmt verify receipts anchor = .ok head

variable {authorization : LaunchAuthorization} {receipts : List SignedReceipt} {files : Files}

theorem keeps_empty (h : files.receipts authorization.sessionId = ∅) :
    Keeps store sha256 fmt verify authorization [] files where
  upto := by
    rw [h]
    exact Numbered.upto_empty
  stored := by simp
  parsed := by simp
  reported := by simp
  authorized := by simp
  verified := by simp

theorem readReceipt_ok {k : Numbered Bytes} {seq : Nat} (h : k.lookup seq = some bytes)
    (hs : checkSize bytes = .ok ()) : readReceipt k seq = .ok bytes := by
  rw [checkSize, require_ok] at hs
  simp only [readReceipt, h]
  rw [check_ok, require_ok]
  exact ⟨hs, rfl⟩

section

variable (h : Keeps store sha256 fmt verify authorization receipts files)
include h

theorem Keeps.count : (files.receipts authorization.sessionId).keys.length = receipts.length :=
  h.upto.length_keys

/-- Within the readers' bound the stored bytes are those of the chain. -/
theorem Keeps.storedBytes (hi : isRecordIdentifier authorization.sessionId = true)
    (hb : receipts.length ≤ maxChainReceipts) :
    ReceiptStore.storedBytes files authorization.sessionId =
      .ok (receipts.map (·.canonicalBytes fmt)) := by
  rw [ReceiptStore.storedBytes, check_ok, require_ok]
  refine ⟨hi, ?_⟩
  simp only [h.count]
  rw [check_ok, require_ok, decide_eq_true_eq, mapM_ok, forall₂_iff_get]
  refine ⟨hb, by simp, fun seq ht hl' => ?_⟩
  rw [length_map] at hl'
  have hl := h.stored seq receipts[seq] (List.getElem?_eq_getElem hl')
  have hs := (parseCanonical_ok.mp (h.parsed _ (getElem_mem hl'))).1
  have hp : (List.range receipts.length).get ⟨seq, ht⟩ = seq := by simp
  rw [hp, get_eq_getElem, getElem_map]
  exact readReceipt_ok hl hs

/-- Beyond that bound no reader gets past counting the files. -/
theorem Keeps.storedBytes_beyond (hi : isRecordIdentifier authorization.sessionId = true)
    (hb : maxChainReceipts < receipts.length) :
    ReceiptStore.storedBytes files authorization.sessionId = .error .storage := by
  have hc : decide ((files.receipts authorization.sessionId).keys.length ≤ maxChainReceipts) =
      false := by
    rw [h.count, decide_eq_false_iff_not]
    omega
  simp only [ReceiptStore.storedBytes, hi, hc]
  rfl

variable {receipt : SignedReceipt}

theorem Keeps.readBack (hm : receipt ∈ receipts) :
    store.readBack sha256 fmt files (receipt.canonicalBytes fmt) = .ok receipt := by
  obtain ⟨r, hr⟩ := h.reported receipt hm
  rw [ReceiptStore.readBack, h.parsed receipt hm, Except.mapError, ok_bind, hr]
  rfl

theorem Keeps.chain (hi : isRecordIdentifier authorization.sessionId = true)
    (hb : receipts.length ≤ maxChainReceipts) :
    store.chain sha256 fmt files authorization.sessionId = .ok receipts := by
  rw [ReceiptStore.chain, h.storedBytes hi hb, ok_bind, mapM_ok, forall₂_map_left_iff, forall₂_same]
  exact fun receipt hm => h.readBack hm

/-- Each receipt has the sequence of its place. -/
theorem Keeps.sequence (hm : receipt ∈ receipts) :
    receipt.payload.sequence.toNat ∈ files.receipts authorization.sessionId := by
  obtain ⟨anchor, head, _, hv⟩ := h.verified (ne_nil_of_mem hm)
  have hs := (verifyChain_accepted (verifyFrom_eq.mp hv)).shape.1
  obtain ⟨i, hi⟩ := List.getElem?_of_mem hm
  rw [h.upto, hs.sequence i receipt hi]
  exact (List.getElem?_eq_some_iff.mp hi).1

theorem Keeps.syncChain :
    ReceiptStore.syncChain files authorization.sessionId receipts = .ok () := by
  rw [ReceiptStore.syncChain, check_ok, forM_ok]
  refine ⟨fun receipt hm => require_ok.mpr (decide_eq_true (h.sequence hm)), ?_⟩
  cases receipts with
  | nil => rfl
  | cons x xs =>
    obtain ⟨r, hr⟩ := h.reported x (by simp)
    rw [List.head?_cons, Option.forM_some, require_ok]
    cases hd : reportDigest (admission x) with
    | none => rfl
    | some d =>
      cases hk : files.reports x.payload.sessionId with
      | none => simp [readConformanceReport, hd, hk] at hr
      | some bytes => rfl

/-- Within the readers' bound the whole chain verifies again. -/
theorem Keeps.verifiedChain (hv : authorization.validate = .ok ())
    (hi : isRecordIdentifier authorization.sessionId = true)
    (hb : receipts.length ≤ maxChainReceipts) :
    store.verifiedChain sha256 fmt verify files authorization = .ok receipts := by
  rw [ReceiptStore.verifiedChain, hv, h.chain hi hb]
  have hl : receipts.forM (checkAuthorized · authorization) = .ok () :=
    forM_ok.mpr h.authorized
  have hh : ∃ head, store.verifiedHead sha256 fmt verify receipts authorization = .ok head := by
    by_cases hn : receipts = []
    · exact ⟨none, by rw [ReceiptStore.verifiedHead, if_pos hn]; rfl⟩
    · obtain ⟨anchor, head, ha, he⟩ := h.verified hn
      exact ⟨_, (verifiedHead_ok hn).mpr ⟨anchor, head, ha, he, rfl⟩⟩
  obtain ⟨head, hh⟩ := hh
  simp only [Except.mapError, ok_bind, hl, hh, h.syncChain]
  rfl

end

/-! ### One append -/

/-- A receipt verifies from the head that was found, or starts a chain. -/
def Continues (store : ReceiptStore) (sha256 : Sha256) (fmt : JsonFormat)
    (verify : String → Bytes → String → Bool) (authorization : LaunchAuthorization)
    (receipt : SignedReceipt) : Option VerifiedReceiptHead → Prop
  | some head => ∃ next, (Verify.from ()
      (verifySuffix sha256 fmt (fixedVerifier verify) [receipt] head)).1 = .ok next
  | none => ∃ anchor next, store.anchor authorization none = .ok anchor ∧
      verifyFrom sha256 fmt verify [receipt] anchor = .ok next

theorem admitReceipt_ok
    (h : store.admitReceipt sha256 fmt verify files authorization bytes = .ok receipt) :
    authorization.validate = .ok () ∧ isRecordIdentifier authorization.sessionId = true ∧
      store.parseCanonical sha256 fmt bytes = .ok receipt ∧
      checkAuthorized receipt authorization = .ok () ∧
      ∃ s y, store.chain sha256 fmt files authorization.sessionId = .ok s ∧
        store.verifiedHead sha256 fmt verify s authorization = .ok y ∧
        Continues store sha256 fmt verify authorization receipt y := by
  rw [admitReceipt, check_ok, check_ok, bind_ok] at h
  obtain ⟨hv, hi, p, hp, h⟩ := h
  simp only [check_ok] at h
  obtain ⟨hu, _, _, h⟩ := h
  obtain ⟨s, hs, h⟩ := bind_ok.mp h
  obtain ⟨y, hf, h⟩ := bind_ok.mp h
  rw [mapError_ok] at hv hp
  rw [require_ok] at hi
  cases y with
  | some head =>
    obtain ⟨t, hn, h⟩ := bind_ok.mp h
    obtain rfl : p = receipt := ok.inj h
    rw [mapError_ok] at hn
    exact ⟨hv, hi, hp, hu, s, some head, hs, hf, t, hn⟩
  | none =>
    obtain ⟨anchor, ha, h⟩ := bind_ok.mp h
    obtain ⟨t, hn, h⟩ := bind_ok.mp h
    obtain rfl : p = receipt := ok.inj h
    rw [mapError_ok] at hn
    exact ⟨hv, hi, hp, hu, s, none, hs, hf, anchor, t, ha, hn⟩

/-- A receipt that passes every check of an append is admitted. -/
theorem admit_of {s : List SignedReceipt} (hv : authorization.validate = .ok ())
    (hs : isRecordIdentifier authorization.sessionId = true)
    (hp : store.parseCanonical sha256 fmt bytes = .ok receipt)
    (hu : checkAuthorized receipt authorization = .ok ())
    (hi : isRecordIdentifier authorization.authorizationId = true)
    (hr : authorization.authorizationId ∉ files.recoveries)
    (ht : store.chain sha256 fmt files authorization.sessionId = .ok s)
    (hf : store.verifiedHead sha256 fmt verify s authorization = .ok y)
    (hn : Continues store sha256 fmt verify authorization receipt y) :
    store.admitReceipt sha256 fmt verify files authorization bytes = .ok receipt := by
  rw [admitReceipt, check_ok, check_ok, hp, Except.mapError, ok_bind]
  simp only [check_ok, mapError_ok, require_ok, decide_eq_true_eq]
  refine ⟨hv, hs, hu, hi, hr, ?_⟩
  rw [ht, ok_bind, hf, ok_bind]
  cases y with
  | some head =>
    obtain ⟨t, hn⟩ := hn
    dsimp only
    rw [hn]
    rfl
  | none =>
    obtain ⟨anchor, t, ha, hn⟩ := hn
    dsimp only
    rw [ha, ok_bind, hn]
    rfl

/-- An admitted receipt continues the chain that is kept. -/
theorem Keeps.admitReceipt (h : Keeps store sha256 fmt verify authorization receipts files)
    (hd : store.admitReceipt sha256 fmt verify files authorization bytes = .ok receipt) :
    receipts.length ≤ maxChainReceipts ∧ ∃ anchor head,
      store.anchor authorization (receipts ++ [receipt]).head? = .ok anchor ∧
        verifyFrom sha256 fmt verify (receipts ++ [receipt]) anchor = .ok head := by
  obtain ⟨_, hi, _, _, s, y, hs, hf, hn⟩ := admitReceipt_ok hd
  have hb : receipts.length ≤ maxChainReceipts := by
    by_contra hbe
    have hr := h.storedBytes_beyond hi (by omega)
    rw [ReceiptStore.chain, hr] at hs
    simp [bind, Except.bind] at hs
  refine ⟨hb, ?_⟩
  rw [h.chain hi hb, ok.injEq] at hs
  subst hs
  by_cases he : receipts = []
  · subst he
    obtain rfl : none = y := ok.inj hf
    obtain ⟨anchor, t, ha, hv⟩ := hn
    exact ⟨anchor, t, anchor_first ha hv, hv⟩
  · obtain ⟨anchor, head, ha, hv, rfl⟩ := (verifiedHead_ok he).mp hf
    obtain ⟨t, hn⟩ := hn
    refine ⟨anchor, t, ?_, verifyFrom_concat hv hn⟩
    rw [List.head?_append_of_ne_nil _ he]
    exact ha

/-- A report can be read back where its Session's report file is the same. -/
theorem readConformanceReport_congr {f' : Files}
    (h : f'.reports receipt.payload.sessionId = files.reports receipt.payload.sessionId) :
    store.readConformanceReport sha256 f' receipt =
      store.readConformanceReport sha256 files receipt := by
  rw [readConformanceReport, readConformanceReport, h]

variable {re : Files}

/-- A retained report can be read back; only a launch changes the file of its Session. -/
theorem retainConformanceReport_ok {r : Option Bytes}
    (h : store.retainConformanceReport sha256 files receipt r = .ok re) :
    (∃ k, store.readConformanceReport sha256 re receipt = .ok k) ∧
      re.receipts = files.receipts ∧ re.recoveries = files.recoveries ∧
      (re.reports = files.reports ∨ receipt.payload.outcome.isLaunch = true ∧ ∃ bytes, re.reports =
          Function.update files.reports receipt.payload.sessionId (some bytes)) := by
  unfold retainConformanceReport at h
  rw [check_ok] at h
  obtain ⟨hv, h⟩ := h
  cases r with
  | none =>
    obtain rfl := ok.inj h
    refine ⟨⟨none, ?_⟩, rfl, rfl, .inl rfl⟩
    rw [readConformanceReport, validateReport_none hv]
    dsimp only
    rw [hv]
    rfl
  | some bytes =>
    obtain ⟨⟨d, hd⟩, hs⟩ := validateReport_some hv
    dsimp only at h
    rw [check_ok, require_ok] at h
    obtain ⟨hi, h⟩ := h
    cases hk : files.reports receipt.payload.sessionId with
    | none =>
      rw [hk] at h
      obtain rfl := ok.inj h
      refine ⟨⟨some bytes, ?_⟩, rfl, rfl, .inr ⟨isLaunch_of_reportDigest hd, bytes, rfl⟩⟩
      have ht : bytes.take (maxReportBytes + 1) = bytes := take_of_length_le (by omega)
      rw [readConformanceReport, hd]
      simp only [hi, Function.update_self, ht, hv]
      rfl
    | some k =>
      rw [hk] at h
      obtain ⟨read, hr, h⟩ := bind_ok.mp h
      rw [check_ok] at h
      obtain rfl := ok.inj h.2
      exact ⟨⟨read, hr⟩, rfl, rfl, .inl rfl⟩

/-- A valid receipt is always acknowledged once it is stored, since its anchor was given. -/
theorem acknowledge_of_stored {a : Option SignedReceipt}
    (ha : store.anchor authorization a = .ok anchor) (hv : receipt.validate sha256 fmt = .ok ()) :
    store.acknowledge sha256 fmt authorization receipt =
      .ok (acknowledgement sha256 fmt receipt) := by
  simp only [SignedReceipt.validate, validate, check_ok] at hv
  obtain ⟨_, _, _, _, _, hs, hr, _⟩ := hv
  rw [Launch.validateIdentifier, require_ok] at hs hr
  have ht : store.recheckAnchor authorization = .ok () := by
    cases ht : store.trust with
    | fixed r => rw [recheckAnchor, ht]
    | installed ra =>
      simp only [ReceiptStore.anchor, ht] at ha
      rw [recheckAnchor, ht]
      dsimp only
      rw [ha]
      rfl
  have hc : (acknowledgement sha256 fmt receipt).validate = .ok () := by
    simp [ReceiptAcknowledgement.validate, acknowledgement, Protocol.validateSchema,
      Protocol.validateVersion, Protocol.validateIdentifier, Protocol.validateDigest, hs,
      hr]
  rw [acknowledge, ht, hc]
  rfl

/-- The chain that is kept after a receipt was written behind it. -/
theorem Keeps.write (h : Keeps store sha256 fmt verify authorization receipts files)
    (hp : store.parseCanonical sha256 fmt (receipt.canonicalBytes fmt) = .ok receipt)
    (hu : checkAuthorized receipt authorization = .ok ())
    (ha : store.anchor authorization (receipts ++ [receipt]).head? = .ok anchor)
    (hv : verifyFrom sha256 fmt verify (receipts ++ [receipt]) anchor = .ok head)
    (hr : ∃ k, store.readConformanceReport sha256 re receipt = .ok k)
    (hk : ∀ e ∈ receipts, re.reports e.payload.sessionId = files.reports e.payload.sessionId) :
    Keeps store sha256 fmt verify authorization (receipts ++ [receipt]) { re with
        receipts := Function.update files.receipts authorization.sessionId
          ((files.receipts authorization.sessionId).insert receipts.length
            (receipt.canonicalBytes fmt)) } where
  upto := by
    simp only [Function.update_self, length_append, length_singleton]
    exact h.upto.create _
  stored := by
    intro seq y hf
    simp only [Function.update_self]
    rcases Nat.lt_or_ge seq receipts.length with hl | hg
    · rw [List.getElem?_append_left hl] at hf
      rw [AList.lookup_insert_ne hl.ne]
      exact h.stored seq y hf
    · rw [List.getElem?_append_right hg, List.getElem?_singleton] at hf
      split at hf
      · next hz =>
        obtain rfl : seq = receipts.length := by omega
        rw [AList.lookup_insert, ← Option.some.inj hf]
      · simp at hf
  parsed := by
    intro y hm
    rcases mem_append.mp hm with hm | hm
    · exact h.parsed y hm
    · rw [mem_singleton.mp hm]
      exact hp
  reported := by
    intro y hm
    rcases mem_append.mp hm with hm | hm
    · obtain ⟨r, hf⟩ := h.reported y hm
      exact ⟨r, (readConformanceReport_congr (hk y hm)).trans hf⟩
    · rw [mem_singleton.mp hm]
      exact hr
  authorized := by
    intro y hm
    rcases mem_append.mp hm with hm | hm
    · exact h.authorized y hm
    · rw [mem_singleton.mp hm]
      exact hu
  verified := fun _ => ⟨anchor, head, ha, hv⟩

/-- What is not a Session's does not change with its files. -/
def Apart (sessionId : String) (files after : Files) : Prop :=
  ∀ id, id ≠ sessionId → after.receipts id = files.receipts id ∧ after.reports id = files.reports id

/-- An admitted receipt whose report is retained is stored behind the chain. -/
theorem Keeps.append_admitted {r : Option Bytes}
    (h : Keeps store sha256 fmt verify authorization receipts files)
    (ha : store.admitReceipt sha256 fmt verify files authorization bytes = .ok receipt)
    (ht : store.retainConformanceReport sha256 files receipt r = .ok re) :
    ∃ after, store.append sha256 fmt verify files authorization bytes r =
        (.ok (acknowledgement sha256 fmt receipt), after) ∧ receipt.canonicalBytes fmt = bytes ∧
      Keeps store sha256 fmt verify authorization (receipts ++ [receipt]) after ∧
      Apart authorization.sessionId files after ∧ after.recoveries = files.recoveries := by
  obtain ⟨_, _, hpa, hau, _⟩ := admitReceipt_ok ha
  obtain ⟨_, anchor, head, hn, hv⟩ := h.admitReceipt ha
  obtain ⟨_, _, hb, hc⟩ := parseCanonical_ok.mp hpa
  obtain ⟨hrp, hrc, hre, hr⟩ := retainConformanceReport_ok ht
  have hse := checkAuthorized_sessionId hau
  have hp : receipt.payload.sequence.toNat = receipts.length :=
    (verifyChain_accepted (verifyFrom_eq.mp hv)).shape.1.sequence _ _ (by simp)
  have hf : receipts.length ∉ files.receipts authorization.sessionId := by
    rw [h.upto]
    omega
  have hw : writeReceipt re authorization.sessionId receipt.payload.sequence bytes = .ok { re with
        receipts := Function.update files.receipts authorization.sessionId
          ((files.receipts authorization.sessionId).insert receipts.length bytes) } := by
    rw [writeReceipt, hp, hrc, check_ok, require_ok, decide_eq_true_eq]
    exact ⟨hf, rfl⟩
  unfold ReceiptStore.append
  rw [ha]
  dsimp only
  rw [ht]
  dsimp only
  rw [hw, acknowledge_of_stored hn hc]
  subst hb
  refine ⟨_, rfl, rfl, h.write hpa hau hn hv hrp ?_, ?_, hre⟩
  · -- Only the first receipt of a chain may bind a report.
    intro e hm
    rcases hr with hs | ⟨hl, _⟩
    · rw [hs]
    · have hz := (SignedReceipt.validate_ok hc).launch.mp hl
      rw [hz] at hp
      exact absurd (eq_nil_of_length_eq_zero hp.symm) (ne_nil_of_mem hm)
  · intro id he
    refine ⟨Function.update_of_ne he .., ?_⟩
    rcases hr with hs | ⟨_, bytes, hu⟩
    · exact congrFun hs id
    · change re.reports id = files.reports id
      rw [hu, hse]
      exact Function.update_of_ne he ..

/-- An append either refuses and changes nothing, or stores the receipt behind the chain. -/
theorem Keeps.append (h : Keeps store sha256 fmt verify authorization receipts files)
    (bytes : Bytes) (r : Option Bytes) :
    (∃ error, store.append sha256 fmt verify files authorization bytes r = (.error error, files)) ∨
    ∃ receipt after, store.append sha256 fmt verify files authorization bytes r =
        (.ok (acknowledgement sha256 fmt receipt), after) ∧
      receipt.canonicalBytes fmt = bytes ∧ authorization.validate = .ok () ∧
      isRecordIdentifier authorization.sessionId = true ∧ receipts.length ≤ maxChainReceipts ∧
      Keeps store sha256 fmt verify authorization (receipts ++ [receipt]) after ∧
      Apart authorization.sessionId files after := by
  cases ha : store.admitReceipt sha256 fmt verify files authorization bytes with
  | error error => exact .inl ⟨error, by rw [ReceiptStore.append, ha]⟩
  | ok receipt =>
    cases hr : store.retainConformanceReport sha256 files receipt r with
    | error error =>
      refine .inl ⟨error, ?_⟩
      rw [ReceiptStore.append, ha]
      dsimp only
      rw [hr]
    | ok re =>
      obtain ⟨hv, hi, _⟩ := admitReceipt_ok ha
      obtain ⟨after, he, hb, hf, hp, _⟩ := h.append_admitted ha hr
      exact .inr ⟨receipt, after, he, hb, hv, hi, (h.admitReceipt ha).1, hf, hp⟩

variable {after : Files}

/-- What is kept of a Session does not depend on the files of others. -/
theorem Keeps.apart {si : String} (h : Keeps store sha256 fmt verify authorization receipts files)
    (ha : Apart si files after) (hn : authorization.sessionId ≠ si) :
    Keeps store sha256 fmt verify authorization receipts after := by
  have hf := ha authorization.sessionId hn
  refine ⟨by rw [hf.1]; exact h.upto, by rw [hf.1]; exact h.stored, h.parsed, ?_,
    h.authorized, h.verified⟩
  intro receipt hm
  obtain ⟨r, hr⟩ := h.reported receipt hm
  refine ⟨r, (readConformanceReport_congr ?_).trans hr⟩
  rw [checkAuthorized_sessionId (h.authorized receipt hm)]
  exact hf.2

/-! ### Runs of appends -/

/-- The one launch authorization each Session runs under. -/
structure Sessions where
  held : String → LaunchAuthorization
  names : ∀ sessionId, (held sessionId).sessionId = sessionId

/-- One offered receipt, with the observations offered beside it. -/
structure Call where
  sessionId : String
  receiptBytes : Bytes
  reportBytes : Option Bytes

variable (store sha256 fmt verify) (sessions : Sessions)

/-- The result of one append and the files after it. -/
def answer (files : Files) (call : Call) : Except BrokerError ReceiptAcknowledgement × Files :=
  store.append sha256 fmt verify files (sessions.held call.sessionId) call.receiptBytes
    call.reportBytes

/-- The files after one append. -/
def appended (files : Files) (call : Call) : Files :=
  (store.answer sha256 fmt verify sessions files call).2

/-- Every reader accepts the chain an acknowledgement extended, and finds it in place. -/
structure Readable (sessionId : String) (bytes : Bytes) (said : ReceiptAcknowledgement)
    (before after : Files) : Prop where
  stored : ∃ earlier, storedBytes before sessionId = .ok earlier ∧
    storedBytes after sessionId = .ok (earlier ++ [bytes])
  head : store.head sha256 fmt after sessionId = .ok (some ⟨said.sequence, said.receiptDigest⟩)
  state : ∃ reached, store.state sha256 fmt after sessionId = .ok (some reached)
  verified : ∃ chain anchor head,
    store.verifiedChain sha256 fmt verify after (sessions.held sessionId) = .ok chain ∧
      storedBytes after sessionId = .ok (chain.map (·.canonicalBytes fmt)) ∧
      store.anchor (sessions.held sessionId) chain.head? = .ok anchor ∧
      verifyFrom sha256 fmt verify chain anchor = .ok head

/-- An acknowledgement leaves a readable chain, and a refusal the same stored bytes. -/
def Sound (files : Files) (call : Call) : Prop :=
  match store.answer sha256 fmt verify sessions files call with
  | (.ok said, after) =>
    store.Readable sha256 fmt verify sessions call.sessionId call.receiptBytes said files after
  | (.error _, after) => ∀ sessionId, storedBytes after sessionId = storedBytes files sessionId

/-- The chain is not yet as long as the readers accept. -/
def Below (files : Files) (call : Call) : Prop :=
  (files.receipts call.sessionId).keys.length ≠ maxChainReceipts

/-- Every Session's files are a chain that answers its authorization. -/
def AllKept (files : Files) : Prop :=
  ∀ sessionId, ∃ receipts, Keeps store sha256 fmt verify (sessions.held sessionId) receipts files

variable {store sha256 fmt verify sessions} {call : Call}

theorem AllKept.appended (h : AllKept store sha256 fmt verify sessions files) :
    AllKept store sha256 fmt verify sessions
      (store.appended sha256 fmt verify sessions files call) := by
  intro si
  obtain ⟨receipts, hk⟩ := h si
  obtain ⟨k, hc⟩ := h call.sessionId
  unfold ReceiptStore.appended answer
  rcases hc.append call.receiptBytes call.reportBytes with
    ⟨e, hr⟩ | ⟨receipt, after, hr, _, _, _, _, hf, ha⟩
  · rw [hr]
    exact ⟨receipts, hk⟩
  · rw [hr]
    by_cases hs : si = call.sessionId
    · rw [hs]
      exact ⟨_, hf⟩
    · exact ⟨receipts, hk.apart ha (by rwa [sessions.names, sessions.names])⟩

/-- Below the readers' bound an append does what it says. -/
theorem AllKept.sound (h : AllKept store sha256 fmt verify sessions files)
    (hb : Below files call) : store.Sound sha256 fmt verify sessions files call := by
  obtain ⟨receipts, hk⟩ := h call.sessionId
  have hn := sessions.names call.sessionId
  unfold Sound answer
  rcases hk.append call.receiptBytes call.reportBytes with
    ⟨e, he⟩ | ⟨receipt, after, he, hy, hl, hi, ho, hf, _⟩
  · rw [he]
    exact fun _ => rfl
  · rw [he]
    have ht := hk.count
    rw [hn] at ht
    have hr : (receipts ++ [receipt]).length ≤ maxChainReceipts := by
      rw [Below, ht] at hb
      rw [length_append, length_singleton]
      omega
    have hc := hf.chain hi hr
    have hs := hf.storedBytes hi hr
    have hver := hf.verifiedChain hl hi hr
    obtain ⟨anchor, head, ha, hv⟩ := hf.verified (by simp)
    have hbef := hk.storedBytes hi ho
    rw [hn] at hc hs hbef
    exact {
      stored := ⟨_, hbef, by rw [hs, map_append, ← hy]; rfl⟩
      head := by
        rw [ReceiptStore.head, hc, ok_bind, List.getLast?_concat]
        rfl
      state := ⟨receipt.payload.resultingState, by
        rw [ReceiptStore.state, hc, ok_bind, List.getLast?_concat]
        rfl⟩
      verified := ⟨_, anchor, head, hver, hs, ha, hv⟩ }

variable {said : ReceiptAcknowledgement}

/-- At that bound an acknowledged append leaves a chain that no reader accepts. -/
theorem AllKept.unreadable (h : AllKept store sha256 fmt verify sessions files)
    (hf : ¬ Below files call)
    (ha : store.answer sha256 fmt verify sessions files call = (.ok said, after)) :
    storedBytes after call.sessionId = .error .storage ∧
      store.head sha256 fmt after call.sessionId = .error .storage ∧
      store.state sha256 fmt after call.sessionId = .error .storage ∧
      store.verifiedChain sha256 fmt verify after (sessions.held call.sessionId) =
        .error .storage := by
  obtain ⟨receipts, hk⟩ := h call.sessionId
  have hn := sessions.names call.sessionId
  rcases hk.append call.receiptBytes call.reportBytes with
    ⟨error, hr⟩ | ⟨receipt, l', hr, hy, hv, hi, ho, haft, _⟩
  · rw [answer, hr] at ha
    simp at ha
  · rw [answer, hr] at ha
    obtain rfl : l' = after := congrArg Prod.snd ha
    have ht := hk.count
    rw [hn] at ht
    have hb : maxChainReceipts < (receipts ++ [receipt]).length := by
      rw [Below, ht, not_not] at hf
      rw [length_append, length_singleton]
      omega
    have hs := haft.storedBytes_beyond hi hb
    rw [hn] at hs
    have hc : store.chain sha256 fmt l' call.sessionId = .error .storage := by
      rw [ReceiptStore.chain, hs]
      rfl
    refine ⟨hs, by rw [ReceiptStore.head, hc]; rfl,
      by rw [ReceiptStore.state, hc]; rfl, ?_⟩
    rw [ReceiptStore.verifiedChain, hv, hn, hc]
    rfl

theorem AllKept.run (h : AllKept store sha256 fmt verify sessions files) (c : List Call) :
    AllKept store sha256 fmt verify sessions
      (c.foldl (store.appended sha256 fmt verify sessions) files) :=
  (always_of_throughout (C := fun _ _ => True) (fun _ _ h _ => AllKept.appended h) h
    (throughout_of_forall (fun _ _ => trivial) files c)).last

/-- An acknowledged append at the readers' bound is not sound. -/
theorem AllKept.unsound (h : AllKept store sha256 fmt verify sessions files)
    (hf : ¬ Below files call)
    (ha : store.answer sha256 fmt verify sessions files call = (.ok said, after)) :
    ¬ store.Sound sha256 fmt verify sessions files call := by
  intro hs
  have hb := (h.unreadable hf ha).1
  rw [Sound, ha] at hs
  obtain ⟨_, _, ht⟩ := hs.stored
  rw [hb] at ht
  simp at ht

/-- From a store without receipts, every run that appends to no chain of the readers' full
length leaves readable chains and keeps what it refuses to change; an append acknowledged at
that length leaves a chain that no reader accepts. -/
theorem append_readable (store : ReceiptStore) (sha256 : Sha256) (fmt : JsonFormat)
    (verify : String → Bytes → String → Bool) (sessions : Sessions) (files : Files)
    (calls : List Call) (hempty : ∀ sessionId, files.receipts sessionId = ∅) :
    (Throughout (store.appended sha256 fmt verify sessions) Below files calls →
      Throughout (store.appended sha256 fmt verify sessions)
        (store.Sound sha256 fmt verify sessions) files calls) ∧
    ∀ before call later, calls = before ++ call :: later →
      let reached := before.foldl (store.appended sha256 fmt verify sessions) files
      ∀ said after, store.answer sha256 fmt verify sessions reached call = (.ok said, after) →
        (store.Sound sha256 fmt verify sessions reached call ↔ Below reached call) ∧
        (¬ Below reached call → storedBytes after call.sessionId = .error .storage ∧
            store.head sha256 fmt after call.sessionId = .error .storage ∧
            store.state sha256 fmt after call.sessionId = .error .storage ∧
            store.verifiedChain sha256 fmt verify after (sessions.held call.sessionId) =
              .error .storage) := by
  have hs : AllKept store sha256 fmt verify sessions files := fun sessionId =>
    ⟨[], keeps_empty (hempty _)⟩
  refine ⟨Throughout.imp (fun _ _ => AllKept.appended) (fun _ _ => AllKept.sound) hs, ?_⟩
  rintro before call later rfl reached said after ha
  have hr : AllKept store sha256 fmt verify sessions reached := hs.run before
  refine ⟨⟨fun ho => ?_, hr.sound⟩, fun hf => hr.unreadable hf ha⟩
  by_contra hf
  exact hr.unsound hf ha ho

/-! ### The longest run -/

section

open Launch.Protocol (LifecycleAction zeroHash zeroText zeroText_canonical)

/-- A request identity for each of the first receipts of a chain. -/
def requestName (i : Nat) : String :=
  String.ofList (List.replicate (i / 32) 'a' ++ List.replicate (i % 32 + 1) 'b')

variable {i : Nat}

private theorem requestName_inj {j : Nat} (h : requestName i = requestName j) : i = j := by
  have hl := String.ofList_injective h
  have ha := congrArg (List.count 'a') hl
  have hb := congrArg (List.count 'b') hl
  simp [count_append, count_replicate] at ha hb
  omega

private theorem requestName_valid (h : i < 1025) :
    Protocol.validateIdentifier (requestName i) = .ok () := by
  have hh : ∀ c ∈ (requestName i).toList, c = 'a' ∨ c = 'b' := by
    intro c hc
    rw [requestName, String.toList_ofList, mem_append] at hc
    exact hc.imp eq_of_mem_replicate eq_of_mem_replicate
  have hs : (requestName i).utf8ByteSize = i / 32 + (i % 32 + 1) := by
    rw [utf8ByteSize_eq_length fun c hc => by rcases hh c hc with rfl | rfl <;> rfl, requestName,
      String.toList_ofList]
    simp
  have hn : requestName i ≠ "" := by
    intro he
    rw [he] at hs
    simp at hs
  rw [Protocol.validateIdentifier, require_ok, Text.bounded, hs]
  simp only [Bool.and_eq_true, bne_iff_ne, ne_eq, decide_eq_true_eq, all_eq_true]
  refine ⟨⟨hn, by rw [maxIdentifierBytes]; omega⟩, fun c hc => ?_⟩
  rcases hh c hc with rfl | rfl <;> rfl

/-- The launch, the start, and then interrupts without end. -/
def longOutcome : Nat → ReceiptOutcome
  | 0 => .launch ⟨"authorization", requestName 0, zeroText⟩ {
      role := .agent
      conformance := .unevaluated
      launchRequestDigest := zeroText
      runtimeMeasurementDigest := zeroText
      skills := .enabled zeroText zeroText
      sessionInputManifestId := zeroText
      isolationContract := contractVersion
      isolationBackendId := "backend"
      kernelIdentity := "kernel"
      isolationEvidenceDigest := zeroText
      brokerLossGraceMs := 5000
      capabilityChannelIds := ["model"] }
  | 1 => .start (.cause .launchAcknowledged) ⟨1, 1, 1, zeroText, false⟩
  | i + 2 => LifecycleAction.interrupt.outcome ⟨"authorization", requestName (i + 2), zeroText⟩

def longReceipt (i : Nat) : SignedReceipt where
  schema := signedReceiptSchema
  signature := "armored"
  payload := {
    schema := receiptSchema
    sessionId := "session"
    runId := "run"
    requestId := requestName i
    envelopeRevision := 1
    sequence := UInt64.ofNat i
    previousReceiptDigest := if i = 0 then none else some zeroText
    releaseId := zeroText
    signingKeyId := zeroText
    resultingState := if i = 0 then .starting else .running
    outcome := longOutcome i }

private theorem session_valid : Protocol.validateIdentifier "session" = .ok () := by decide

private theorem run_valid : Protocol.validateIdentifier "run" = .ok () := by decide

private theorem authorization_valid : Protocol.validateIdentifier "authorization" = .ok () := by
  decide

private theorem longOutcome_weight (h : i < 1025) (hn : i ≠ 0) :
    weight (toJson (longOutcome i)) ≤ 2500 := by
  match i, hn with
  | 1, _ => decide
  | i + 2, _ =>
    exact Protocol.weight_outcome .interrupt authorization_valid (requestName_valid h)
      zeroText_canonical

private theorem longPayload_weight (h : i < 1025) :
    weight (toJson (longReceipt i).payload) ≤ 8192 := by
  match i with
  | 0 => decide
  | i + 1 =>
    exact Protocol.weight_payload rfl session_valid run_valid (requestName_valid h) rfl
      zeroText_canonical zeroText_canonical zeroText_canonical
      (longOutcome_weight h (by omega))

private theorem longReceipt_size (h : i < 1025) :
    checkSize ((longReceipt i).canonicalBytes format) = .ok () ∧
      checkSize ((longReceipt i).payload.canonicalBytes format) = .ok () := by
  have hp := longPayload_weight h
  have hk : ((longReceipt i).members.map (·.1.utf8ByteSize)).sum = 22 := rfl
  have hc : weight (toJson signedReceiptSchema) = 194 := rfl
  have hi : weight (toJson "armored") = 44 := rfl
  have he : weight (toJson (longReceipt i)) ≤ 16384 := by
    change weight (.obj (longReceipt i).members) ≤ _
    rw [weight_obj, hk]
    simp only [SignedReceipt.members, map_cons, map_nil, sum_cons, sum_nil, length_cons, length_nil]
    have hs : weight (toJson (longReceipt i).schema) = 194 := hc
    have hg : weight (toJson (longReceipt i).signature) = 44 := hi
    omega
  constructor
  · rw [checkSize, require_ok, decide_eq_true_eq, maxReceiptBytes]
    exact (length_toVec_le _).trans (by omega)
  · rw [checkSize, require_ok, decide_eq_true_eq, maxReceiptBytes]
    exact (length_toVec_le _).trans (by omega)

private theorem longSequence (h : i + 1 < 1025) : (longReceipt (i + 1)).payload.sequence ≠ 0 := by
  intro hz
  have := congrArg UInt64.toNat hz
  change (UInt64.ofNat (i + 1)).toNat = 0 at this
  rw [UInt64.toNat_ofNat_of_lt' (by rw [UInt64.size]; omega)] at this
  omega

private theorem longReceipt_predecessor (h : i < 1025) :
    (longReceipt i).payload.validatePredecessor = .ok () := by
  match i with
  | 0 => rfl
  | i + 1 => exact validatePredecessor_some rfl (longSequence h) zeroText_canonical

private theorem longReceipt_outcome (h : i < 1025) :
    (longReceipt i).payload.validateOutcome zeroHash format = .ok () := by
  have hd : ∀ f, validateDigest f zeroText = .ok () := fun _ =>
    require_ok.mpr zeroText_canonical
  match i with
  | 0 =>
    have hv : validViewDigest zeroText = true := validViewDigest_toString _
    simp only [longReceipt, longOutcome, validateOutcome, validateAuthorization,
      validateLaunchEvidence, validateConformance, hd, check_ok,
      SkillInputs.validate, hv, Bool.and_self]
    decide
  | 1 =>
    simp only [longReceipt, longOutcome, validateOutcome, hd, check_ok]
    decide
  | i + 2 =>
    have ho : (longReceipt (i + 2)).payload.outcome = LifecycleAction.interrupt.outcome
        ⟨"authorization", requestName (i + 2), zeroText⟩ := rfl
    exact Protocol.validateOutcome_authorized ho
      (Protocol.validateLater_authorized rfl (longSequence h) authorization_valid
        (requestName_valid h) zeroText_canonical rfl)

private theorem longReceipt_result (i : Nat) :
    (longReceipt i).payload.outcome.resultMatches (longReceipt i).payload.resultingState =
      true := by
  match i with
  | 0 => rfl
  | 1 => rfl
  | i + 2 => rfl

/-- Each receipt of the run is one that its reader accepts. -/
theorem longReceipt_validate (h : i < 1025) :
    (longReceipt i).validate zeroHash format = .ok () := by
  obtain ⟨he, hp⟩ := longReceipt_size h
  have hd : ∀ f, validateDigest f zeroText = .ok () := fun _ =>
    require_ok.mpr zeroText_canonical
  have hs : ("armored" != "" && "armored".utf8ByteSize ≤ maxSignatureBytes) = true := by
    decide
  have hn : validateIdentifier "request_id" (requestName i) = .ok () :=
    Protocol.validateIdentifier_receipt (requestName_valid h) _
  simp only [SignedReceipt.validate, validate, check_ok]
  exact ⟨he, require_ok.mpr (beq_self_eq_true signedReceiptSchema),
    require_ok.mpr hs, hp, require_ok.mpr (beq_self_eq_true receiptSchema),
    Protocol.validateIdentifier_receipt session_valid _,
    Protocol.validateIdentifier_receipt run_valid _, hn, hd _, hd _,
    longReceipt_predecessor h, longReceipt_outcome h, require_ok.mpr (longReceipt_result i)⟩

/-! The run itself. -/

def longAuthorization (sessionId : String) : LaunchAuthorization where
  role := .agent
  conformance := ⟨.unattended, none⟩
  schema := launchAuthorizationSchema
  protocolVersion := protocolVersion
  authorizationId := "authorization"
  requestId := requestName 0
  requestDigest := zeroText
  controllerUid := 1000
  sessionId := sessionId
  runId := "run"
  envelopeRevision := 1
  identitySlot := 0
  assignedUid := 1
  assignedGid := 1
  providerExpiresAtMs := none
  expiresAtMs := 1
  brokerLossGraceMs := 5000

def longSessions : Sessions := ⟨longAuthorization, fun _ => rfl⟩

/-- Reads exactly the canonical bytes of receipts. -/
noncomputable def longStore : ReceiptStore where
  trust := .fixed ⟨zeroText, zeroText⟩
  decodeReceipt bytes :=
    open Classical in
    if h : ∃ receipt : SignedReceipt, receipt.canonicalBytes format = bytes then
      .ok h.choose
    else .error (.malformed "")
  parseReport _ := none

def longCall (i : Nat) : Call := ⟨"session", (longReceipt i).canonicalBytes format, none⟩

def noFiles : Files := ⟨fun _ => ∅, fun _ => none, ∅⟩

/-- The files after the first receipts. -/
noncomputable def longFiles (n : Nat) : Files :=
  ((List.range n).map longCall).foldl
    (longStore.appended zeroHash format (fun _ _ _ => true) longSessions) noFiles

private theorem longStore_decode (receipt : SignedReceipt) :
    longStore.decodeReceipt (receipt.canonicalBytes format) = .ok receipt := by
  have h : ∃ o : SignedReceipt,
      o.canonicalBytes format = receipt.canonicalBytes format := ⟨receipt, rfl⟩
  have hc : h.choose = receipt :=
    (format.toVec_inj (by decide)).mp h.choose_spec
  unfold longStore
  dsimp only
  rw [dif_pos h, hc]

/-- The authorization of the long run is one that launches. -/
theorem longAuthorization_validate : (longAuthorization "session").validate = .ok () := by
  have hd : Protocol.validateDigest zeroText = .ok () :=
    require_ok.mpr zeroText_canonical
  simp only [LaunchAuthorization.validate, longAuthorization, hd, session_valid, run_valid,
    authorization_valid, requestName_valid (by decide : 0 < 1025), check_ok]
  decide

private theorem longReceipt_authorized (i : Nat) :
    checkAuthorized (longReceipt i) (longAuthorization "session") = .ok () := by
  simp only [checkAuthorized, longReceipt, longAuthorization, check_ok]
  refine ⟨by decide, ?_⟩
  rcases i with _ | _ | i
  · simp only [longOutcome, check_ok]
    exact ⟨by simp, trivial⟩
  · rfl
  · rfl

/-- The head after the first receipts. -/
def longHead (n : Nat) : VerifiedReceiptHead where
  sessionId := "session"
  runId := "run"
  releaseId := zeroText
  signingKeyId := zeroText
  sequence := UInt64.ofNat (n - 1)
  receiptDigest := zeroText
  state := if n = 1 then .starting else .running
  envelopeRevision := 1
  requestIds := (Finset.range n).image requestName

variable {n : Nat}

private theorem longHead_advance (h : n ≠ 0) :
    advance zeroHash format (longHead n) (longReceipt n) = longHead (n + 1) := by
  simp only [advance, longHead, longReceipt, Finset.range_add_one, Finset.image_insert,
    VerifiedReceiptHead.mk.injEq]
  exact ⟨trivial, trivial, trivial, trivial, by simp, by rw [zeroText]; rfl, by simp [h], trivial,
    trivial⟩

private theorem longHead_next (h : n < 1025) (he : n ≠ 0) :
    checkNext zeroHash format (longHead n) (longReceipt n) = .ok () := by
  have hs : nextSequence (UInt64.ofNat (n - 1)) = .ok (UInt64.ofNat n) := by
    rw [nextSequence_ok, UInt64.toNat_ofNat_of_lt' (by rw [UInt64.size]; omega),
      UInt64.toNat_ofNat_of_lt' (by rw [UInt64.size]; omega)]
    omega
  have hf : requestName n ∉ (Finset.range n).image requestName := by
    intro hm
    obtain ⟨i, hi, hn⟩ := Finset.mem_image.mp hm
    rw [Finset.mem_range, requestName_inj hn] at hi
    omega
  have ht : validTransition (longHead n).state (longReceipt n).payload.outcome
      (longReceipt n).payload.resultingState = true := by
    match n, he with
    | 1, _ => rfl
    | n + 2, _ =>
      simp [longHead, longReceipt, longOutcome, LifecycleAction.outcome, validTransition]
  rw [checkNext, longReceipt_validate h, ok_bind]
  change nextSequence (UInt64.ofNat (n - 1)) >>= _ = _
  rw [hs, ok_bind]
  simp only [check_ok, require_ok]
  exact ⟨beq_self_eq_true (UInt64.ofNat n), by simp [longReceipt, longHead, he],
    checkPinned_ok.mpr rfl, decide_eq_true (UInt64.le_refl 1), ht,
    decide_eq_true hf⟩

private theorem longAnchor_validate : validateAnchor (longReceipt 0).payload.pins = .ok () := by
  have hd : ∀ f, validateDigest f zeroText = .ok () := fun _ =>
    require_ok.mpr zeroText_canonical
  simp only [validateAnchor, check_ok]
  exact ⟨Protocol.validateIdentifier_receipt session_valid _,
    Protocol.validateIdentifier_receipt run_valid _, hd _, hd _⟩

private theorem longFirst_verifies : verifyFrom zeroHash format (fun _ _ _ => true)
    [longReceipt 0] (longReceipt 0).payload.pins = .ok (longHead 1) := by
  have hf : checkFirst zeroHash format (longReceipt 0).payload.pins (longReceipt 0) = .ok () := by
    simp only [checkFirst, check_ok]
    exact ⟨by decide, checkPinned_ok.mpr rfl, longReceipt_validate (by decide)⟩
  have hh : headOf zeroHash format (longReceipt 0) = longHead 1 := rfl
  rw [verifyFrom_eq]
  simp only [verifyChain, longAnchor_validate, hf, ← hh]
  rfl

/-- The state of the run after the first receipts. -/
structure LongState (n : Nat) : Prop where
  keeps : Keeps longStore zeroHash format (fun _ _ _ => true)
    (longAuthorization "session") ((List.range n).map longReceipt) (longFiles n)
  recoveries : (longFiles n).recoveries = ∅
  verified : n ≠ 0 → verifyFrom zeroHash format (fun _ _ _ => true)
    ((List.range n).map longReceipt) (longReceipt 0).payload.pins = .ok (longHead n)

private theorem LongState.admitReceipt (h : LongState n) (hn : n < 1025) :
    longStore.admitReceipt zeroHash format (fun _ _ _ => true) (longFiles n)
      (longAuthorization "session") ((longReceipt n).canonicalBytes format) =
        .ok (longReceipt n) := by
  have hp : longStore.parseCanonical zeroHash format
      ((longReceipt n).canonicalBytes format) = .ok (longReceipt n) :=
    parseCanonical_ok.mpr
      ⟨(longReceipt_size hn).1, longStore_decode _, rfl, longReceipt_validate hn⟩
  have hc : longStore.chain zeroHash format (longFiles n) "session" =
      .ok ((List.range n).map longReceipt) :=
    h.keeps.chain (by decide) (by rw [length_map, length_range, maxChainReceipts]; omega)
  have hr : "authorization" ∉ (longFiles n).recoveries := by
    rw [h.recoveries]
    simp
  have ha : ∀ y, longStore.verifiedHead zeroHash format (fun _ _ _ => true)
        ((List.range n).map longReceipt) (longAuthorization "session") = .ok y →
      Continues longStore zeroHash format (fun _ _ _ => true)
        (longAuthorization "session") (longReceipt n) y → _ :=
    fun y => admit_of longAuthorization_validate (by decide) hp (longReceipt_authorized n)
      (by decide) hr hc
  by_cases he : n = 0
  · subst he
    exact ha none rfl ⟨_, longHead 1, rfl, longFirst_verifies⟩
  · have hv := h.verified he
    have hl := validateHead_verifyChain (verifyFrom_eq.mp hv)
    have ho : (List.range n).map longReceipt ≠ [] := by simpa using he
    have hf : ((List.range n).map longReceipt).head? = some (longReceipt 0) := by
      obtain ⟨m, rfl⟩ := Nat.exists_eq_succ_of_ne_zero he
      rw [Nat.succ_eq_add_one, range_succ_eq_map]
      rfl
    refine ha (some (longHead n)) ((verifiedHead_ok ho).mpr
      ⟨(longReceipt 0).payload.pins, longHead n, ?_, hv, rfl⟩) ⟨longHead (n + 1), ?_⟩
    · rw [hf]
      rfl
    · rw [← longHead_advance he]
      exact congrArg Prod.fst (verifySuffix_singleton hl (longHead_next hn he) rfl)

private theorem longAdmission (n : Nat) : admission (longReceipt n) = .unevaluated := by
  match n with
  | 0 => rfl
  | 1 => rfl
  | n + 2 => rfl

private theorem LongState.answer (h : LongState n) (hn : n < 1025) :
    ∃ after, longStore.answer zeroHash format (fun _ _ _ => true) longSessions (longFiles n)
        (longCall n) = (.ok (acknowledgement zeroHash format (longReceipt n)), after) ∧
      LongState (n + 1) := by
  have hre : longStore.retainConformanceReport zeroHash (longFiles n) (longReceipt n) none =
      .ok (longFiles n) := by
    rw [retainConformanceReport, longAdmission]
    rfl
  obtain ⟨after, hres, _, hk, _, hr⟩ :=
    h.keeps.append_admitted (h.admitReceipt hn) hre
  have hf : longFiles (n + 1) = after := by
    have hs : longFiles (n + 1) = longStore.appended zeroHash format
        (fun _ _ _ => true) longSessions (longFiles n) (longCall n) := by
      rw [longFiles, range_succ, map_append, foldl_append]
      rfl
    rw [hs]
    exact congrArg Prod.snd hres
  have ha : (List.range (n + 1)).map longReceipt =
      (List.range n).map longReceipt ++ [longReceipt n] := by
    rw [range_succ, map_append]
    rfl
  refine ⟨after, hres, ?_, ?_, fun _ => ?_⟩
  · rw [hf, ha]
    exact hk
  · rw [hf, hr, h.recoveries]
  · by_cases he : n = 0
    · subst he
      exact longFirst_verifies
    · have hv := h.verified he
      have hl := validateHead_verifyChain (verifyFrom_eq.mp hv)
      rw [ha, ← longHead_advance he]
      exact verifyFrom_concat hv
        (congrArg Prod.fst (verifySuffix_singleton hl (longHead_next hn he) rfl))

/-- The run reaches each of its states. -/
theorem longState (h : n ≤ 1025) : LongState n := by
  induction n with
  | zero => exact ⟨keeps_empty rfl, rfl, fun he => absurd rfl he⟩
  | succ n ih =>
    obtain ⟨_, _, hn⟩ := (ih (by omega)).answer (by omega)
    exact hn

private theorem LongState.unsound (h : LongState n) (hf : n = maxChainReceipts) :
    ¬ longStore.Sound zeroHash format (fun _ _ _ => true) longSessions (longFiles n)
      (longCall n) := by
  obtain ⟨after, ha, _⟩ := h.answer (by rw [hf, maxChainReceipts]; omega)
  have hs : AllKept longStore zeroHash format (fun _ _ _ => true) longSessions
      noFiles := fun _ => ⟨[], keeps_empty rfl⟩
  have hc : ¬ Below (longFiles n) (longCall n) := by
    have hk : ((longFiles n).receipts "session").keys.length = _ := h.keeps.count
    rw [Below, not_not]
    exact hk.trans (by simpa using hf)
  exact (hs.run _).unsound hc ha

theorem append_readable_launch :
    Throughout (longStore.appended zeroHash format (fun _ _ _ => true) longSessions)
      (longStore.Sound zeroHash format (fun _ _ _ => true) longSessions) noFiles [longCall 0] :=
  (append_readable longStore zeroHash format (fun _ _ _ => true) longSessions noFiles
    [longCall 0] fun _ => rfl).1 ⟨show (0 : Nat) ≠ 1024 by decide, trivial⟩

private theorem longRun_unsound (hn : n = maxChainReceipts) :
    ¬ Throughout (longStore.appended zeroHash format (fun _ _ _ => true) longSessions)
      (longStore.Sound zeroHash format (fun _ _ _ => true) longSessions) noFiles
      ((List.range (n + 1)).map longCall) := by
  intro hs
  rw [range_succ, map_append] at hs
  have ht : LongState n := longState (by rw [hn, maxChainReceipts]; omega)
  exact ht.unsound hn hs.at

/-- A launch, a start and 1023 interrupts are all acknowledged, and after the last of them no
reader accepts the chain. -/
theorem append_beyond_bound :
    ¬ Throughout (longStore.appended zeroHash format (fun _ _ _ => true) longSessions)
      (longStore.Sound zeroHash format (fun _ _ _ => true) longSessions) noFiles
      ((List.range 1025).map longCall) :=
  longRun_unsound (n := 1024) rfl

end

end Louiselm.Broker.ReceiptStore
