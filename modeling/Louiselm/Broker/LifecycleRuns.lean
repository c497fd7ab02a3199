import Louiselm.Broker.LifecycleStatus

/-!
# Runs of lifecycle requests

A Session's worker prepares requests, records refusals of the supervisor and stores the receipts
that it sends, `skills-core/src/broker/lifecycle.rs` and `receipts.rs`. Any of these may stop
between two of its writes and be followed by others. In every state that is reached at most one
accepted request has neither a receipt nor a recorded failure.
-/

namespace Louiselm.Broker.Lifecycle
open Base Canonical Launch List Option
open Launch.Protocol (CompletedRequest LaunchAuthorization LifecycleAction
  LifecycleRequest ProtocolError RequestDisposition SupervisorStatus authorizedLifecycleOutcome
  evaluateRequest)
open Base.Program
open Broker.Authorization (Records Stored readRecord)
open ReceiptStore Guard Directory
open Except (ok.inj)

/-! ### Receipts on record -/

section

variable (format : Format) (store : ReceiptStore) (broker : BrokerState)

/-- A receipt lies in a file of the Session's chain. -/
def InChain (sessionId : String) (receipt : SignedReceipt) : Prop :=
  ∃ number bytes, (broker.receipts.receipts sessionId).lookup number = some bytes ∧
    store.parseCanonical format.sha256 format.json bytes = .ok receipt

/-- A request has a receipt in the chain or a recorded failure. -/
def Resolved (sessionId : String) (request : LifecycleRequest) : Prop :=
  (∃ receipt, InChain format store broker sessionId receipt ∧
    receipt.payload.requestId = request.requestId) ∨
      ∃ error, failure format broker request = .ok (some error)

variable {format store broker} {si : String} {receipts : List SignedReceipt}

theorem lookup_of_readReceipt {f : Numbered Bytes} {n : Nat} {b : Bytes}
    (h : readReceipt f n = .ok b) : f.lookup n = some b := by
  unfold readReceipt at h
  split at h
  · simp at h
  · next k hk =>
    rw [check_ok] at h
    rw [hk, ok.inj h.2]

/-- What is read back as the chain lies in its files. -/
theorem inChain_of_chain {receipt : SignedReceipt}
    (h : store.chain format.sha256 format.json broker.receipts si = .ok receipts)
    (hm : receipt ∈ receipts) : InChain format store broker si receipt := by
  obtain ⟨s, ht, hd⟩ := bind_ok.mp h
  obtain ⟨b, hb, hr⟩ := (mem_of_mapM_ok hd).1 receipt hm
  simp only [storedBytes, check_ok] at ht
  obtain ⟨n, -, he⟩ := (mem_of_mapM_ok ht.2.2).1 b hb
  obtain ⟨p, hp, hr⟩ := bind_ok.mp hr
  obtain ⟨r, -, hs⟩ := bind_ok.mp hr
  obtain rfl := ok.inj hs
  exact ⟨n, b, lookup_of_readReceipt he, mapError_ok.mp hp⟩

/-- What answers a request among receipts of the chain resolves it. -/
theorem Answered.resolved {request : LifecycleRequest} (h : Answered format broker receipts request)
    (hc : ∀ receipt ∈ receipts, InChain format store broker si receipt) :
    Resolved format store broker si request := by
  rcases h with ⟨receipt, hm, hi⟩ | hf
  · exact .inl ⟨receipt, hc receipt hm, hi⟩
  · exact .inr hf

end

/-! ### What stays on record -/

section

/-- Every record of a broker is a record of another one. -/
structure Lasts (before after : BrokerState) : Prop where
  requests : ∀ sessionId,
    Grows (before.sessions sessionId).requests (after.sessions sessionId).requests
  failures : ∀ sessionId,
    Grows (before.sessions sessionId).failures (after.sessions sessionId).failures
  receipts : ∀ sessionId,
    (before.receipts.receipts sessionId).Extends (after.receipts.receipts sessionId)

theorem Lasts.refl (broker : BrokerState) : Lasts broker broker :=
  ⟨fun _ => .refl _, fun _ => .refl _, fun _ => .refl _⟩

theorem Lasts.trans {b m after : BrokerState} (h : Lasts b m)
    (hl : Lasts m after) : Lasts b after :=
  ⟨fun id => (h.requests id).trans (hl.requests id),
    fun id => (h.failures id).trans (hl.failures id),
    fun id => (h.receipts id).trans (hl.receipts id)⟩

variable {fo : Format} {store : ReceiptStore} {pre l : BrokerState} {sei : String}

variable {req : LifecycleRequest}

/-- A recorded failure never changes. -/
theorem Lasts.failure (h : Lasts pre l) {e : ProtocolError}
    (hf : Lifecycle.failure fo pre req = .ok (some e)) :
    Lifecycle.failure fo l req = .ok (some e) := by
  obtain ⟨f, ho, hv⟩ := bind_ok.mp hf
  have hs : f = some e := by
    rw [check_ok] at hv
    exact ok.inj hv.2
  subst hs
  exact bind_ok.mpr ⟨some e, (h.failures _).readRecord ho, hv⟩

theorem Lasts.inChain (h : Lasts pre l) {receipt : SignedReceipt}
    (hr : InChain fo store pre sei receipt) :
    InChain fo store l sei receipt := by
  obtain ⟨n, b, hl, hp⟩ := hr
  exact ⟨n, b, h.receipts sei n b hl, hp⟩

theorem Lasts.resolved (h : Lasts pre l) (hr : Resolved fo store pre sei req) :
    Resolved fo store l sei req := by
  rcases hr with ⟨receipt, hc, hi⟩ | ⟨e, he⟩
  · exact .inl ⟨receipt, h.inChain hc, hi⟩
  · exact .inr ⟨e, h.failure he⟩

/-- A new request file leaves the others as they are. -/
theorem lasts_putRequest (broker : BrokerState) (x : String × Stored AcceptedRequest) :
    Lasts broker ((requests fo sei).put ((broker.sessions sei).requests ++ [x]) broker) := by
  refine ⟨fun id => ?_, fun id => ?_, fun _ => .refl _⟩
  · by_cases hi : id = sei
    · subst hi
      simpa [requests] using grows_append (broker.sessions id).requests [x]
    · simpa [requests, hi] using Grows.refl (broker.sessions id).requests
  · by_cases hi : id = sei
    · subst hi
      simpa [requests] using Grows.refl (broker.sessions id).failures
    · simpa [requests, hi] using Grows.refl (broker.sessions id).failures

theorem lasts_putFailure (broker : BrokerState) (x : String × Stored ProtocolError) :
    Lasts broker ((failures fo sei).put ((broker.sessions sei).failures ++ [x]) broker) := by
  refine ⟨fun id => ?_, fun id => ?_, fun _ => .refl _⟩
  · by_cases hi : id = sei
    · subst hi
      simpa [failures] using Grows.refl (broker.sessions id).requests
    · simpa [failures, hi] using Grows.refl (broker.sessions id).requests
  · by_cases hi : id = sei
    · subst hi
      simpa [failures] using grows_append (broker.sessions id).failures [x]
    · simpa [failures, hi] using Grows.refl (broker.sessions id).failures

end

/-! ### At most one request without an outcome -/

section

variable (format : Format) (store : ReceiptStore) (sessionId : String)

/-- A request that was accepted has no outcome yet. -/
structure Unresolved (broker : BrokerState) (name : String) (accepted : AcceptedRequest) :
    Prop where
  stored : (broker.sessions sessionId).requests.lookup name = some (.whole accepted)
  pending : ¬ Resolved format store broker sessionId accepted.request

/-- At most one accepted request of a Session has no outcome. -/
def AtMostOne (broker : BrokerState) : Prop :=
  ∀ name other accepted another, Unresolved format store sessionId broker name accepted →
    Unresolved format store sessionId broker other another → name = other

/-- A Session's requests are resolved one by one, and every record stays. -/
def keeping : Guard BrokerState where
  invariant := AtMostOne format store sessionId
  moves := Lasts
  refl := Lasts.refl
  trans := Lasts.trans

variable {format store sessionId} {br after : BrokerState}

theorem atMostOne_of_empty (h : (br.sessions sessionId).requests = []) :
    AtMostOne format store sessionId br := by
  intro n o ac a hn _
  have hs := hn.stored
  rw [h] at hs
  simp at hs

/-- No new request comes with what leaves the requests of a Session as they are. -/
theorem AtMostOne.of_lasts (h : AtMostOne format store sessionId br) (hl : Lasts br after)
    (hs : (after.sessions sessionId).requests = (br.sessions sessionId).requests) :
    AtMostOne format store sessionId after := by
  have hb : ∀ {n ac}, Unresolved format store sessionId after n ac →
      Unresolved format store sessionId br n ac := fun ho =>
    ⟨hs ▸ ho.stored, fun hr => ho.pending (hl.resolved hr)⟩
  intro n o ac a hn ht
  exact h _ _ _ _ (hb hn) (hb ht)

/-- Where every request is settled, a new one is the only one without an outcome. -/
theorem Settled.put {receipts : List SignedReceipt} {n : String}
    {s : Stored AcceptedRequest} (h : Settled format br sessionId receipts)
    (hc : ∀ receipt ∈ receipts, InChain format store br sessionId receipt) :
    AtMostOne format store sessionId ((requests format sessionId).put
      ((br.sessions sessionId).requests ++ [(n, s)]) br) := by
  have hn : ∀ {f ac}, Unresolved format store sessionId ((requests format sessionId).put
      ((br.sessions sessionId).requests ++ [(n, s)]) br) f ac → f = n := by
    intro f ac ho
    have hs := ho.stored
    rw [show (((requests format sessionId).put ((br.sessions sessionId).requests ++
      [(n, s)]) br).sessions sessionId).requests = _ from
        (requests format sessionId).files_put _ _] at hs
    rcases of_lookup_append hs with he | ⟨-, hf, -⟩
    · obtain ⟨k, hk, -, ha⟩ := h.answered _ (mem_of_lookup he)
      obtain ⟨⟩ := stored_read_ok hk
      exact absurd ((lasts_putRequest br _).resolved (ha.resolved hc)) ho.pending
    · exact hf
  intro f o ac a hf ht
  exact (hn hf).trans (hn ht).symm

end

/-! ### Single operations -/

section

variable {format : Format} {store : ReceiptStore} {sessionId : String} {broker : BrokerState}
  {launch : LaunchAuthorization} {status : SupervisorStatus} {caller : LifecycleCaller}
  {request : LifecycleRequest} {nowMs : UInt64} {receipts : List SignedReceipt}

/-- The file of a request, with the record that its acceptance makes. -/
def acceptedBy (format : Format) (broker : BrokerState) (caller : LifecycleCaller)
    (request : LifecycleRequest) : BrokerState :=
  (requests format request.sessionId).put ((broker.sessions request.sessionId).requests ++
    [(requestName format request.requestId, .whole ⟨request, caller.identity⟩)]) broker

/-- The file of a request's refusal. -/
def failedWith (format : Format) (broker : BrokerState) (request : LifecycleRequest)
    (error : ProtocolError) : BrokerState :=
  (failures format request.sessionId).put ((broker.sessions request.sessionId).failures ++
    [(requestName format request.requestId, .whole error)]) broker

/-- A refusal that was recorded is read back. -/
theorem failure_failedWith {e : ProtocolError}
    (ha : (broker.sessions request.sessionId).failures.lookup
      (requestName format request.requestId) = none)
    (he : e.validate = .ok ()) (hs : format.errorBytes e ≤ maxRecordBytes) :
    failure format (failedWith format broker request e) request = .ok (some e) := by
  have ht : ((failedWith format broker request e).sessions request.sessionId).failures =
      _ ++ [(requestName format request.requestId, .whole e)] :=
    (failures format request.sessionId).files_put _ _
  have hw : (Stored.whole e).read format.errorBytes = .ok e := if_pos hs
  have hr : readRecord format.errorBytes
      ((failedWith format broker request e).sessions request.sessionId).failures
      (requestName format request.requestId) = .ok (some e) := by
    rw [ht, readRecord, lookup_append_new ha]
    exact map_ok.mpr ⟨e, hw, rfl⟩
  refine bind_ok.mpr ⟨some e, hr, ?_⟩
  rw [check_ok, forM_some]
  exact ⟨mapError_ok.mpr he, rfl⟩

@[simp] theorem acceptedBy_receipts :
    (acceptedBy format broker caller request).receipts = broker.receipts := rfl

@[simp] theorem acceptedBy_requests : ((acceptedBy format broker caller request).sessions
    request.sessionId).requests = (broker.sessions request.sessionId).requests ++
      [(requestName format request.requestId, .whole ⟨request, caller.identity⟩)] :=
  (requests format request.sessionId).files_put _ _

@[simp] theorem acceptedBy_failures : ((acceptedBy format broker caller request).sessions
    request.sessionId).failures = (broker.sessions request.sessionId).failures := by
  simp [acceptedBy, requests]

/-- A request is written once, where every other one of its Session is settled. -/
theorem reserve_keeps (h : AtMostOne format store sessionId broker)
    (hc : ∀ receipt ∈ receipts, InChain format store broker request.sessionId receipt)
    (r : BrokerError) (a : Option AcceptedRequest) : (keeping format store sessionId).Keeps
      (reserve format caller request receipts r a) broker fun _ after =>
        after = match a with
          | some _ => broker
          | none => acceptedBy format broker caller request := by
  have hp : Reads (probe .storage : Program BrokerState BrokerError Unit) broker fun _ => True :=
    reads_look
  cases a with
  | some a =>
    refine hp.keeps_bind h fun _ _ => ?_
    exact (keeps_reads h hp).mono fun _ _ _ _ ha => ha.1
  | none =>
    refine (reads_query fun _ he => he).keeps_bind h fun _ he => ?_
    have hs := checkPending_ok.mp (mapError_ok.mp he)
    iterate 3 refine hp.keeps_bind h fun _ _ => ?_
    refine (create_keeps h fun s _ _ => ?_).mono fun _ _ _ _ hm => hm.2
    have hl : Lasts broker ((requests format request.sessionId).put _ broker) :=
      lasts_putRequest broker (requestName format request.requestId, s)
    refine ⟨?_, hl⟩
    by_cases hi : sessionId = request.sessionId
    · subst hi
      exact hs.put hc
    · exact h.of_lasts hl (by simp [requests, hi])

/-- However it ends, a preparation keeps the records and at most one open request, and a request
that it returns for is on record. -/
theorem prepare_keeps (h : AtMostOne format store sessionId broker)
    (hc : ∀ receipt ∈ receipts, InChain format store broker request.sessionId receipt) :
    (keeping format store sessionId).Keeps
      (prepare format launch status caller request nowMs receipts) broker fun _ after =>
        (broker.sessions request.sessionId).requests.lookup
          (requestName format request.requestId) = none →
            after = acceptedBy format broker caller request := by
  have hh : ∀ x : Except BrokerError Unit, Reads (ofExcept x) broker fun _ => True :=
    fun _ => reads_check
  iterate 6 refine (hh _).keeps_bind h fun _ _ => ?_
  refine read_reads.keeps_bind h fun a hs => ?_
  refine (hh _).keeps_bind h fun _ _ => ?_
  refine (hh _).keeps_bind h fun _ _ => ?_
  refine reads_look.keeps_bind h fun f _ => ?_
  refine (hh _).keeps_bind h fun _ _ => ?_
  refine Reads.keeps_bind (Q := fun _ => True) ?_ h fun _ _ => ?_
  · split
    · exact reads_look.bind fun _ _ => hh _
    · exact reads_pure trivial
  · refine reads_check.keeps_bind h fun di _ => ?_
    refine (reserve_keeps h hc _ a).bind fun _ after hk _ ha => ?_
    refine keeps_pure hk fun hn => ?_
    cases a with
    | some a => exact absurd (hn.symm.trans hs) (by simp)
    | none => exact ha

/-- However it ends, a refusal is recorded beside the requests. -/
theorem recordFailure_keeps (h : AtMostOne format store sessionId broker) (e : ProtocolError) :
    (keeping format store sessionId).Keeps (recordFailure format request e) broker
      fun _ _ => True := by
  have hc : ∀ x : Except BrokerError Unit, Reads (ofExcept x) broker fun _ => True :=
    fun _ => reads_check
  have hp : Reads (probe .storage : Program BrokerState BrokerError Unit) broker fun _ => True :=
    reads_look
  refine (hc _).keeps_bind h fun _ _ => ?_
  refine (hc _).keeps_bind h fun _ _ => ?_
  refine read_reads.keeps_bind h fun a _ => ?_
  cases a with
  | none => exact keeps_fail h
  | some a =>
    refine (hc _).keeps_bind h fun _ _ => ?_
    refine reads_look.keeps_bind h fun f _ => ?_
    cases f with
    | some s =>
      refine (hc _).keeps_bind h fun _ _ => ?_
      refine hp.keeps_bind h fun _ _ => ?_
      exact (keeps_reads h hp).mono fun _ _ _ _ _ => trivial
    | none =>
      refine hp.keeps_bind h fun _ _ => ?_
      refine hp.keeps_bind h fun _ _ => ?_
      refine (create_keeps h fun s _ _ => ?_).mono fun _ _ _ _ _ => trivial
      have hl : Lasts broker ((failures format request.sessionId).put _ broker) :=
        lasts_putFailure broker (requestName format request.requestId, s)
      refine ⟨h.of_lasts hl ?_, hl⟩
      by_cases hi : sessionId = request.sessionId
      · simp [failures, hi]
      · simp [failures, hi]

end

/-! ### What an accepted request is answered -/

section

variable (format : Format) (broker : BrokerState) (launch : LaunchAuthorization)
  (status : SupervisorStatus) (caller : LifecycleCaller) (request : LifecycleRequest)
  (nowMs : UInt64) (receipts : List SignedReceipt)

/-- A call that gets as far as the record: well formed, for the Session and the revision of its
launch, and within the scope that its caller has now. -/
structure Admissible : Prop where
  launched : launch.validate = .ok ()
  answered : status.validate = .ok ()
  wellFormed : request.validate = .ok ()
  subject : launch.sessionId = request.sessionId ∧ launch.runId = request.runId
  revision : launch.envelopeRevision = request.envelopeRevision
  scope : caller.permits launch request nowMs = true

/-- What a request is executed or replayed as: the first receipt under its id, where there is
one, and what the status makes of it otherwise. -/
inductive Outcome : RequestDisposition → Prop where
  | replayed {receipt : SignedReceipt}
      (hfirst : receipts.find? (·.payload.requestId == request.requestId) = some receipt) :
      Outcome (.replay receipt)
  | executed {head : Protocol.ReceiptHead} {intent : Protocol.ReceiptIntent}
      (hnone : receipts.find? (·.payload.requestId == request.requestId) = none)
      (hintent : Protocol.Executes format.sha256 format.json status request head intent) :
      Outcome (.execute intent)

/-- The first receipt under the id of a request, as the request's result. -/
def completedOf : Option CompletedRequest :=
  (receipts.find? (·.payload.requestId == request.requestId)).map
    (CompletedRequest.new format.sha256 format.json request)

/-- The answers to a request under an id that was accepted. -/
structure Answers (accepted : AcceptedRequest) : Prop where
  unchanged : ∀ faults,
    (prepare format launch status caller request nowMs receipts).leaves faults broker = broker
  same : ∀ faults disposition,
    (prepare format launch status caller request nowMs receipts faults broker).1 =
      .value disposition →
        accepted = ⟨request, caller.identity⟩ ∧ failure format broker request = .ok none ∧
          Outcome format status request receipts disposition
  other : Admissible launch status caller request nowMs → accepted ≠ ⟨request, caller.identity⟩ →
      prepare format launch status caller request nowMs receipts [] broker =
        (.error (refusal status .requestIdConflict), [], broker)
  failed : ∀ error, Admissible launch status caller request nowMs →
    accepted = ⟨request, caller.identity⟩ → failure format broker request = .ok (some error) →
      prepare format launch status caller request nowMs receipts [] broker =
        (.error (.policy error), [], broker)
  retried : ∀ disposition, Admissible launch status caller request nowMs →
    accepted = ⟨request, caller.identity⟩ → failure format broker request = .ok none →
      (request.action = .resume → (completedOf format request receipts).isSome = true ∨
        isQuarantined format broker request.sessionId = .ok false) →
      evaluateRequest format.sha256 format.json status (completedOf format request receipts)
        request = .ok disposition →
      (prepare format launch status caller request nowMs receipts).Returns broker disposition broker

variable {format broker launch status caller request nowMs receipts} {acc : AcceptedRequest}
  {d : RequestDisposition}

/-- What is evaluated from the record is executed or replayed. -/
theorem outcome_of_evaluateRequest (h : evaluateRequest format.sha256 format.json status
    (completedOf format request receipts) request = .ok d) :
    Outcome format status request receipts d := by
  unfold completedOf at h
  cases hf : receipts.find? (·.payload.requestId == request.requestId) with
  | none =>
    rw [hf, map_none] at h
    obtain ⟨i, rfl⟩ := evaluateRequest_none h
    obtain ⟨head, hi⟩ := Protocol.evaluateRequest_execute h
    exact .executed hf hi
  | some receipt =>
    rw [hf, map_some] at h
    simp only [evaluateRequest, check_ok] at h
    obtain ⟨-, -, -, -, -, h⟩ := h
    split at h
    · rw [check_ok] at h
      obtain rfl := ok.inj h.2
      exact .replayed hf
    · simp at h

theorem ofExcept_bind {x : Except BrokerError Unit}
    {p : Unit → Program BrokerState BrokerError RequestDisposition} (h : x = .ok ()) :
    (ofExcept x >>= p) = p () := by
  rw [h]
  rfl

/-- Beyond the checks of a call only the record counts. -/
theorem Admissible.prepare_eq (h : Admissible launch status caller request nowMs) :
    prepare format launch status caller request nowMs receipts =
      prepareLocked format status caller request receipts := by
  have hs : (launch.sessionId == request.sessionId && launch.runId == request.runId) =
      true := by
    rw [h.subject.1, h.subject.2, beq_self_eq_true, beq_self_eq_true, Bool.and_self]
  rw [prepare, ofExcept_bind (mapError_ok.mpr h.launched),
    ofExcept_bind (mapError_ok.mpr h.answered), ofExcept_bind (mapError_ok.mpr h.wellFormed),
    ofExcept_bind (require_ok.mpr hs), ofExcept_bind (require_ok.mpr (beq_iff_eq.mpr h.revision)),
    ofExcept_bind (require_ok.mpr h.scope)]

/-- Whatever fails on the way, the record of an accepted request is only read. -/
theorem prepare_reads (ht : (broker.sessions request.sessionId).requests.lookup
    (requestName format request.requestId) = some (.whole acc)) :
    Reads (prepare format launch status caller request nowMs receipts) broker fun d =>
      acc = ⟨request, caller.identity⟩ ∧ failure format broker request = .ok none ∧
        Outcome format status request receipts d := by
  have hc : ∀ x : Except BrokerError Unit, Reads (ofExcept x) broker fun _ => x = .ok () :=
    fun _ => reads_ofExcept fun _ hx => hx
  have hp : Reads (probe .storage : Program BrokerState BrokerError Unit) broker fun _ => True :=
    reads_look
  refine (hc _).bind fun _ _ => (hc _).bind fun _ _ => (hc _).bind fun _ _ => ?_
  refine (hc _).bind fun _ _ => (hc _).bind fun _ _ => (hc _).bind fun _ _ => ?_
  refine read_reads.bind fun y hf => ?_
  obtain rfl : y = some acc := by
    change (broker.sessions request.sessionId).requests.lookup _ = _ at hf
    rw [ht] at hf
    cases y with
    | none => simp at hf
    | some o => simpa using hf.symm
  refine (hc _).bind fun _ hs => (hc _).bind fun _ _ => ?_
  refine (reads_query fun _ ha => ha).bind fun f ha => ?_
  refine (hc _).bind fun _ hu => Reads.bind (Q := fun _ => True) ?_ fun _ _ => ?_
  · split
    · exact reads_look.bind fun _ _ =>
        reads_check
    · exact reads_pure trivial
  · refine (reads_ofExcept fun _ hm => hm).bind fun m hm => ?_
    refine (hp.bind fun _ _ => hp).bind fun _ _ => reads_pure ?_
    have hs : acc = ⟨request, caller.identity⟩ := by simpa using require_ok.mp hs
    have hn : f = none := by
      cases f with
      | none => rfl
      | some e => simp at hu
    exact ⟨hs, hn ▸ ha, outcome_of_evaluateRequest (mapError_ok.mp hm)⟩

section

variable (hre : readRecord format.acceptedBytes (broker.sessions request.sessionId).requests
  (requestName format request.requestId) = .ok (some acc))
include hre

theorem lookup_of_readRecord : (broker.sessions request.sessionId).requests.lookup
    (requestName format request.requestId) = some (.whole acc) := by
  unfold readRecord at hre
  split at hre
  · simp at hre
  · next s hl =>
    obtain ⟨r, ht, hs⟩ := map_ok.mp hre
    rw [hl, stored_read_ok ht, Option.some.inj hs]

theorem read_returns : ((requests format request.sessionId).read
    (requestName format request.requestId)).Returns broker (some acc) broker :=
  returns_query _ _ (mapError_ok.mpr hre)

/-- The record decides over every other request and every other caller. -/
theorem prepareLocked_other (ho : acc ≠ ⟨request, caller.identity⟩) :
    prepareLocked format status caller request receipts [] broker =
      (.error (refusal status .requestIdConflict), [], broker) := by
  have hr : require ((some acc).all (· == ⟨request, caller.identity⟩))
      (refusal status .requestIdConflict) = .error (refusal status .requestIdConflict) := by
    rw [all_some, beq_false_of_ne ho]
    rfl
  rw [prepareLocked, (read_returns hre).bind_eq, hr]
  rfl

/-- A recorded failure is the answer from then on. -/
theorem prepareLocked_failed {e : ProtocolError} (hs : acc = ⟨request, caller.identity⟩)
    (hf : failure format broker request = .ok (some e)) :
    prepareLocked format status caller request receipts [] broker =
      (.error (.policy e), [], broker) := by
  have hq : (query (failure format · request) .storage :
      Program BrokerState BrokerError _).Returns broker (some e) broker :=
    returns_query _ _ hf
  have ha : require ((some acc).all (· == ⟨request, caller.identity⟩))
      (refusal status .requestIdConflict) = .ok () := by simp [hs]
  have hp : ∀ c : Option CompletedRequest, require (!(c.isSome &&
      (some acc).isNone)) (refusal status .requestIdConflict) = .ok () := by simp
  rw [prepareLocked, (read_returns hre).bind_eq, (returns_ofExcept ha _).bind_eq,
    (returns_ofExcept (hp _) _).bind_eq, hq.bind_eq]
  rfl

/-- Otherwise the status decides. -/
theorem prepareLocked_retried (hs : acc = ⟨request, caller.identity⟩)
    (hf : failure format broker request = .ok none)
    (hfr : request.action = .resume → (completedOf format request receipts).isSome = true ∨
      isQuarantined format broker request.sessionId = .ok false)
    (he : evaluateRequest format.sha256 format.json status
      (completedOf format request receipts) request = .ok d) :
    (prepareLocked format status caller request receipts).Returns broker d broker := by
  refine returns_bind (read_returns hre) (returns_bind (returns_ofExcept (a := ()) ?_ _) ?_)
  · simp [hs]
  refine returns_bind (returns_ofExcept (a := ()) ?_ _) ?_
  · simp
  refine returns_bind (returns_query _ _ hf) (returns_bind (returns_ofExcept rfl _) ?_)
  refine returns_bind (?_ : Returns _ broker () broker) ?_
  · rw [← completedOf]
    split
    · next hr =>
      obtain ⟨hn, hr⟩ := Bool.and_eq_true_iff.mp hr
      rw [isNone_iff_eq_none] at hn
      have hc := (hfr (beq_iff_eq.mp hr)).resolve_left (by simp [hn])
      exact checkQuarantine_returns.mpr ⟨hc, rfl⟩
    · exact returns_pure _ _
  · refine returns_bind (returns_ofExcept (mapError_ok.mpr he) _) ?_
    exact returns_bind (returns_bind (returns_probe _ _) (returns_probe _ _)) (returns_pure _ _)

theorem answers_of_accepted :
    Answers format broker launch status caller request nowMs receipts acc where
  unchanged faults := Wp.leaves (Q := (· = broker))
    (Wp.mono (prepare_reads (lookup_of_readRecord hre)) (fun _ _ h => h.1) (fun _ _ h => h)
      fun _ h => h) faults
  same _ _ hv := (Wp.value_of (prepare_reads (lookup_of_readRecord hre)) hv).2
  other hc ho := hc.prepare_eq ▸ prepareLocked_other hre ho
  failed _ hc hs hf := hc.prepare_eq ▸ prepareLocked_failed hre hs hf
  retried _ hc hs hf hr he :=
    hc.prepare_eq ▸ prepareLocked_retried hre hs hf hr he

/-- A refusal of an accepted request is recorded where none is. -/
theorem recordFailure_returns (hs : acc.request = request) {e : ProtocolError}
    (hr : request.validate = .ok ()) (he : e.validate = .ok ())
    (ha : (broker.sessions request.sessionId).failures.lookup
      (requestName format request.requestId) = none) :
    (recordFailure format request e).Returns broker () (failedWith format broker request e) := by
  have hf : failure format broker request = .ok none := by
    rw [failure, readRecord, ha]
    rfl
  refine returns_bind (returns_ofExcept (mapError_ok.mpr hr) _) ?_
  refine returns_bind (returns_ofExcept (mapError_ok.mpr he) _) ?_
  refine returns_bind (read_returns hre) ?_
  refine returns_bind (returns_ofExcept (a := ()) (require_ok.mpr (beq_iff_eq.mpr hs)) _) ?_
  refine returns_bind (returns_query _ _ hf) ?_
  refine returns_bind (returns_probe _ _) (returns_bind (returns_probe _ _) ?_)
  exact returns_create_iff.mpr ⟨ha, rfl⟩

end

end

/-! ### Runs -/

section

variable (format : Format) (store : ReceiptStore) (verify : String → Bytes → String → Bool)

/-- How far an append gets. -/
inductive AppendStop where
  | done
  | inReport (kept : Bytes)
  | beforeReceipt
  | inReceipt (kept : Bytes)
deriving DecidableEq, Repr

/-- The files that an append leaves where it stops. -/
def stoppedAppend (files : Files) (authorization : LaunchAuthorization) (bytes : Bytes)
    (report : Option Bytes) : AppendStop → Except BrokerError Files
  | .done => .ok (store.append format.sha256 format.json verify files authorization bytes report).2
  | .inReport kept => do
    let receipt ← store.admitReceipt format.sha256 format.json verify files authorization bytes
    let retained ← store.retainConformanceReport format.sha256 files receipt report
    let sessionId := receipt.payload.sessionId
    -- a report that was retained before is not written again
    if (files.reports sessionId).isSome || (retained.reports sessionId).isNone then return files
    else return { files with reports := Function.update files.reports sessionId (some kept) }
  | .beforeReceipt => do
    let receipt ← store.admitReceipt format.sha256 format.json verify files authorization bytes
    store.retainConformanceReport format.sha256 files receipt report
  | .inReceipt kept => do
    let receipt ← store.admitReceipt format.sha256 format.json verify files authorization bytes
    let retained ← store.retainConformanceReport format.sha256 files receipt report
    writeReceipt retained authorization.sessionId receipt.payload.sequence kept

/-- What is done to the records of a Session. -/
inductive Event where
  | prepare (launch : LaunchAuthorization) (status : SupervisorStatus) (caller : LifecycleCaller)
      (request : LifecycleRequest) (nowMs : UInt64) (receipts : List SignedReceipt)
      (faults : List Fault)
  | recordFailure (request : LifecycleRequest) (error : ProtocolError) (faults : List Fault)
  | append (authorization : LaunchAuthorization) (bytes : Bytes) (report : Option Bytes)
      (stop : AppendStop)

/-- A request is prepared with receipts of its Session's chain. -/
def Event.Allowed (broker : BrokerState) : Event → Prop
  | .prepare _ _ _ request _ receipts _ =>
    ∀ receipt ∈ receipts, InChain format store broker request.sessionId receipt
  | _ => True

/-- The records after an event. -/
def Event.after (broker : BrokerState) : Event → BrokerState
  | .prepare launch status caller request nowMs receipts faults =>
    (Lifecycle.prepare format launch status caller request nowMs receipts).leaves faults broker
  | .recordFailure request error faults =>
    (Lifecycle.recordFailure format request error).leaves faults broker
  | .append authorization bytes report stop =>
    match stoppedAppend format store verify broker.receipts authorization bytes report stop with
    | .ok receipts => { broker with receipts }
    | .error _ => broker

@[simp] theorem Event.after_append_done (broker : BrokerState) (a : LaunchAuthorization) (b : Bytes)
    (r : Option Bytes) : (Event.append a b r .done).after format store verify broker = { broker with
        receipts := (store.append format.sha256 format.json verify broker.receipts a b r).2 } := rfl

variable {format store verify} {broker : BrokerState} {sessionId : String} {fi : Files}
  {receipt : SignedReceipt}

theorem receipts_retainConformanceReport {r : Files} {re : Option Bytes}
    (h : store.retainConformanceReport format.sha256 fi receipt re = .ok r) :
    r.receipts = fi.receipts := by
  simp only [retainConformanceReport, check_ok] at h
  obtain ⟨-, h⟩ := h
  split at h
  · rw [← ok.inj h]
  · simp only [check_ok] at h
    obtain ⟨-, h⟩ := h
    split at h
    · rw [← ok.inj h]
    · obtain ⟨_, -, h⟩ := bind_ok.mp h
      rw [check_ok] at h
      rw [← ok.inj h.2]

theorem extends_writeReceipt {w : Files} {n : UInt64} {b : Bytes}
    (h : writeReceipt fi sessionId n b = .ok w) (o : String) :
    (fi.receipts o).Extends (w.receipts o) := by
  rw [writeReceipt, check_ok, require_ok, decide_eq_true_eq] at h
  obtain ⟨hn, h⟩ := h
  rw [← ok.inj h]
  by_cases ho : o = sessionId
  · subst ho
    simpa using Numbered.extends_insert hn b
  · simpa [ho] using Numbered.Extends.refl _

/-- Wherever an append stops, the receipts that were stored are still there. -/
theorem extends_stoppedAppend {after : Files} {a : LaunchAuthorization} {b : Bytes}
    {re : Option Bytes} {s : AppendStop}
    (h : stoppedAppend format store verify fi a b re s = .ok after)
    (o : String) : (fi.receipts o).Extends (after.receipts o) := by
  cases s with
  | done =>
    rw [← ok.inj h]
    unfold append
    split
    · exact .refl _
    · split
      · exact .refl _
      · next hr =>
        rw [← receipts_retainConformanceReport hr]
        split
        · exact .refl _
        · next hw => exact extends_writeReceipt hw o
  | inReport k =>
    obtain ⟨receipt, -, h⟩ := bind_ok.mp h
    obtain ⟨r, -, h⟩ := bind_ok.mp h
    dsimp only at h
    split at h
    · rw [← ok.inj h]
      exact .refl _
    · rw [← ok.inj h]
      exact .refl _
  | beforeReceipt =>
    obtain ⟨receipt, -, h⟩ := bind_ok.mp h
    rw [receipts_retainConformanceReport h]
    exact .refl _
  | inReceipt k =>
    obtain ⟨receipt, -, h⟩ := bind_ok.mp h
    obtain ⟨r, hr, h⟩ := bind_ok.mp h
    rw [← receipts_retainConformanceReport hr]
    exact extends_writeReceipt h o

/-- One event keeps the records and at most one request without an outcome. -/
theorem Event.keeps {e : Event} (h : AtMostOne format store sessionId broker)
    (ha : e.Allowed format store broker) :
    AtMostOne format store sessionId (e.after format store verify broker) ∧
      Lasts broker (e.after format store verify broker) := by
  cases e with
  | prepare launch status caller request nowMs receipts fs =>
    exact (prepare_keeps h ha).leaves fs
  | recordFailure request er fs => exact (recordFailure_keeps h er).leaves fs
  | append a b r s =>
    simp only [Event.after]
    split
    · next fi hf =>
      have hl : Lasts broker { broker with receipts := fi } :=
        ⟨fun _ => .refl _, fun _ => .refl _, extends_stoppedAppend hf⟩
      exact ⟨h.of_lasts hl rfl, hl⟩
    · exact ⟨h, .refl broker⟩

/-- A run keeps them too. -/
theorem run_keeps {es : List Event} (h : AtMostOne format store sessionId broker)
    (ha : Throughout (Event.after format store verify) (Event.Allowed format store) broker es) :
    AtMostOne format store sessionId (es.foldl (Event.after format store verify) broker) ∧
      Lasts broker (es.foldl (Event.after format store verify) broker) := by
  induction es generalizing broker with
  | nil => exact ⟨h, .refl broker⟩
  | cons e es ih =>
    obtain ⟨hn, hl⟩ : AtMostOne format store sessionId (e.after format store verify
        broker) ∧ Lasts broker (e.after format store verify broker) :=
      Event.keeps h ha.1
    obtain ⟨hs, hla⟩ := ih hn ha.2
    exact ⟨hs, hl.trans hla⟩

variable (format) in
/-- The request that an outcome says it carries out. -/
structure Intends (request : LifecycleRequest) (receipt : SignedReceipt)
    (authority : Authorization) (action : LifecycleAction) : Prop where
  authorization : request.authorizationId = authority.authorizationId
  identity : request.requestId = authority.requestId
  digest : (request.digest format.sha256 format.json).toString = authority.requestDigest
  action : request.action = action
  session : request.sessionId = receipt.payload.sessionId
  run : request.runId = receipt.payload.runId
  revision : request.envelopeRevision = receipt.payload.envelopeRevision

/-- An authorized outcome is let through for the exact request on record and none that failed. -/
theorem checkReceipt_authorized {a : Authorization} {ac : LifecycleAction}
    (hau : authorizedLifecycleOutcome receipt = some (a, ac))
    (h : checkReceipt format broker receipt = .ok ()) : ∃ accepted, readRecord format.acceptedBytes
        (broker.sessions receipt.payload.sessionId).requests
        (requestName format a.requestId) = .ok (some accepted) ∧
      Intends format accepted.request receipt a ac ∧
      failure format broker accepted.request = .ok none := by
  rw [checkReceipt, check_ok, hau] at h
  obtain ⟨accepted, hr, h⟩ := bind_ok.mp h.2
  cases accepted with
  | none => simp at h
  | some accepted =>
    simp only [check_ok, require_ok, Bool.and_eq_true, beq_iff_eq] at h
    obtain ⟨⟨⟨⟨⟨⟨⟨hi, he⟩, hd⟩, ha⟩, hs⟩, hu⟩, hv⟩, h⟩ := h
    obtain ⟨f, hf, hn⟩ := bind_ok.mp h
    rw [require_ok, isNone_iff_eq_none] at hn
    exact ⟨accepted, hr, ⟨hi, he, hd, ha, hs, hu, hv⟩, hn ▸ hf⟩

/-- At every moment of a run at most one accepted request of a Session has neither a receipt nor a
recorded failure. Receipts, failures and accepted requests stay as they are: from then on an
accepted request is answered from its record. -/
theorem lifecycle_run (format : Format) (store : ReceiptStore)
    (verify : String → Bytes → String → Bool) (sessionId : String) (broker : BrokerState)
    (events later : List Event) (hempty : (broker.sessions sessionId).requests = [])
    (hallowed : Throughout (Event.after format store verify) (Event.Allowed format store) broker
      (events ++ later)) :
    let reached := events.foldl (Event.after format store verify) broker
    let la := later.foldl (Event.after format store verify) reached
    AtMostOne format store sessionId reached ∧ (∀ request accepted, readRecord format.acceptedBytes
        (reached.sessions request.sessionId).requests
        (requestName format request.requestId) = .ok (some accepted) →
          ∀ launch status caller nowMs receipts,
            Answers format la launch status caller request nowMs receipts accepted) ∧
      (∀ request e, failure format reached request = .ok (some e) →
        failure format la request = .ok (some e)) ∧
      (∀ receipt, InChain format store reached sessionId receipt →
        InChain format store la sessionId receipt) ∧
      ∀ receipt a ac, authorizedLifecycleOutcome receipt = some (a, ac) →
        checkReceipt format reached receipt = .ok () → ∃ accepted, readRecord format.acceptedBytes
              (reached.sessions receipt.payload.sessionId).requests
              (requestName format a.requestId) = .ok (some accepted) ∧
            Intends format accepted.request receipt a ac ∧
            failure format reached accepted.request = .ok none := by
  intro reached la
  obtain ⟨hb, ha⟩ := throughout_append.mp hallowed
  have ho : AtMostOne format store sessionId reached :=
    (run_keeps (atMostOne_of_empty hempty) hb).1
  obtain ⟨-, hl⟩ := run_keeps ho ha
  refine ⟨ho, fun request accepted hr launch status caller nowMs receipts => ?_,
    fun _ _ => hl.failure, fun _ => hl.inChain, fun _ _ _ => checkReceipt_authorized⟩
  exact answers_of_accepted ((hl.requests _).readRecord hr)

end

/-! ### An interrupt that is answered and fails -/

section

open Launch.Protocol (zeroHash zeroText zeroText_canonical)
open Broker.ReceiptStore (longAuthorization longAuthorization_validate longCall longFiles
  longReceipt longReceipt_validate longSessions longState longStore)

/-- A coordinator whose scope ends after a millisecond. -/
def briefCoordinator : LifecycleCaller := .coordinator "parent" "run" ["session"] 1 1

/-- The interrupt that the third receipt of the long run answers. -/
def interruptRequest : LifecycleRequest :=
  { operatorRequest .interrupt .running with requestId := ReceiptStore.requestName 2 }

/-- The supervisor's refusal of it. -/
def interruptRefusal : ProtocolError := .new .invalidRequest none none

/-- The interrupt is accepted, answered by a receipt, and then recorded as refused. -/
def interruptEvents : List Event :=
  [.prepare (longAuthorization "session") runningStatus briefCoordinator interruptRequest 0
      [longReceipt 0, longReceipt 1] [],
    .append (longAuthorization "session")
        ((longReceipt 2).canonicalBytes Compact.format) none .done,
    .recordFailure interruptRequest interruptRefusal []]

/-- The broker after the first events of it. -/
noncomputable def interruptedBroker (n : Nat) : BrokerState :=
  (interruptEvents.take n).foldl (Event.after sampleFormat longStore fun _ _ _ => true)
    startedBroker

private theorem startedBroker_inChain : ∀ receipt ∈ [longReceipt 0, longReceipt 1],
      InChain sampleFormat longStore startedBroker "session" receipt :=
  fun _ => inChain_of_chain startedBroker_chain

private theorem interruptRequest_fresh :
    Fresh sampleFormat longStore startedBroker runningStatus interruptRequest where
  wellFormed := by decide
  session := rfl
  run := rfl
  state := rfl
  sequence := rfl
  revision := rfl
  unaccepted := rfl
  unfailed := rfl
  unanswered := by
    intro receipts hr
    obtain rfl := ok.inj (startedBroker_chain.symm.trans hr)
    simp only [forall_mem_cons, not_mem_nil, false_implies, implies_true, and_true]
    have hf : ReceiptStore.requestName 0 ≠ interruptRequest.requestId := by decide
    have hs : ReceiptStore.requestName 1 ≠ interruptRequest.requestId := by decide
    exact ⟨hf, hs⟩

theorem interruptRequest_prepared : ∃ i,
    (prepare sampleFormat (longAuthorization "session") runningStatus briefCoordinator
      interruptRequest 0 [longReceipt 0, longReceipt 1]).Returns startedBroker (.execute i)
        (acceptedBy sampleFormat startedBroker briefCoordinator interruptRequest) := by
  have hf := interruptRequest_fresh
  obtain ⟨di, he⟩ : ∃ di, evaluateRequest sampleFormat.sha256
      sampleFormat.json runningStatus none interruptRequest = .ok di :=
    (evaluateRequest_matching runningStatus_validate hf.wellFormed hf.session hf.run
      hf.state hf.sequence hf.revision).mpr ⟨rfl, nofun, rfl, _, rfl, by decide⟩
  obtain ⟨i, rfl⟩ := evaluateRequest_none he
  have hu := hf.unanswered _ startedBroker_chain
  obtain ⟨after, hr⟩ : ∃ after, (prepare sampleFormat (longAuthorization "session")
      runningStatus briefCoordinator interruptRequest 0 [longReceipt 0, longReceipt 1]).Returns
        startedBroker (.execute i) after :=
    (hf.prepare_returns longAuthorization_validate runningStatus_validate rfl rfl rfl
      hu).mpr ⟨by decide, nofun, he, Nat.zero_le _, forall_mem_nil _⟩
  have hk : AtMostOne sampleFormat longStore "session" startedBroker := atMostOne_of_empty rfl
  have hc : ∀ receipt ∈ [longReceipt 0, longReceipt 1], InChain sampleFormat longStore
      startedBroker interruptRequest.sessionId receipt := startedBroker_inChain
  have ha := (Wp.returns (prepare_keeps hk hc) hr).2 hf.unaccepted
  rw [← ha]
  exact ⟨i, hr⟩

/-- The same call is refused when the scope of its caller is over, whatever is on record. -/
theorem interruptRequest_expired (broker : BrokerState) :
    prepare sampleFormat (longAuthorization "session") runningStatus briefCoordinator
      interruptRequest 1 [longReceipt 0, longReceipt 1] [] broker =
        (.error (refusal runningStatus .invalidRequest), [], broker) := by
  rw [prepare, ofExcept_bind (mapError_ok.mpr longAuthorization_validate),
    ofExcept_bind (mapError_ok.mpr runningStatus_validate),
    ofExcept_bind (mapError_ok.mpr interruptRequest_fresh.wellFormed),
    ofExcept_bind (require_ok.mpr (by decide)), ofExcept_bind (require_ok.mpr (by decide))]
  have hs : briefCoordinator.permits (longAuthorization "session") interruptRequest 1 =
      false := by decide
  rw [hs]
  rfl

private theorem interruptedBroker_succ {n : Nat} (h : n < interruptEvents.length) :
    interruptedBroker (n + 1) = interruptEvents[n].after sampleFormat longStore
      (fun _ _ _ => true) (interruptedBroker n) := by
  rw [interruptedBroker, interruptedBroker, ← take_append_getElem h, foldl_append,
    foldl_cons, foldl_nil]

private theorem interruptedBroker_first : interruptedBroker 1 =
    acceptedBy sampleFormat startedBroker briefCoordinator interruptRequest := by
  obtain ⟨i, hr⟩ := interruptRequest_prepared
  exact (interruptedBroker_succ (by decide)).trans hr.leaves

private theorem interruptedBroker_second : interruptedBroker 2 =
    { acceptedBy sampleFormat startedBroker briefCoordinator interruptRequest with
      receipts := longFiles 3 } := by
  have hs : interruptedBroker 2 = (Event.append (longAuthorization "session")
      ((longReceipt 2).canonicalBytes Compact.format) none .done).after sampleFormat longStore
        (fun _ _ _ => true) (interruptedBroker 1) := interruptedBroker_succ (by decide)
  have hf : longFiles 3 = longStore.appended zeroHash Compact.format (fun _ _ _ => true)
      longSessions (longFiles 2) (longCall 2) := by
    rw [longFiles, longFiles, range_succ, map_append, foldl_append, map_cons,
      map_nil, foldl_cons, foldl_nil]
  rw [hs, Event.after_append_done, interruptedBroker_first, acceptedBy_receipts, hf,
    appended, answer]
  dsimp only [sampleFormat, startedBroker, longSessions, longCall]

/-- The request stays on record, and no refusal of it is. -/
private theorem interruptedBroker_read {broker : BrokerState} (hs : broker.sessions =
    (acceptedBy sampleFormat startedBroker briefCoordinator interruptRequest).sessions) :
    readRecord sampleFormat.acceptedBytes (broker.sessions interruptRequest.sessionId).requests
      (requestName sampleFormat interruptRequest.requestId) =
        .ok (some ⟨interruptRequest, briefCoordinator.identity⟩) ∧
      failure sampleFormat broker interruptRequest = .ok none := by
  have hf := interruptRequest_fresh
  constructor
  · rw [readRecord, hs, acceptedBy_requests, lookup_append_new hf.unaccepted]
    rfl
  · rw [failure, readRecord, hs, acceptedBy_failures, hf.unfailed]
    rfl

private theorem interruptedBroker_inChain :
    InChain sampleFormat longStore (interruptedBroker 2) "session" (longReceipt 2) := by
  have hf : (interruptedBroker 2).receipts = longFiles 3 := by rw [interruptedBroker_second]
  have hc : longStore.chain sampleFormat.sha256 sampleFormat.json (interruptedBroker 2).receipts
      "session" = .ok ((List.range 3).map longReceipt) := by
    rw [hf]
    exact (longState (by decide)).keeps.chain (by decide) (by decide)
  have hm : longReceipt 2 ∈ (List.range 3).map longReceipt :=
    mem_map_of_mem (mem_range.mpr (by decide))
  exact inChain_of_chain hc hm

/-- The receipt is let through. -/
private theorem interruptedBroker_checkReceipt :
    checkReceipt sampleFormat (interruptedBroker 1) (longReceipt 2) = .ok () := by
  have ha : authorizedLifecycleOutcome (longReceipt 2) =
      some (⟨"authorization", ReceiptStore.requestName 2, zeroText⟩, .interrupt) := rfl
  obtain ⟨hr, hf⟩ := interruptedBroker_read (congrArg BrokerState.sessions interruptedBroker_first)
  rw [checkReceipt, check_ok, ha]
  refine ⟨mapError_ok.mpr (longReceipt_validate (by decide)), ?_⟩
  refine bind_ok.mpr ⟨_, hr, ?_⟩
  rw [check_ok, require_ok]
  exact ⟨rfl, bind_ok.mpr ⟨_, hf, rfl⟩⟩

/-- The refusal is recorded all the same. -/
private theorem interruptRefusal_recorded :
    failure sampleFormat (interruptedBroker 3) interruptRequest = .ok (some interruptRefusal) := by
  have hs : (interruptedBroker 2).sessions =
      (acceptedBy sampleFormat startedBroker briefCoordinator interruptRequest).sessions := by
    rw [interruptedBroker_second]
  have hd := (interruptedBroker_read hs).1
  have he : ((interruptedBroker 2).sessions interruptRequest.sessionId).failures = [] := by
    rw [hs, acceptedBy_failures]
    rfl
  have hr : (recordFailure sampleFormat interruptRequest interruptRefusal).Returns
      (interruptedBroker 2) () _ := recordFailure_returns hd rfl
    interruptRequest_fresh.wellFormed (by decide) (by rw [he]; rfl)
  have ht : interruptedBroker 3 =
      failedWith sampleFormat (interruptedBroker 2) interruptRequest interruptRefusal :=
    (interruptedBroker_succ (by decide)).trans hr.leaves
  rw [ht]
  exact failure_failedWith (by rw [he]; rfl) (by decide) (Nat.zero_le _)

private theorem interruptEvents_allowed :
    Throughout (Event.after sampleFormat longStore fun _ _ _ => true)
      (Event.Allowed sampleFormat longStore) startedBroker interruptEvents :=
  ⟨startedBroker_inChain, trivial, trivial, trivial⟩

theorem lifecycle_run_interrupt :
    AtMostOne sampleFormat longStore "session" (interruptedBroker 3) :=
  (lifecycle_run sampleFormat longStore (fun _ _ _ => true) "session" startedBroker interruptEvents
    [] rfl (by rw [append_nil]; exact interruptEvents_allowed)).1

/-- An interrupt is accepted. The same call is refused once the scope of its caller is over. Its
receipt is let through and stored, and then its refusal is recorded as well. -/
theorem interrupt_answered_refused : (startedBroker.sessions "session").requests = [] ∧
      Throughout (Event.after sampleFormat longStore fun _ _ _ => true)
        (Event.Allowed sampleFormat longStore) startedBroker interruptEvents ∧
      (∃ intent, (prepare sampleFormat (longAuthorization "session") runningStatus briefCoordinator
        interruptRequest 0 [longReceipt 0, longReceipt 1]).Returns startedBroker (.execute intent)
          (interruptedBroker 1)) ∧
      prepare sampleFormat (longAuthorization "session") runningStatus briefCoordinator
        interruptRequest 1 [longReceipt 0, longReceipt 1] [] (interruptedBroker 1) =
          (.error (refusal runningStatus .invalidRequest), [], interruptedBroker 1) ∧
      checkReceipt sampleFormat (interruptedBroker 1) (longReceipt 2) = .ok () ∧
      InChain sampleFormat longStore (interruptedBroker 3) "session" (longReceipt 2) ∧
      (longReceipt 2).payload.requestId = interruptRequest.requestId ∧
      failure sampleFormat (interruptedBroker 3) interruptRequest =
        .ok (some interruptRefusal) := by
  have ha : Throughout (Event.after sampleFormat longStore fun _ _ _ => true)
      (Event.Allowed sampleFormat longStore) startedBroker (interruptEvents.take 2) :=
    ⟨startedBroker_inChain, trivial, trivial⟩
  have hk : AtMostOne sampleFormat longStore "session" (interruptedBroker 2) :=
    (run_keeps (atMostOne_of_empty rfl) ha).1
  have hl : Lasts (interruptedBroker 2)
      ((Event.recordFailure interruptRequest interruptRefusal []).after sampleFormat longStore
        (fun _ _ _ => true) (interruptedBroker 2)) := by
    refine (Event.keeps hk ?_).2
    trivial
  refine ⟨rfl, interruptEvents_allowed, ?_, interruptRequest_expired _,
    interruptedBroker_checkReceipt, hl.inChain interruptedBroker_inChain, rfl,
    interruptRefusal_recorded⟩
  rw [interruptedBroker_first]
  exact interruptRequest_prepared

end

end Louiselm.Broker.Lifecycle
