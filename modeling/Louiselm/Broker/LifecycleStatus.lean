import Louiselm.Broker.Lifecycle
import Louiselm.Broker.ReceiptRuns

/-!
# What status offers and what a request meets

`session_status` of `skills-core/src/broker/lifecycle_service.rs` offers what the caller's scope,
a quarantine, a Provider hold and a pending operation leave of the transitions. A request also
meets what `prepare` looks for: another request without an outcome, receipts that are not
delivered, and a launcher head with no sequence after it. Only a request under an id that is not
on record is looked at.
-/

namespace Louiselm.Broker.Lifecycle
open Base Canonical Launch List
open Launch.Protocol (CompletedRequest LaunchAuthorization LifecycleAction
  LifecycleRequest RequestDisposition SupervisorStatus evaluateRequest transition)
open Base.Program
open Broker.Authorization (readRecord)
open LifecycleCaller SessionStatus Protocol
open Except (ok.inj ok.injEq)

/-! ### The evaluation of a request that is not on record -/

section

variable {sha256 : Sha256} {fmt : JsonFormat} {status : SupervisorStatus}
  {req : LifecycleRequest} {d : RequestDisposition}

theorem isOk_iff {ε α : Type} {x : Except ε α} : x.isOk = true ↔ ∃ a, x = .ok a := by
  cases x <;> simp [Except.isOk, Except.toBool]

/-- The receipts are where a Resume needs them. -/
def CaughtUp (status : SupervisorStatus) : Prop :=
  status.pendingReceiptCount = 0 ∧ status.launcherHead = status.brokerHead

/-- What is not on record is executed. -/
theorem evaluateRequest_none (h : evaluateRequest sha256 fmt status none req = .ok d) :
    ∃ i, d = .execute i := by
  simp only [evaluateRequest, check_ok] at h
  obtain ⟨-, -, -, -, -, -, -, -, h⟩ := h
  obtain ⟨r, -, h⟩ := bind_ok.mp h
  split at h
  · simp at h
  · split at h
    · exact ⟨_, (ok.inj h).symm⟩
    · simp at h

/-- When a request that expects what the status says is executed. -/
theorem evaluateRequest_matching (ht : status.validate = .ok ())
    (he : req.validate = .ok ()) (hs : req.sessionId = status.sessionId)
    (hu : req.runId = status.runId) (hst : req.expectedState = status.state)
    (hq : req.expectedReceiptSequence = status.currentSequence)
    (hv : req.envelopeRevision = status.envelopeRevision) :
    (∃ d, evaluateRequest sha256 fmt status none req = .ok d) ↔
      status.pendingOperation = none ∧ (req.action = .resume → CaughtUp status) ∧
        (transition status.state req.action).isOk = true ∧
        ∃ head, status.launcherHead = some head ∧ head.sequence.toNat + 1 < UInt64.size := by
  have hc : (!(req.action == .resume && (status.pendingReceiptCount != 0 ||
      status.launcherHead != status.brokerHead))) = true ↔
      (req.action = .resume → CaughtUp status) := by
    rw [CaughtUp]
    by_cases hr : req.action = .resume <;> simp [hr]
  simp only [evaluateRequest, check_ok, ht, he, require_ok, hs, hu,
    hst, hq, hv, beq_self_eq_true, Bool.and_self, true_and, hc,
    Option.isNone_iff_eq_none, isOk_iff]
  constructor
  · rintro ⟨d, hi, hr, h⟩
    obtain ⟨after, ha, h⟩ := bind_ok.mp h
    have ha := mapError_ok.mp ha
    refine ⟨hi, hr, ⟨after, ha⟩, ?_⟩
    split at h
    · simp at h
    · next head hh =>
      split at h
      · next ho => exact ⟨head, hh, ho⟩
      · simp at h
  · rintro ⟨hi, hr, ⟨after, ha⟩, head, hh, ho⟩
    rw [ha, hh]
    exact ⟨_, hi, hr, if_pos ho⟩

end

/-! ### Requests without an outcome -/

section

variable (format : Format) (broker : BrokerState)

/-- An accepted request has a receipt or a recorded failure. -/
def Answered (receipts : List SignedReceipt) (request : LifecycleRequest) : Prop :=
  (∃ receipt ∈ receipts, receipt.payload.requestId = request.requestId) ∨
    ∃ error, failure format broker request = .ok (some error)

/-- Every request file of a Session can be read and is answered, and there are not too many. -/
structure Settled (sessionId : String) (receipts : List SignedReceipt) : Prop where
  bounded : (broker.sessions sessionId).requests.length ≤ maxRequests
  answered : ∀ item ∈ (broker.sessions sessionId).requests, ∃ accepted,
    item.2.read format.acceptedBytes = .ok accepted ∧ accepted.request.validate = .ok () ∧
      Answered format broker receipts accepted.request

variable {format broker} {receipts : List SignedReceipt}

theorem checkOutcome_ok {x : (String × Authorization.Stored AcceptedRequest) × Nat} :
    checkOutcome format broker receipts x = .ok () ↔ x.2 < maxRequests ∧ ∃ a,
      x.1.2.read format.acceptedBytes = .ok a ∧ a.request.validate = .ok () ∧
        Answered format broker receipts a.request := by
  have ha : ∀ id : String, receipts.any (·.payload.requestId == id) = true ↔
      ∃ r ∈ receipts, r.payload.requestId = id := by simp
  simp only [checkOutcome, check_ok, require_ok, decide_eq_true_eq]
  refine and_congr_right fun _ => ?_
  rw [bind_ok]
  refine exists_congr fun a => and_congr_right fun _ => ?_
  rw [check_ok, mapError_ok, Answered, ← ha]
  refine and_congr_right fun _ => ?_
  split
  · next hf => exact iff_of_true rfl (.inl hf)
  · next hf =>
    rw [bind_ok, or_iff_right hf]
    constructor
    · rintro ⟨f, hfa, hs⟩
      obtain ⟨e, rfl⟩ := Option.isSome_iff_exists.mp (require_ok.mp hs)
      exact ⟨e, hfa⟩
    · rintro ⟨e, he⟩
      exact ⟨some e, he, rfl⟩

/-- The scan passes exactly where every request of the Session is settled. -/
theorem checkPending_ok {si : String} {u : Unit} : checkPending format broker si receipts = .ok u ↔
      Settled format broker si receipts := by
  rw [checkPending, forM_ok]
  simp only [checkOutcome_ok]
  constructor
  · intro h
    have ha : ∀ i (hi : i < (broker.sessions si).requests.length), i < maxRequests ∧ _ :=
      fun i hi => h ((broker.sessions si).requests[i], i)
        (mk_mem_zipIdx_iff_getElem?.mpr (List.getElem?_eq_getElem hi))
    refine ⟨?_, fun x hit => ?_⟩
    · by_contra hm
      have he := (ha maxRequests (by omega)).1
      omega
    · obtain ⟨i, hi, rfl⟩ := mem_iff_getElem.mp hit
      exact (ha i hi).2
  · rintro ⟨hb, hn⟩ x hit
    have hl := snd_lt_of_mem_zipIdx hit
    exact ⟨by omega, hn x.1 (fst_mem_of_mem_zipIdx hit)⟩

end

/-! ### What status offers -/

section

variable {l : LaunchAuthorization} {ca : LifecycleCaller} {state : SessionState}
  {w : Bool} {ms : UInt64} {action : LifecycleAction} {ac : List LifecycleAction}

theorem LifecycleCaller.mem_sortActions : action ∈ sortActions ac ↔ action ∈ ac :=
    mem_insertionSort _

theorem LifecycleCaller.mem_allowedActions : action ∈ ca.allowedActions l state w ms ↔
      (transition state action).isOk = true ∧ (action = .resume → w = false) ∧
        ca.allows l.sessionId l.runId l.envelopeRevision action l ms =
          true := by
  have ha : action ∈ [LifecycleAction.park, .resume, .interrupt, .disposal] := by
    cases action <;> decide
  have hw : (!(w && action == .resume)) = true ↔ (action = .resume → w = false) := by
    cases w <;> simp
  rw [LifecycleCaller.allowedActions, mem_sortActions, mem_filter, Bool.and_eq_true,
    Bool.and_eq_true, hw, and_iff_right ha, and_assoc]

/-- Whichever actions are left, they are in order. -/
theorem LifecycleCaller.filter_ordered (k : LifecycleAction → Bool) :
    let ac := [LifecycleAction.park, .resume, .interrupt, .disposal].filter k
    sortActions ac = ac ∧ ascending ac = true ∧ ac.IsChain (· ≠ ·) := by
  cases hp : k .park <;> cases hr : k .resume <;>
    cases hi : k .interrupt <;> cases hd : k .disposal <;>
    simp only [List.filter, hp, hr, hi, hd] <;> decide

/-- Status takes the actions that its caller is allowed as they are. -/
theorem SessionStatus.compose_allowedActions {status : SupervisorStatus}
    (ht : status.validate = .ok ()) (hi : status.pendingOperation = none) :
    compose status (ca.allowedActions l status.state w ms) =
      .ok ⟨status, ca.allowedActions l status.state w ms⟩ := by
  have hp : ((ca.allowedActions l status.state w ms).all fun action =>
      (transition status.state action).isOk) = true := by
    rw [all_eq_true]
    exact fun action hac => (mem_allowedActions.mp hac).1
  obtain ⟨hs, ha, hc⟩ := filter_ordered fun action =>
    (transition status.state action).isOk && !(w && action == .resume) &&
      ca.allows l.sessionId l.runId l.envelopeRevision action l ms
  have hsa : sortActions (ca.allowedActions l status.state w ms) =
        ca.allowedActions l status.state w ms := by
    rw [LifecycleCaller.allowedActions, hs, hs]
  rw [← hs] at ha hc
  have ha : ascending (ca.allowedActions l status.state w ms) = true :=
    ha
  have hc : (ca.allowedActions l status.state w ms).IsChain (· ≠ ·) :=
    hc
  simp only [compose, hsa, ht, validate, hi, ha, hp, decide_eq_true hc]
  rfl

variable {fo : Format} {store : ReceiptStore} {b after : BrokerState} {an : SupervisorStatus}
  {evidence : SupervisorStatus → Bool → Except BrokerError Unit} {s : SessionStatus}

/-- A composed status has the supervisor's facts and the actions that it was given. -/
theorem SessionStatus.compose_ok (h : compose an ac = .ok s) :
    s.supervisor = an ∧ ∀ action, action ∈ s.allowedActions ↔ action ∈ ac := by
  simp only [compose, check_ok] at h
  obtain ⟨-, -, -, h⟩ := h
  obtain rfl := ok.inj h
  exact ⟨rfl, fun _ => mem_sortActions⟩

/-- What a status that is shown says of the broker. -/
theorem sessionStatus_returns (h : (sessionStatus fo store l ca an ms evidence).Returns b s
      after) : s.supervisor = an ∧ checkStatus fo store b l an = .ok () ∧
      ∃ q hold, isQuarantined fo b l.sessionId = .ok q ∧ currentHold b l.runId = .ok hold ∧
        ∀ action, action ∈ s.allowedActions ↔ an.pendingOperation = none ∧
          action ∈ ca.allowedActions l an.state (q || hold.isSome) ms := by
  have ht : Finishes (supervisorStatus fo store l an) :=
    (finishes_query _ _).bind fun _ => finishes_pure _
  rw [sessionStatus, ht.calm.returns_bind] at h
  simp only [supervisorStatus, held, returns_query_bind, returns_pure_iff, returns_ofExcept_bind,
    returns_ofExcept_iff, mapError_ok] at h
  obtain ⟨_, _, ⟨_, hc, rfl, rfl⟩, q, hq, hold, hh, -, -, h, -⟩ := h
  obtain ⟨hs, ha⟩ := compose_ok h
  refine ⟨hs, hc, q, hold, hq, hh, fun action => ?_⟩
  rw [ha]
  cases an.pendingOperation with
  | none => simp
  | some p => simp

end

/-! ### What a request meets -/

section

variable (format : Format) (store : ReceiptStore) (broker : BrokerState)

/-- A well-formed request for what a status says, under an id that nothing is on record for. -/
structure Fresh (status : SupervisorStatus) (request : LifecycleRequest) : Prop where
  wellFormed : request.validate = .ok ()
  session : request.sessionId = status.sessionId
  run : request.runId = status.runId
  state : request.expectedState = status.state
  sequence : request.expectedReceiptSequence = status.currentSequence
  revision : request.envelopeRevision = status.envelopeRevision
  unaccepted : (broker.sessions request.sessionId).requests.lookup
    (requestName format request.requestId) = none
  unfailed : (broker.sessions request.sessionId).failures.lookup
    (requestName format request.requestId) = none
  unanswered : ∀ receipts,
    store.chain format.sha256 format.json broker.receipts request.sessionId = .ok receipts →
      ∀ receipt ∈ receipts, receipt.payload.requestId ≠ request.requestId

variable {format store broker} {la : LaunchAuthorization} {cal : LifecycleCaller}
  {stt : SupervisorStatus} {re : LifecycleRequest} {nm : UInt64}
  {receipts : List SignedReceipt} {di : RequestDisposition} {after : BrokerState}

theorem Fresh.failure (h : Fresh format store broker stt re) :
    Lifecycle.failure format broker re = .ok none := by
  have hr : readRecord format.errorBytes (broker.sessions re.sessionId).failures
      (requestName format re.requestId) = .ok none := by rw [readRecord, h.unfailed]
  rw [Lifecycle.failure, hr]
  rfl

theorem Fresh.read (h : Fresh format store broker stt re) :
    readRecord format.acceptedBytes (broker.sessions re.sessionId).requests
      (requestName format re.requestId) = .ok none := by rw [readRecord, h.unaccepted]

/-- What a request for a status asks of its caller. -/
theorem Fresh.permits (h : Fresh format store broker stt re) (hs : stt.sessionId = la.sessionId)
    (hr : stt.runId = la.runId) (he : stt.envelopeRevision = la.envelopeRevision) :
    cal.permits la re nm = cal.allows la.sessionId la.runId
      la.envelopeRevision re.action la nm := by
  rw [LifecycleCaller.permits, h.session, h.run, h.revision, hs, hr, he]

variable {u : Unit}

theorem checkQuarantine_returns {r : BrokerError} :
    (checkQuarantine format re r).Returns broker u after ↔
      isQuarantined format broker re.sessionId = .ok false ∧ broker = after := by
  rw [checkQuarantine, returns_query_bind]
  simp only [returns_ofExcept_iff, require_ok, Bool.not_eq_true']
  constructor
  · rintro ⟨_, hq, rfl, ha⟩
    exact ⟨hq, ha⟩
  · rintro ⟨hq, ha⟩
    exact ⟨false, hq, rfl, ha⟩

theorem finishes_checkQuarantine (r : BrokerError) : Finishes (checkQuarantine format re r) :=
  (finishes_query _ _).bind fun _ => finishes_ofExcept _

/-- Only a Resume is held against the quarantine. -/
theorem returns_checkQuarantine_of_resume {r : BrokerError} :
    (if (re.action == .resume) = true then checkQuarantine format re r
      else pure ()).Returns broker u after ↔
      (re.action = .resume → isQuarantined format broker re.sessionId = .ok false) ∧
        broker = after := by
  by_cases hr : re.action = .resume
  · simp [hr, checkQuarantine_returns]
  · simp [hr, returns_pure_iff]

theorem finishes_checkQuarantine_of_resume (r : BrokerError) :
    Finishes (if (re.action == .resume) = true then checkQuarantine format re r
      else pure ()) := by
  split
  · exact finishes_checkQuarantine r
  · exact finishes_pure ()

theorem finishes_reserve (r : BrokerError) (a : Option AcceptedRequest) :
    Finishes (reserve format cal re receipts r a) := by
  cases a with
  | some a => exact (finishes_probe _).bind fun _ => finishes_probe _
  | none =>
    refine (finishes_query _ _).bind fun _ => (finishes_probe _).bind fun _ => ?_
    exact (finishes_probe _).bind fun _ => (finishes_probe _).bind fun _ =>
      Directory.finishes_create

/-- Where nothing is on record for a request, it is written once all others are settled. -/
theorem Fresh.reserve_returns (h : Fresh format store broker stt re) (r : BrokerError) :
    (∃ after, (reserve format cal re receipts r none).Returns broker () after) ↔
      Settled format broker re.sessionId receipts := by
  simp only [reserve, returns_query_bind, returns_probe_bind, Directory.returns_create_iff,
    mapError_ok, checkPending_ok]
  constructor
  · rintro ⟨_, _, hs, -⟩
    exact hs
  · exact fun hs => ⟨_, (), hs, h.unaccepted, rfl⟩

/-- A request that is not on record is prepared where its caller may make it, no quarantine keeps
it back, it is executed and every other one has an outcome. -/
theorem Fresh.prepare_returns (h : Fresh format store broker stt re) (hl : la.validate = .ok ())
    (ht : stt.validate = .ok ()) (hs : stt.sessionId = la.sessionId) (hrun : stt.runId = la.runId)
    (hv : stt.envelopeRevision = la.envelopeRevision)
    (hu : ∀ r ∈ receipts, r.payload.requestId ≠ re.requestId) :
    (∃ after, (prepare format la stt cal re nm receipts).Returns broker
      di after) ↔ cal.permits la re nm = true ∧
        (re.action = .resume → isQuarantined format broker re.sessionId = .ok false) ∧
        evaluateRequest format.sha256 format.json stt none re = .ok di ∧
        Settled format broker re.sessionId receipts := by
  have hn : receipts.find? (·.payload.requestId == re.requestId) = none := by
    rw [List.find?_eq_none]
    exact fun r hc => by simpa using hu r hc
  have hr : ((readRecord (requests format re.sessionId).bytes
      ((requests format re.sessionId).files broker) (requestName format re.requestId)).mapError
        (requests format re.sessionId).lift) = .ok none := by
    rw [mapError_ok]
    exact h.read
  have hsu : (la.sessionId == re.sessionId && la.runId == re.runId) = true := by
    rw [h.session, h.run, hs, hrun]
    simp
  have hx : (la.envelopeRevision == re.envelopeRevision) = true := by
    rw [h.revision, hv]
    exact beq_self_eq_true _
  simp only [prepare, prepareLocked, returns_ofExcept_bind, mapError_ok, hl, ht, h.wellFormed,
    Directory.read, returns_query_bind, hr, hn, Option.map_none, h.failure, require_ok,
    hsu, hx, ok.injEq, exists_eq_left', Option.all_none, Option.isSome_none,
    Option.isNone_none, Bool.false_and, Bool.true_and, Bool.not_false, Option.elim_none, true_and,
    exists_const, (finishes_checkQuarantine_of_resume _).calm.returns_bind,
    returns_checkQuarantine_of_resume, (finishes_reserve _ _).calm.returns_bind, returns_pure_iff]
  constructor
  · rintro ⟨_, hp, _, ⟨hf, rfl⟩, _, he, u, m, hre, rfl, -⟩
    exact ⟨hp, hf, he, (h.reserve_returns _).mp ⟨m, hre⟩⟩
  · rintro ⟨hp, hf, he, hse⟩
    obtain ⟨m, hre⟩ := (h.reserve_returns (refusal stt .operationPending)).mpr
      hse
    exact ⟨m, hp, broker, ⟨hf, rfl⟩, di, he, (), m, hre,
      rfl, rfl⟩

theorem finishes_prepare : Finishes (prepare format la stt cal re nm receipts) := by
  refine (finishes_ofExcept _).bind fun _ => (finishes_ofExcept _).bind fun _ => ?_
  refine (finishes_ofExcept _).bind fun _ => (finishes_ofExcept _).bind fun _ => ?_
  refine (finishes_ofExcept _).bind fun _ => (finishes_ofExcept _).bind fun _ => ?_
  refine Directory.finishes_read.bind fun a => (finishes_ofExcept _).bind fun _ => ?_
  refine (finishes_ofExcept _).bind fun _ => (finishes_query _ _).bind fun f => ?_
  refine (finishes_ofExcept _).bind fun _ => Finishes.bind ?_ fun _ => ?_
  · split
    · exact finishes_checkQuarantine _
    · exact finishes_pure ()
  · refine (finishes_ofExcept _).bind fun di => ?_
    exact (finishes_reserve _ a).bind fun _ => finishes_pure _

/-! The worker's path to it. -/

theorem finishes_checkHold (r : List SignedReceipt) : Finishes (checkHold format re r) := by
  refine (finishes_query _ _).bind fun hold => ?_
  split
  · exact (finishes_query _ _).bind fun _ => finishes_ofExcept _
  · exact finishes_pure ()

variable {rd : List SignedReceipt}

/-- A Run that is held keeps back a Resume that is not on record. -/
theorem Fresh.checkHold_returns (h : Fresh format store broker stt re)
    (hu : ∀ r ∈ rd, r.payload.requestId ≠ re.requestId) :
    (checkHold format re rd).Returns broker u after ↔
      currentHold broker re.runId = .ok none ∧ broker = after := by
  have ha : rd.any (·.payload.requestId == re.requestId) = false := by
    rw [any_eq_false]
    exact fun r hc => by simpa using hu r hc
  rw [checkHold, held, returns_query_bind]
  constructor
  · rintro ⟨hold, hh, hr⟩
    cases hold with
    | none => exact ⟨hh, (returns_pure_iff.mp hr).2⟩
    | some hold =>
      simp [ha, returns_query_bind, h.failure, returns_ofExcept_iff] at hr
  · rintro ⟨hh, hf⟩
    exact ⟨none, hh, returns_pure_iff.mpr ⟨rfl, hf⟩⟩

/-- Only a Resume is held against the Provider ledger. -/
theorem Fresh.returns_checkHold_of_resume (h : Fresh format store broker stt re)
    (hu : ∀ r ∈ rd, r.payload.requestId ≠ re.requestId) :
    (if (re.action == .resume) = true then checkHold format re rd
      else pure ()).Returns broker u after ↔
      (re.action = .resume → currentHold broker re.runId = .ok none) ∧ broker = after := by
  by_cases hr : re.action = .resume
  · simp [hr, h.checkHold_returns hu]
  · simp [hr, returns_pure_iff]

theorem finishes_checkHold_of_resume (rd : List SignedReceipt) :
    Finishes (if (re.action == .resume) = true then checkHold format re rd
      else pure ()) := by
  split
  · exact finishes_checkHold rd
  · exact finishes_pure ()

variable {ans : SupervisorStatus}

theorem supervisorStatus_returns : (supervisorStatus format store la ans).Returns broker stt after ↔
      checkStatus format store broker la ans = .ok () ∧ ans = stt ∧ broker = after := by
  simp only [supervisorStatus, returns_query_bind, returns_pure_iff]
  constructor
  · rintro ⟨_, h⟩
    exact h
  · exact fun h => ⟨(), h⟩

theorem finishes_supervisorStatus (ans : SupervisorStatus) :
    Finishes (supervisorStatus format store la ans) :=
  (finishes_query _ _).bind fun _ => finishes_pure _

theorem finishes_recordFailure (e : ProtocolError) : Finishes (recordFailure format re e) := by
  refine (finishes_ofExcept _).bind fun _ => (finishes_ofExcept _).bind fun _ => ?_
  refine Directory.finishes_read.bind fun a => ?_
  split
  · exact finishes_fail _
  · refine (finishes_ofExcept _).bind fun _ => (finishes_query _ _).bind fun f => ?_
    split
    · refine (finishes_ofExcept _).bind fun _ => (finishes_probe _).bind fun _ => ?_
      exact finishes_probe _
    · refine (finishes_probe _).bind fun _ => (finishes_probe _).bind fun _ => ?_
      exact Directory.finishes_create

theorem finishes_dispatch (di : RequestDisposition) :
    Finishes (dispatch format la stt cal re nm di) := by
  unfold dispatch
  split
  · exact finishes_pure _
  · refine (finishes_ofExcept _).bind fun _ => ?_
    split
    · exact finishes_pure _
    · exact (finishes_recordFailure _).bind fun _ => finishes_fail _

/-- What is executed is ready to be sent. -/
theorem dispatch_execute_returns {i : ReceiptIntent} (hp : cal.permits la re nm = true) :
    (dispatch format la stt cal re nm (.execute i)).Returns broker
      di after ↔ .execute i = di ∧ broker = after := by
  simp [dispatch, replayedReceipt, returns_ofExcept_bind, hp, returns_pure_iff]

theorem finishes_requestLifecycle (ans : SupervisorStatus) (c : Readings) :
    Finishes (requestLifecycle format store la cal re ans c) := by
  refine (finishes_ofExcept _).bind fun _ => (finishes_ofExcept _).bind fun _ => ?_
  refine (finishes_query _ _).bind fun rd => Finishes.bind ?_ fun _ => ?_
  · split
    · exact finishes_checkHold rd
    · exact finishes_pure ()
  · refine (finishes_supervisorStatus ans).bind fun stt => ?_
    exact (finishes_query _ _).bind fun receipts => finishes_prepare.bind finishes_dispatch

/-- What a status that was checked says. -/
theorem checkStatus_ok (h : checkStatus format store broker la ans = .ok ()) :
    ans.validate = .ok () ∧ ans.sessionId = la.sessionId ∧
      ans.runId = la.runId ∧ ans.envelopeRevision = la.envelopeRevision ∧
        ∃ receipts, store.chain format.sha256 format.json broker.receipts la.sessionId =
          .ok receipts := by
  simp only [checkStatus, check_ok, mapError_ok, require_ok, Bool.and_eq_true, beq_iff_eq] at h
  obtain ⟨ha, ⟨⟨hs, hu⟩, he⟩, h⟩ := h
  obtain ⟨head, hh, -⟩ := bind_ok.mp h
  obtain ⟨receipts, hr, -⟩ := bind_ok.mp hh
  exact ⟨ha, hs, hu, he, receipts, hr⟩

/-- A request that is not on record gets as far as it is prepared, and a Resume only where its
Run is not held. -/
theorem Fresh.requestLifecycle_returns (h : Fresh format store broker ans re)
    (hl : la.validate = .ok ()) (hh : checkStatus format store broker la ans = .ok ())
    (hc : store.chain format.sha256 format.json broker.receipts la.sessionId = .ok receipts) :
    (∃ after, (requestLifecycle format store la cal re ans ⟨nm, nm, nm⟩).Returns broker di after) ↔
      cal.permits la re nm = true ∧
        (re.action = .resume → isQuarantined format broker la.sessionId = .ok false ∧
          currentHold broker la.runId = .ok none) ∧
        evaluateRequest format.sha256 format.json ans none re = .ok di ∧
        Settled format broker la.sessionId receipts := by
  obtain ⟨hans, hse, hn, hv, -⟩ := checkStatus_ok hh
  have ha : re.sessionId = la.sessionId := h.session.trans hse
  have hsr : re.runId = la.runId := h.run.trans hn
  have hu := h.unanswered receipts (by rw [ha]; exact hc)
  have hpr : ∀ ma, (∃ after, (prepare format la ans cal re nm
      receipts).Returns broker ma after) ↔ _ := fun ma =>
    h.prepare_returns hl hans hse hn hv hu
  simp only [requestLifecycle, returns_ofExcept_bind, mapError_ok, h.wellFormed, require_ok,
    chain, returns_query_bind, hc, ok.injEq, exists_eq_left', true_and, exists_const,
    (finishes_checkHold_of_resume _).calm.returns_bind, h.returns_checkHold_of_resume hu,
    (finishes_supervisorStatus _).calm.returns_bind, supervisorStatus_returns,
    finishes_prepare.calm.returns_bind]
  constructor
  · rintro ⟨_, hp, _, ⟨hun, rfl⟩, _, _, ⟨-, rfl, rfl⟩, _, hre, ma, m, hm, hd⟩
    obtain rfl := ok.inj (hc.symm.trans hre)
    obtain ⟨-, hf, he, hs⟩ := (hpr ma).mp ⟨m, hm⟩
    obtain ⟨i, rfl⟩ := evaluateRequest_none he
    obtain ⟨rfl, -⟩ := (dispatch_execute_returns hp).mp hd
    rw [ha] at hf hs
    rw [hsr] at hun
    exact ⟨hp, fun hr => ⟨hf hr, hun hr⟩, he, hs⟩
  · rintro ⟨hp, hf, he, hs⟩
    obtain ⟨i, rfl⟩ := evaluateRequest_none he
    rw [← ha] at hf hs
    rw [← hsr] at hf
    obtain ⟨m, hm⟩ := (hpr (.execute i)).mpr ⟨hp, fun hr => (hf hr).1, he, hs⟩
    exact ⟨m, hp, broker, ⟨fun hr => (hf hr).2, rfl⟩, ans, broker,
      ⟨hh, rfl, rfl⟩, receipts, hc, .execute i, m, hm, (dispatch_execute_returns hp).mpr ⟨rfl, rfl⟩⟩

end

/-! ### Agreement -/

section

variable (format : Format) (store : ReceiptStore) (broker : BrokerState)
  (launch : LaunchAuthorization) (caller : LifecycleCaller) (status : SupervisorStatus)

/-- What the caller may ask for as things stand. -/
structure Offerable (action : LifecycleAction) (nowMs : UInt64) : Prop where
  idle : status.pendingOperation = none
  transition : (transition status.state action).isOk = true
  scope : caller.allows launch.sessionId launch.runId launch.envelopeRevision action launch nowMs =
    true
  free : action = .resume → isQuarantined format broker launch.sessionId = .ok false ∧
    currentHold broker launch.runId = .ok none

/-- What a request meets beyond that: every other one has its outcome, a Resume finds all receipts
delivered, and a sequence is left. -/
structure Ready (action : LifecycleAction) : Prop where
  settled : ∀ receipts,
    store.chain format.sha256 format.json broker.receipts launch.sessionId = .ok receipts →
      Settled format broker launch.sessionId receipts
  caughtUp : action = .resume → CaughtUp status
  room : ∀ head ∈ status.launcherHead, head.sequence.toNat + 1 < UInt64.size

/-- A request for an action that is offered is prepared for execution, and one for a transition
that is not offered is refused. -/
structure Agrees (shown : SessionStatus) (request : LifecycleRequest) (nowMs : UInt64) : Prop where
  offered : request.action ∈ shown.allowedActions → ∃ intent after,
    (requestLifecycle format store launch caller request shown.supervisor
      ⟨nowMs, nowMs, nowMs⟩).Returns broker (.execute intent) after
  omitted : (transition shown.supervisor.state request.action).isOk = true →
    request.action ∉ shown.allowedActions → ∃ error after,
      requestLifecycle format store launch caller request shown.supervisor
        ⟨nowMs, nowMs, nowMs⟩ [] broker = (.error error, [], after)

variable {format store broker launch caller status} {request : LifecycleRequest} {nowMs : UInt64}
  {shown : SessionStatus} {evidence : SupervisorStatus → Bool → Except BrokerError Unit}

variable {action : LifecycleAction}

/-- Where an action is possible the launcher has a head. -/
theorem launcherHead_isSome (hs : status.validate = .ok ())
    (hr : (transition status.state action).isOk = true) : status.launcherHead.isSome = true := by
  simp only [SupervisorStatus.validate, SupervisorStatus.validateStatusShape, check_ok] at hs
  obtain ⟨-, -, -, -, -, -, h⟩ := hs
  obtain ⟨gap, -, h⟩ := bind_ok.mp h
  simp only [check_ok, require_ok, Bool.and_eq_true] at h
  obtain ⟨-, -, -, -, ht, -⟩ := h
  unfold SupervisorStatus.stateMatches at ht
  cases hc : status.state with
  | starting => simp [hc, transition, Except.isOk, Except.toBool] at hr
  | running =>
    rw [hc] at ht
    exact Option.isSome_of_any (Bool.and_eq_true_iff.mp ht).2
  | parked =>
    rw [hc] at ht
    exact (Bool.and_eq_true_iff.mp ht).2
  | terminal => simp [hc, transition, Except.isOk, Except.toBool] at hr

/-- An action is offered exactly where it is offerable. -/
theorem mem_shown_iff (hsh : (sessionStatus format store launch caller status nowMs
    evidence).Returns broker shown broker) : action ∈ shown.allowedActions ↔
      Offerable format broker launch caller shown.supervisor action nowMs := by
  obtain ⟨rfl, -, q, hold, hq, hh, ha⟩ := sessionStatus_returns hsh
  rw [ha, mem_allowedActions]
  have hf : (q || hold.isSome) = false ↔ isQuarantined format broker launch.sessionId = .ok false ∧
        currentHold broker launch.runId = .ok none := by
    rw [hq, hh]
    simp
  rw [hf]
  constructor
  · rintro ⟨hi, ht, hf, hs⟩
    exact ⟨hi, ht, hs, hf⟩
  · rintro ⟨hi, ht, hs, hf⟩
    exact ⟨hi, ht, hf, hs⟩

/-- A fresh request is prepared exactly where its action is offerable and nothing else is met. -/
theorem Fresh.accepted_iff (h : Fresh format store broker status request)
    (hl : launch.validate = .ok ()) (hk : checkStatus format store broker launch status = .ok ()) :
    (∃ dis after, (requestLifecycle format store launch caller request status
      ⟨nowMs, nowMs, nowMs⟩).Returns broker dis after) ↔
      Offerable format broker launch caller status request.action nowMs ∧
        Ready format store broker launch status request.action := by
  obtain ⟨ht, hs, hu, hrev, receipts, hc⟩ := checkStatus_ok hk
  have hv : (∃ dis, evaluateRequest format.sha256 format.json status none request = .ok dis) ↔ _ :=
    evaluateRequest_matching ht h.wellFormed h.session h.run h.state h.sequence h.revision
  simp only [h.requestLifecycle_returns hl hk hc, h.permits hs hu hrev]
  constructor
  · rintro ⟨dis, hsc, hf, he, hse⟩
    obtain ⟨hi, ha, htr, head, hh, hro⟩ := hv.mp ⟨_, he⟩
    refine ⟨⟨hi, htr, hsc, hf⟩, ?_, ha, ?_⟩
    · intro r hre
      obtain rfl := ok.inj (hc.symm.trans hre)
      exact hse
    · intro o hot
      rw [hh] at hot
      obtain rfl := Option.some.inj hot
      exact hro
  · rintro ⟨ho, hr⟩
    obtain ⟨head, hh⟩ := Option.isSome_iff_exists.mp (launcherHead_isSome ht ho.transition)
    obtain ⟨dis, he⟩ := hv.mpr ⟨ho.idle, hr.caughtUp, ho.transition, head, hh, hr.room head hh⟩
    exact ⟨dis, ho.scope, ho.free, he, hr.settled receipts hc⟩

/-- Status offers what the next request is granted, and withholds what it is refused, exactly where
nothing that is offered meets another request without an outcome, receipts that a Resume has to
wait for, or the last sequence. -/
theorem sessionStatus_agrees_iff (hlaunch : launch.validate = .ok ())
    (hshown : (sessionStatus format store launch caller status nowMs evidence).Returns broker shown
      broker) (hfresh : Fresh format store broker shown.supervisor request) :
    Agrees format store broker launch caller shown request nowMs ↔
      (Offerable format broker launch caller shown.supervisor request.action nowMs →
        Ready format store broker launch shown.supervisor request.action) := by
  obtain ⟨hs, hh, -⟩ := sessionStatus_returns hshown
  rw [← hs] at hh
  have hacc : (∃ dis after, (requestLifecycle format store launch caller request
      shown.supervisor ⟨nowMs, nowMs, nowMs⟩).Returns broker dis after) ↔ _ :=
    hfresh.accepted_iff hlaunch hh
  constructor
  · intro h ho
    obtain ⟨i, after, he⟩ := h.offered ((mem_shown_iff hshown).mpr ho)
    exact (hacc.mp ⟨_, _, he⟩).2
  · intro h
    refine ⟨fun hm => ?_, fun _ hm => ?_⟩
    · have ho := (mem_shown_iff hshown).mp hm
      obtain ⟨dis, after, he⟩ := hacc.mpr ⟨ho, h ho⟩
      obtain ⟨-, -, -, -, receipts, hc⟩ := checkStatus_ok hh
      have hv :=
        ((hfresh.requestLifecycle_returns hlaunch hh hc).mp ⟨after, he⟩).2.2.1
      obtain ⟨i, rfl⟩ := evaluateRequest_none hv
      exact ⟨i, after, he⟩
    · refine (finishes_requestLifecycle shown.supervisor ⟨nowMs, nowMs, nowMs⟩
        broker).resolve_left ?_
      intro ha
      exact hm ((mem_shown_iff hshown).mpr (hacc.mp ha).1)

end

/-! ### A Resume that has to wait for receipts -/

open Launch.Protocol (zeroHash zeroText backlog zeroText_canonical)
open Broker.ReceiptStore (longAuthorization longAuthorization_validate longFiles
  longReceipt longState longStore)

/-- The hash and the text of the samples, whose files have no length. -/
def sampleFormat : Format := ⟨zeroHash, Compact.format, fun _ => 0, fun _ => 0, fun _ => 0,
  fun _ => 0⟩

/-- A Session that was launched and started, without a request so far. -/
noncomputable def startedBroker : BrokerState :=
  ⟨fun _ => ⟨[], [], none, none, none⟩, fun _ => ⟨∅, ∅, ∅⟩, longFiles 2⟩

/-- The Session runs and its receipts are delivered. -/
def runningStatus : SupervisorStatus :=
  { backlog with
    envelopeRevision := 1
    launcherHead := some ⟨1, zeroText⟩
    pendingReceiptCount := 0 }

/-- The Session was parked, and the receipt of that is still on its way. -/
def laggingStatus : SupervisorStatus :=
  { backlog with
    envelopeRevision := 1
    state := .parked
    channelState := .revoked }

/-- A request of the operator under a new id. -/
def operatorRequest (action : LifecycleAction) (state : SessionState) : LifecycleRequest where
  schema := lifecycleRequestSchema
  protocolVersion := protocolVersion
  requestId := "request"
  sessionId := "session"
  runId := "run"
  authorizationId := "authorization"
  action := action
  expectedState := state
  expectedReceiptSequence := some 1
  envelopeRevision := 1

theorem runningStatus_validate : runningStatus.validate = .ok () := by
  have hh : Protocol.validateDigest zeroText = .ok () := require_ok.mpr zeroText_canonical
  simp only [SupervisorStatus.validate, SupervisorStatus.validateStatusShape, runningStatus,
      backlog,
    Option.forM_some, hh]
  decide

private theorem laggingStatus_validate : laggingStatus.validate = .ok () := by
  have hh : Protocol.validateDigest zeroText = .ok () := require_ok.mpr zeroText_canonical
  simp only [SupervisorStatus.validate, SupervisorStatus.validateStatusShape, laggingStatus,
      backlog,
    Option.forM_some, hh]
  decide

/-- The receipts of the launch and of the start are on record. -/
theorem startedBroker_chain :
    longStore.chain zeroHash Compact.format startedBroker.receipts "session" =
      .ok [longReceipt 0, longReceipt 1] := by
  dsimp only [startedBroker]
  exact (longState (by decide)).keeps.chain (by decide) (by decide)

variable {st : SupervisorStatus}

/-- The supervisor may answer with a status that names the stored head. -/
private theorem startedBroker_checkStatus (ht : st.validate = .ok ())
    (hs : st.sessionId = "session") (hu : st.runId = "run") (he : st.envelopeRevision = 1)
    (hh : st.brokerHead = some ⟨1, zeroText⟩) :
    checkStatus sampleFormat longStore startedBroker (longAuthorization "session") st = .ok () := by
  have hst : longStore.head zeroHash Compact.format startedBroker.receipts "session" =
      .ok (some ⟨1, zeroText⟩) := by
    rw [ReceiptStore.head, startedBroker_chain]
    rfl
  have hr : longStore.state zeroHash Compact.format startedBroker.receipts "session" =
      .ok (some .running) := by
    rw [ReceiptStore.state, startedBroker_chain]
    rfl
  simp only [checkStatus, check_ok, mapError_ok, require_ok, hs, hu, he, hh]
  refine ⟨ht, rfl, bind_ok.mpr ⟨_, hst, ?_⟩⟩
  rw [check_ok, require_ok, beq_self_eq_true]
  exact ⟨rfl, bind_ok.mpr ⟨_, hr, rfl⟩⟩

private theorem startedBroker_hold : currentHold startedBroker "run" = .ok none := by decide

private theorem startedBroker_free :
    isQuarantined sampleFormat startedBroker "session" = .ok false := by
  decide

/-- The status that the operator is shown. -/
private theorem startedBroker_shows {a : List LifecycleAction}
    (hc : checkStatus sampleFormat longStore startedBroker (longAuthorization "session")
      st = .ok ()) (hi : st.pendingOperation = none)
    (ha : (operator 1000).allowedActions (longAuthorization "session") st.state false 0 = a) :
    (sessionStatus sampleFormat longStore (longAuthorization "session") (.operator 1000) st 0
      fun _ _ => .ok ()).Returns startedBroker ⟨st, a⟩ startedBroker := by
  refine returns_bind (supervisorStatus_returns.mpr ⟨hc, rfl, rfl⟩) ?_
  refine returns_bind (returns_query _ _ startedBroker_free) ?_
  refine returns_bind (returns_query _ _ startedBroker_hold) ?_
  refine returns_bind (returns_ofExcept rfl _) (returns_ofExcept ?_ _)
  rw [hi, ← ha]
  exact mapError_ok.mpr (compose_allowedActions (checkStatus_ok hc).1 hi)

/-- Nothing is on record for the operator's request. -/
private theorem startedBroker_fresh {action : LifecycleAction}
    (he : (operatorRequest action st.state).validate = .ok ())
    (hs : st.sessionId = "session") (hu : st.runId = "run")
    (hv : st.envelopeRevision = 1) (hh : st.brokerHead = some ⟨1, zeroText⟩) :
    Fresh sampleFormat longStore startedBroker st (operatorRequest action st.state) where
  wellFormed := he
  session := hs.symm
  run := hu.symm
  state := rfl
  sequence := by rw [SupervisorStatus.currentSequence, hh]; rfl
  revision := hv.symm
  unaccepted := rfl
  unfailed := rfl
  unanswered := by
    intro receipts hr
    obtain rfl := ok.inj (startedBroker_chain.symm.trans hr)
    simp only [forall_mem_cons, not_mem_nil, false_implies, implies_true, and_true]
    have hf : ReceiptStore.requestName 0 ≠ "request" := by decide
    have hse : ReceiptStore.requestName 1 ≠ "request" := by decide
    exact ⟨hf, hse⟩

theorem sessionStatus_agrees_running :
    Agrees sampleFormat longStore startedBroker (longAuthorization "session") (.operator 1000)
      ⟨runningStatus, [.park, .interrupt, .disposal]⟩ (operatorRequest .park .running) 0 := by
  have hc := startedBroker_checkStatus runningStatus_validate rfl rfl rfl rfl
  refine (sessionStatus_agrees_iff longAuthorization_validate
    (startedBroker_shows hc rfl (by decide))
    (startedBroker_fresh (by decide) rfl rfl rfl rfl)).mpr fun _ => ⟨?_, ?_, ?_⟩
  · exact fun _ _ => ⟨Nat.zero_le _, forall_mem_nil _⟩
  · exact fun h => nomatch h
  · decide

/-- A Session was parked and the receipt of that is on its way. Status offers its operator a
Resume, and the next request for one is refused. -/
theorem resume_offered_refused : (longAuthorization "session").validate = .ok () ∧
      (sessionStatus sampleFormat longStore (longAuthorization "session") (.operator 1000)
        laggingStatus 0 fun _ _ => .ok ()).Returns startedBroker
        ⟨laggingStatus, [.resume, .interrupt, .disposal]⟩ startedBroker ∧
      Fresh sampleFormat longStore startedBroker laggingStatus (operatorRequest .resume .parked) ∧
      ¬ Agrees sampleFormat longStore startedBroker (longAuthorization "session") (.operator 1000)
        ⟨laggingStatus, [.resume, .interrupt, .disposal]⟩ (operatorRequest .resume .parked) 0 := by
  have hc := startedBroker_checkStatus laggingStatus_validate rfl rfl rfl rfl
  have hf : Fresh sampleFormat longStore startedBroker laggingStatus
      (operatorRequest .resume .parked) := startedBroker_fresh (by decide) rfl rfl rfl rfl
  refine ⟨longAuthorization_validate, startedBroker_shows hc rfl (by decide), hf, fun h => ?_⟩
  obtain ⟨i, after, he⟩ := h.offered (mem_cons_self ..)
  have hr := ((hf.accepted_iff longAuthorization_validate hc).mp ⟨_, _, he⟩).2
  exact absurd (hr.caughtUp rfl).1 (by decide)

end Louiselm.Broker.Lifecycle
