import Louiselm.Workflow.BeadRuns

/-!
# What every callback keeps

`lua/louiselm/workflow/beads.lua`: what each callback does keeps what holds of a controller between
its events, from the verification of a worker to the settling of its Bead.
-/

namespace Louiselm.Workflow.Beads
open Base Base.Lua List
open Routing.Qualification (under)

variable {rt : Runtime} {options : Options} {c : Controller} {job : Job} {req : Option Value}

namespace Controller

/-! ### Verification -/

/-- A result whose verification is reported. -/
def setReported (result : WorkerResult) : WorkerResult := { result with reported := true }

/-- A verification may be reported: what else could carry the sequence on belongs to it. -/
structure Reportable (rt : Runtime) (options : Options) (c : Controller) (job : Job) : Prop where
  reported : (c.results job.number).reported = true → Tokens rt options c
  quiet : (c.results job.number).reported = false →
    ∀ item ∈ c.waiting, isMain (c.setResult job.number setReported).results item.1 = false
  working : (c.results job.number).reported = false → Working rt options c job ∧ Ended c.log job
  blank : Blank c

variable {cont : Cont}

/-- What cannot carry the sequence on still cannot when a verification is reported. -/
theorem isMain_setReported (h : isMain c.results cont = false) :
    isMain (c.setResult job.number setReported).results cont = false := by
  have hm : ∀ number, (c.results number).reported = true →
      ((c.setResult job.number setReported).results number).reported = true := by
    intro number hr
    show (if number = job.number then setReported (c.results number)
      else c.results number).reported = true
    split
    · rfl
    · exact hr
  cases cont <;> simp only [isMain, Bool.not_eq_false', reduceCtorEq] at h ⊢ <;>
    exact hm _ h

theorem Open.reportable (h : Open rt options (cont, req) c)
    (hm : isMain c.results cont = !(c.results job.number).reported)
    (hf : Fits rt options c (cont, req) → Working rt options c job ∧ Ended c.log job) :
    Reportable rt options c job where
  reported hr := h.side (by simp [hm, hr])
  quiet hr item hi :=
    isMain_setReported ((h.main (by simp [hm, hr])).1 item hi)
  working hr := hf (h.main (by simp [hm, hr])).2
  blank := h.blank

/-- A verification is reported. -/
theorem report_inv (hc : Core rt options c) (hre : c.status = .active → Reportable rt options c job)
    {v : Option Value} {p : Bool} {e : Option Value}
    (hv : c.status = .active → (c.results job.number).reported = false → p = true →
      Viewed rt c.log job fun s => s = v) : Inv rt options (c.report job v p e) := by
  unfold report
  split
  case isTrue hr => exact ⟨hc, fun ha => (hre ha).reported hr⟩
  case isFalse hr =>
    have hr : (c.results job.number).reported = false := by simpa using hr
    refine Poised.handoff ⟨hc, fun ha => ?_⟩
    have hb := hre ha
    obtain ⟨⟨ht, hpr, -⟩, he⟩ := hb.working hr
    have hres : ∀ cha : WorkerResult → WorkerResult,
        (c.setResult job.number cha).results job.number = cha (c.results job.number) :=
      fun cha => if_pos rfl
    refine ⟨fun _ => ⟨fun item hi => ?_, ht, hpr, fun hp _ => ?_⟩, ?_, ?_⟩
    · have hq := hb.quiet hr item hi
      rw [← hq]
      refine isMain_congr (fun number => ?_) item.1
      show (if number = job.number then _ else _ : WorkerResult).reported =
        (if number = job.number then _ else _ : WorkerResult).reported
      split <;> rfl
    · rw [hres] at hp ⊢
      exact ⟨he, hv ha hr (Option.some.inj hp)⟩
    · exact fun hs => absurd hs (by simp [isMain])
    · intro number hn
      have hne : number ≠ job.number := by
        have hl := ht.2.2.2.2
        rintro rfl
        exact absurd hn (by simp [setResult, hl])
      show ((if number = job.number then _ else c.results number : WorkerResult).reported = _ ∧
        (if number = job.number then _ else c.results number : WorkerResult).verificationPassed = _)
      rw [if_neg hne]
      exact hb.blank number hn

theorem unknown_inv (hc : Core rt options c) (hr : c.status = .active → Reportable rt options c job)
    (m : Value) : Inv rt options (c.unknown job m) :=
  report_inv hc hr (fun _ _ h => absurd h (by simp))

/-- A callback of a verification. -/
def IsVerifying (job : Job) : Cont → Prop
  | .inspected other _ | .parked other _ | .exported other | .authorizedVerifier other _
  | .verifierReady other _ | .verifierInspected other _ | .executed other => other = job
  | _ => False

theorem IsVerifying.isMain (h : IsVerifying job cont) :
    isMain c.results cont = !(c.results job.number).reported := by
  cases cont <;> simp only [IsVerifying] at h <;> (subst h; rfl)

theorem IsVerifying.fits_iff (h : IsVerifying job cont) :
    Fits rt options c (cont, req) ↔ Working rt options c job ∧ Ended c.log job := by
  cases cont <;> simp only [IsVerifying] at h <;> (subst h; rfl)

theorem Poised.unknown (h : Poised rt options (cont, req) c) (hc : IsVerifying job cont)
    (m : Value) : Inv rt options (c.unknown job m) :=
  unknown_inv h.1 (fun ha => (h.2 ha).reportable hc.isMain hc.fits_iff.mp) m

/-- The next callback of a verification is waited for. -/
theorem Poised.verifying {r' : Option Value} (h : Poised rt options (cont, req) c)
    (hc : IsVerifying job cont) (o : Cont) (ho : IsVerifying job o) : Poised rt options (o, r') c :=
  h.next (ho.isMain.trans hc.isMain.symm) fun hf =>
    ho.fits_iff.mpr (hc.fits_iff.mp hf)

variable {x : Cont × Option Value}

theorem Poised.noteRequest (h : Poised rt options x c) (v : Value) :
    Poised rt options x (c.noteRequest job v) := by
  unfold Controller.noteRequest
  dsimp only
  split
  · exact h.setResult ⟨fun _ => ⟨rfl, rfl⟩, fun _ => ⟨rfl, rfl⟩⟩
  · exact h

theorem noteRequest_log (v : Value) : (c.noteRequest job v).log = c.log := by
  unfold noteRequest
  dsimp only
  split <;> rfl

variable {ar : Args} {head : Option String}

theorem onStatus_inv (h : Poised rt options (.status job, req) c)
    (hl : ⟨.status job, req, ar, head⟩ ∈ c.log) :
    Inv rt options (c.onStatus job (rt.controlReply "status" ar)) := by
  unfold onStatus
  split
  next =>
    exact unknown_inv h.1 (fun ha => (h.2 ha).reportable rfl fun hf => hf.1) _
  next v hv =>
    have hn : Poised rt options (.status job, req) (c.noteRequest job v) :=
      h.noteRequest v
    refine report_inv hn.1 (fun ha => (hn.2 ha).reportable rfl fun hf => hf.1) fun ha hr hp => ?_
    have he := ((hn.2 ha).main (by simp [isMain, hr])).2.2
    rw [noteRequest_log]
    exact ⟨_, hl, rfl, he, v, hv, hp, rfl⟩

theorem onExecuted_inv (h : Poised rt options (cont, req) c) (hc : IsVerifying job cont) :
    Inv rt options (c.onExecuted rt job) := by
  have hs : Poised rt options (.status job, some (statusRequest job)) c :=
    h.next hc.isMain.symm fun hf => ⟨hc.fits_iff.mp hf, rfl⟩
  exact hs.control fun e => h.unknown hc _

theorem onVerifierInspected_inv (h : Poised rt options (cont, req) c)
    (hc : IsVerifying job cont) (e : Value) (r : Except String Value) :
    Inv rt options (c.onVerifierInspected rt options job e r) := by
  unfold onVerifierInspected
  split
  · exact h.unknown hc _
  dsimp only
  split
  · exact h.unknown hc _
  split
  · exact h.inv
  · exact (h.verifying hc (.executed job) rfl).control fun _ => onExecuted_inv h hc

theorem onVerifierReady_inv (e : Value) (ar : Args)
    (h : Poised rt options (.verifierReady job e, req) c) :
    Inv rt options (c.onVerifierReady rt options job e ar) := by
  unfold onVerifierReady
  split
  · exact h.unknown rfl _
  · refine (h.verifying rfl (.verifierInspected job e) rfl).control fun er => ?_
    exact onVerifierInspected_inv h rfl e _

/-- A verification may still be reported while its verifier is started. -/
theorem Poised.reportable_started {e : Value}
    (h : Poised rt options (.verifierReady job e, none) c) :
    (c.response (.verifierReady job e) none true).external.2.status = .active →
      Reportable rt options (c.response (.verifierReady job e) none true).external.2 job := by
  obtain ⟨b, a, hw, heq | heq⟩ :=
    external_eq (c := c.response (.verifierReady job e) none true)
  · intro ha
    rw [heq] at ha ⊢
    have ho : Open rt options (.verifierReady job e, none) c := h.2 ha
    have hb := ho.reportable rfl fun hf => hf
    refine ⟨fun hr => ?_, fun hr x hi => ?_, hb.working, hb.blank⟩
    · exact (ho.response true).of_waiting hw
    · rw [hw, waiting_response, mem_append, mem_singleton] at hi
      rcases hi with hi | rfl
      · exact hb.quiet hr x hi
      · show (!(if job.number = job.number then setReported _ else _ : WorkerResult).reported) = _
        rw [if_pos rfl]
        rfl
  · intro ha
    rw [heq] at ha
    exact (not_active_of_dispose ha).elim

theorem onAuthorizedVerifier_inv (e r : Value)
    (h : Poised rt options (.authorizedVerifier job e, req) c) :
    Inv rt options (c.onAuthorizedVerifier rt job e r) := by
  unfold onAuthorizedVerifier
  split
  · exact h.inv
  split
  · exact h.unknown rfl _
  · have hr : Poised rt options (.verifierReady job e, none) c :=
      h.verifying rfl _ rfl
    have hc := (hr.response true).external
    dsimp only
    split
    · exact hc
    · exact unknown_inv hc.1 hr.reportable_started _

theorem onExported_inv (h : Poised rt options (cont, req) c) (hc : IsVerifying job cont)
    (r : Except String Value) : Inv rt options (c.onExported rt job r) := by
  unfold onExported
  split
  · exact h.unknown hc _
  next e =>
    exact (h.verifying hc (.authorizedVerifier job e) rfl).authorize

theorem onParked_inv (h : Poised rt options (cont, req) c) (hc : IsVerifying job cont)
    (inputDigest : Option Value) (r : Except String Value) :
    Inv rt options (c.onParked rt options job inputDigest r) := by
  unfold onParked
  split
  · exact h.unknown hc _
  · exact (h.verifying hc (.exported job) rfl).control fun _ =>
      onExported_inv h hc _

theorem onInspected_inv (h : Poised rt options (cont, req) c) (hc : IsVerifying job cont)
    (inputDigest : Option Value) (r : Except String Value) :
    Inv rt options (c.onInspected rt options job inputDigest r) := by
  unfold onInspected
  split
  · exact h.unknown hc _
  split
  · exact h.unknown hc _
  · exact (h.verifying hc (.parked job inputDigest) rfl).control fun _ =>
      onParked_inv h hc inputDigest _

theorem verifyWorker_inv (inputDigest : Option Value)
    (h : Poised rt options (.verifying job inputDigest, req) c) :
    Inv rt options (c.verifyWorker rt options job inputDigest) := by
  unfold verifyWorker
  split
  next hr =>
    refine Poised.handoff (h.next rfl fun ⟨⟨ht, hpr, hu⟩, _⟩ =>
      ⟨ht, hpr, fun hp => ?_⟩)
    exact absurd hp (by simp [hu.2])
  next hr =>
    have hs : Poised rt options (.verifying job inputDigest, req)
        (c.setResult job.number fun result =>
          { result with verifierSessionId := some job.verifierSessionId }) :=
      h.setResult ⟨fun _ => ⟨rfl, rfl⟩, fun _ => ⟨rfl, rfl⟩⟩
    have ho : ∀ r', Poised rt options (.inspected job inputDigest, r')
        (c.setResult job.number fun result =>
          { result with verifierSessionId := some job.verifierSessionId }) := fun r' => by
      refine ⟨hs.1, fun ha => ?_⟩
      obtain ⟨hq, hw, he⟩ := (hs.2 ha).main rfl
      have hn : Value.isTruthy (((c.setResult job.number fun result =>
          { result with verifierSessionId := some job.verifierSessionId }).results
            job.number).error) = false := by
        simpa [Controller.setResult] using hr
      exact
        { main := fun _ => ⟨hq, hw, he hn⟩
          side := fun _ => (hs.2 ha).tokens
          blank := (hs.2 ha).blank }
    exact (ho none).control fun e => onInspected_inv (ho none) rfl inputDigest _

/-! ### The worker -/

variable {ind : Option Value}

theorem onCompleted_inv (h : Poised rt options (.completed job ind, req) c)
    (hl : ⟨.completed job ind, req, ar, head⟩ ∈ c.log) :
    Inv rt options (c.onCompleted rt options job ind ar.second) := by
  obtain ⟨w, p, hc⟩ := cancelHoldPoll_eq (c := c)
  have hk : KeepsReport fun result => { result with error := ar.second } :=
    fun _ => ⟨rfl, rfl⟩
  refine Poised.providerStatus fun r' => ?_
  rw [hc]
  have hun := h.unseen c.runStatus c.envelopeDigest w p c.answers
  refine ⟨h.1, fun ha => ?_⟩
  obtain ⟨hq, ht, hp, hu⟩ := (hun.2 ha).main rfl
  exact
    { main := fun _ => ⟨hq.setResult hk, ⟨ht, hp, hu.setResult hk⟩,
        fun hn => ⟨_, hl, ind, rfl, by simpa [Controller.setResult] using hn⟩⟩
      side := fun hs => absurd hs (by simp [isMain])
      blank := (hun.2 ha).blank.setResult hk }

theorem Inv.watch (h : Inv rt options c) : Inv rt options c.watchProviderHold :=
  h.unseen _ _ _ _ _

theorem prompt_inv (h : Inv rt options c) (co : Nat) : Inv rt options (c.prompt job co) := by
  have ho : Inv rt options (c.offer co) :=
    ⟨h.1, fun ha => (h.2 ha).of_waiting (waiting_offer co)⟩
  unfold prompt
  dsimp only
  split
  · refine Inv.watch (ho.external.setResult ?_)
    exact ⟨fun _ => ⟨rfl, rfl⟩, fun _ => ⟨rfl, rfl⟩⟩
  · exact ho.external.call _ _

theorem onReady_inv (h : Inv rt options c) (co : Nat) (ar : Args) :
    Inv rt options (c.onReady job co ar) := by
  unfold onReady
  split
  · exact h.call _ _
  · have hs : Inv rt options
        (c.setResult job.number fun result => { result with session := ar.first }) :=
      h.setResult ⟨fun _ => ⟨rfl, rfl⟩, fun _ => ⟨rfl, rfl⟩⟩
    dsimp only
    split
    · exact prompt_inv hs co
    · have hw : Poised rt options (.attached job co, none) _ := hs.poised rfl
      have ha := (hw.response true).external
      split
      · exact ha
      · exact ha.call _ _

theorem onAttached_inv (h : Inv rt options c) (co : Nat) (ar : Args) :
    Inv rt options (c.onAttached job co ar) := by
  unfold onAttached
  split
  · exact failWith_inv h.1 _ _
  · exact prompt_inv h co

theorem onAuthorizedWorker_inv {b : String}
    (h : Poised rt options (.authorizedWorker job b ind, req) c) (r : Value) :
    Inv rt options (c.onAuthorizedWorker rt job b ind r) := by
  unfold onAuthorizedWorker
  split
  · exact fail_inv h.1 _
  · have ho : Poised rt options (.completed job ind, none) c :=
      h.next rfl fun hf => hf
    have hr : Poised rt options (.ready job c.next, none)
        (c.response (.completed job ind) none false) :=
      (ho.response false).poised rfl
    have hc := (hr.response true).external
    dsimp only
    split
    · exact hc
    · exact hc.call _ _

theorem onStaged_inv {b : String} (h : Poised rt options (cont, req) c)
    (hm : isMain c.results cont = true)
    (hf : Fits rt options c (cont, req) → Working rt options c job)
    (r : Except String Value) : Inv rt options (c.onStaged rt job b r) := by
  unfold onStaged
  split
  · exact fail_inv h.1 _
  next s =>
    have hw : ∀ r', Poised rt options (.authorizedWorker job b (s.field "input_digest"), r') c :=
      fun _ => h.next hm.symm hf
    exact (hw _).authorize

theorem onPrepared_inv {n : Nat} {id : String} (h : Poised rt options (.prepared n id, req) c)
    (hl : ⟨.prepared n id, req, ar, c.head⟩ ∈ c.log) :
    Inv rt options (c.onPrepared rt options n id ar) := by
  unfold onPrepared
  split
  · exact failWith_inv h.1 _ _
  · exact failWith_inv h.1 _ _
  next prepared _ hp =>
    split
    · exact fail_inv h.1 _
    next b hc =>
      have hw : Fits rt options c (.prepared n id, req) → Working rt options c ⟨n, id, prepared⟩ :=
        fun ⟨ha, hu⟩ =>
          ⟨ha, ⟨_, hl, rfl, hp, b, hc⟩, hu⟩
      have hs : ∀ r', Poised rt options
          (.staged ⟨n, id, prepared⟩ b, r') c := fun _ => h.next rfl hw
      exact (hs _).control fun _ => onStaged_inv h rfl hw _

/-! ### Settling Beads -/

/-- The place of the next Bead after those that are settled. -/
theorem At.next {n : Nat} {id : String} (h : At options c n id) :
    options.beadIds[c.summary.accepted.length + c.failedIds.length]? = some id := by
  obtain ⟨-, -, hi, hc, -⟩ := h
  have hp : c.summary.accepted.length + c.failedIds.length = n - 1 := by
    rw [count] at hc
    omega
  rwa [hp]

/-- An active controller has reported nothing. -/
theorem Core.unreported (h : Core rt options c) (ha : c.status = .active) :
    c.completion = none ∧ c.reports = [] := by
  have ho := h.once
  rw [h.waiting ha] at ho
  cases hc : c.completion with
  | none =>
    refine ⟨rfl, eq_nil_of_length_eq_zero ?_⟩
    simp only [Bool.toNat_true] at ho
    omega
  | some completion =>
    rw [hc] at ho
    simp only [Bool.toNat_true, Option.toList_some, length_singleton] at ho
    omega

/-- A Bead is accepted. -/
theorem accept_core (h : Core rt options c) (ha : c.status = .active)
    (hat : At options c job.number job.id) (hacc : Accepts rt options c.log job LetThrough)
    (co : List (String × String)) : Core rt options (c.accept job co) := by
  obtain ⟨hc, hr⟩ := Core.unreported h ha
  refine
    { begun := h.begun
      settled := h.settled.accept hat.next
      warranted := fun id hi => ?_
      order := h.order
      ahead := ?_
      once := h.once
      waiting := h.waiting
      told := fun e ht => ?_
      reported := fun r he => ?_ }
  · rcases mem_append.mp hi with hi | hi
    · exact h.warranted id hi
    · exact ⟨job, (mem_singleton.mp hi).symm, hacc⟩
  · show c.started.length ≤ (c.summary.accepted ++ [job.id]).length + c.failedIds.length + 1
    have hh := h.ahead
    rw [length_append]
    omega
  · exact absurd ht (by simp [accept, hc])
  · exact absurd he (by simp [accept, hr])

/-- What follows when a Bead is settled: the workflow moves on. -/
theorem Poised.settled {other : Cont × Option Value} {summary : Summary}
    (h : Poised rt options x c) (ha : c.status = .active)
    (hm : isMain c.results x.1 = true) (hc : Core rt options { c with summary })
    (hf : Fits rt options c x → Fits rt options { c with summary } other) :
    Poised rt options other { c with summary } := by
  obtain ⟨hq, hi⟩ := (h.2 ha).main hm
  exact ⟨hc, fun _ =>
    { main := fun _ => ⟨hq, hf hi⟩
      side := fun _ =>
        { single := (hq.tokens (h.2 ha).blank : Tokens rt options c).single
          fits := fun x hi hm => absurd hm (by
            show ¬isMain c.results x.1 = true
            simp [hq x hi])
          blank := (h.2 ha).blank }
      blank := (h.2 ha).blank }⟩

theorem reject_inv (h : Poised rt options x c) (ha : c.status = .active)
    (hm : isMain c.results x.1 = true)
    (hat : Fits rt options c x → At options c job.number job.id) :
    Inv rt options (c.reject rt options job) := by
  unfold reject
  dsimp only
  split
  · exact h.inv
  · have hp := hat ((h.2 ha).main hm).2
    obtain ⟨hc, hr⟩ := Core.unreported h.1 ha
    refine Poised.authorize (Poised.settled h ha hm ?_ fun _ => ?_)
    · have hi : ∀ failure : Failure,
          (c.summary.failed ++ [failure]).map (·.beadId) = c.failedIds ++ [failure.beadId] :=
        fun failure => map_append
      refine
        { begun := h.1.begun
          settled := ?_
          warranted := h.1.warranted
          order := h.1.order
          ahead := ?_
          once := h.1.once
          waiting := h.1.waiting
          told := fun error ht => absurd ht (by simp [hc])
          reported := fun report he => absurd he (by simp [hr]) }
      · rw [failedIds, hi]
        exact h.1.settled.fail hp.next
      · rw [failedIds, hi]
        simp only [length_append, length_singleton]
        exact h.1.ahead.trans (by omega)
    · obtain ⟨hd, -, -, hn, hl⟩ := hp
      refine ⟨hd, ?_, hl⟩
      rw [← hn, count, count, failedIds, failedIds, map_append, length_append]
      exact (Nat.add_assoc ..).symm

/-- The workflow moves on from an accepted Bead. -/
theorem Poised.accept (h : Poised rt options x c) (ha : c.status = .active)
    (hm : isMain c.results x.1 = true) (ht : At options c job.number job.id)
    (hc : Accepts rt options c.log job LetThrough) (commits : List (String × String)) :
    Poised rt options (.advanced job, none) (c.accept job commits) := by
  refine Poised.settled h ha hm (accept_core h.1 ha ht hc commits) fun _ => ?_
  obtain ⟨hi, -, -, hn, hl⟩ := ht
  refine ⟨hi, ?_, hl⟩
  simp only [count, failedIds, length_append, length_singleton] at hn ⊢
  omega

/-! ### The operator and the promotion -/

variable {pr : Option Bool}

theorem settlePromotion_inv (e : Option String) (h : Poised rt options (.promoted job pr, none) c) :
    Inv rt options (c.settlePromotion job pr e) :=
  (h.response false).call _ _

/-- A promotion stops. -/
theorem Poised.stopped (h : Poised rt options x c) (hm : isMain c.results x.1 = true)
    (hf : Fits rt options c x → Promoting rt options c job) (pr : Option Bool) (hp : pr ≠ some true)
    (e : Option String) : Inv rt options (c.settlePromotion job pr e) :=
  settlePromotion_inv e (h.next hm.symm fun h => ⟨hf h, fun h => absurd h hp⟩)

theorem Poised.promotionControl {req : Value} (h : Poised rt options (cont, some req) c)
    (hm : isMain c.results cont = true)
    (hf : Fits rt options c (cont, some req) → Promoting rt options c job) :
    Inv rt options (c.promotionControl rt job req cont) := by
  unfold Controller.promotionControl
  split
  · exact h.stopped hm hf none (by simp) _
  · have ha := (h.response true).external
    dsimp only
    split
    · exact ha
    · exact ha.call _ _

/-- What can be asked of a status is what a table holds. -/
theorem ask_getD (value : Option Value) (name : String) :
    (ask value name).getD none = under value name := by
  unfold ask
  split
  · rfl
  · rfl
  next ht he =>
    cases value with
    | none => rfl
    | some value =>
      cases value with
      | table fields => exact absurd rfl (ht fields)
      | str text => exact absurd rfl (he text)
      | bool | num | other => rfl

theorem onDecided_inv (ha : c.status = .active) (h : Poised rt options (.decided job, req) c)
    (hl : ⟨.decided job, req, ar, head⟩ ∈ c.log) :
    Inv rt options (c.onDecided rt options job ar.first ar.second) := by
  obtain ⟨hq, hat, hr, hpa⟩ := (h.2 ha).main rfl
  unfold onDecided
  dsimp only
  split
  · exact failWith_inv h.1 _ _
  split
  · exact h.inv
  split
  · exact fail_inv h.1 _
  next hk hs =>
  split
  next hc =>
    simp only [Bool.and_eq_true, Bool.not_eq_true', beq_iff_eq] at hc
    obtain ⟨⟨hu, herr⟩, hps⟩ := hc
    obtain ⟨he, hv⟩ := hpa hps herr
    have ht : Viewed rt c.log job LetThrough := by
      refine hv.imp fun status hst htr => ?_
      subst hst
      rw [htr, ask_getD] at hs
      simpa [IsCompleted] using hs
    have hd : Decided c.log job := ⟨_, hl, rfl, hu⟩
    have hp : Promoting rt options c job :=
      ⟨hat, hr, he, ht, hd⟩
    split
    next hw =>
      have hpr : Poised rt options (.previewed job (rt.selection options c.head job),
          some (previewRequest (rt.selection options c.head job))) c :=
        h.next rfl fun _ => ⟨hp, rfl, rfl⟩
      exact hpr.promotionControl rfl fun hf => hf.1
    next hw =>
      exact (h.accept ha rfl hat ⟨hat.2.2.1, hr, he, ht, hd, fun ho => absurd ho hw⟩ []).advance
  next => exact reject_inv h ha rfl fun _ => hat

theorem onPreviewed_inv {s : Value} (h : Poised rt options (.previewed job s, req) c)
    (hl : ⟨.previewed job s, req, ar, c.head⟩ ∈ c.log) :
    Inv rt options (c.onPreviewed job s (rt.promotionReply "preview" ar)) := by
  unfold onPreviewed
  split
  · exact h.stopped rfl (fun hf => hf.1) none (by simp) _
  next p hr =>
    split
    · exact h.stopped rfl (fun hf => hf.1) none (by simp) _
    next hpr =>
      have ha : Poised rt options (.approved job p, none) c := by
        refine h.next rfl fun ⟨hp, hs, he⟩ => ⟨hp, ?_⟩
        subst hs
        exact ⟨_, hl, rfl, he, rfl, hr, by simpa using hpr⟩
      exact (ha.response true).external

theorem onApproved_inv {p : Value} (h : Poised rt options (.approved job p, req) c)
    (a : Option Value) : Inv rt options (c.onApproved rt job p a) := by
  unfold onApproved
  split
  · exact h.stopped rfl (fun hf => hf.1) (some false) (by simp) _
  · have hc : Poised rt options (.committed job p, some (commitRequest p)) c :=
      h.next rfl fun hf => ⟨hf.1, hf.2, rfl⟩
    exact hc.promotionControl rfl fun hf => hf.1

theorem onCommitted_inv {p : Value} (h : Poised rt options (.committed job p, req) c)
    (hl : ⟨.committed job p, req, ar, c.head⟩ ∈ c.log) :
    Inv rt options (c.onCommitted job (rt.promotionReply "commit" ar)) := by
  unfold onCommitted
  split
  · exact h.stopped rfl (fun hf => hf.1) none (by simp) _
  next r hr =>
    split
    · exact h.stopped rfl (fun hf => hf.1) none (by simp) _
    next co hc =>
      have hk : KeepsReport fun result => { result with promotion := some co } :=
        fun _ => ⟨rfl, rfl⟩
      refine settlePromotion_inv none ⟨h.1, fun ha => ?_⟩
      obtain ⟨hq, hp, hpr, he⟩ := (h.2 ha).main rfl
      exact
        { main := fun _ => ⟨Quiet.setResult (c := { c with head := some co }) hq hk,
            hp, fun _ =>
              ⟨c.head, p, hpr, _, hl, rfl, he, rfl, r, co, hr, hc⟩⟩
          side := fun hs => absurd hs (by simp [isMain])
          blank := Blank.setResult (c := { c with head := some co }) (h.2 ha).blank hk }

theorem onPromoted_inv (ha : c.status = .active) (h : Poised rt options (.promoted job pr, req) c)
    (e : Option Value) : Inv rt options (c.onPromoted rt options job pr e) := by
  obtain ⟨hq, ⟨ht, hp, he, hv, hd⟩, hc⟩ :=
    (h.2 ha).main rfl
  cases pr with
  | none => exact stop_inv h.1 e
  | some pr =>
    cases pr with
    | false => exact reject_inv h ha rfl fun _ => ht
    | true =>
      have hacc := fun co => h.accept ha rfl ht ⟨ht.2.2.1, hp, he, hv, hd, fun _ => hc rfl⟩ co
      unfold onPromoted
      dsimp only
      split
      · exact (hacc _).inv
      split
      · exact failWith_inv (hacc _).external.1 _ _
      · exact (hacc _).external.advance

variable {ch : Failure → Failure}

theorem setFailure_failedIds (id : String) (hk : ∀ f, (ch f).beadId = f.beadId) :
    (c.setFailure id ch).failedIds = c.failedIds := by
  simp only [failedIds, setFailure, map_map]
  refine map_congr_left fun f _ => ?_
  simp only [Function.comp_apply]
  split
  · exact hk f
  · rfl

/-- What is kept of a failed Bead's comment does not change which Beads are settled. -/
theorem Poised.setFailure {requestId : String}
    (h : Poised rt options (.commented job requestId, req) c) (ha : c.status = .active)
    (hk : ∀ failure, (ch failure).beadId = failure.beadId) :
    Poised rt options (.commented job requestId, req) (c.setFailure job.id ch) := by
  have hi := setFailure_failedIds (c := c) job.id hk
  refine Poised.settled h ha rfl ?_ fun hf => ⟨hf.1, ?_, hf.2.2⟩
  · show Books rt options c.status c.summary.accepted (c.setFailure job.id ch).failedIds
      c.callback c.completion c.reports c.started c.log
    rw [hi]
    exact h.1
  · show c.summary.accepted.length + (c.setFailure job.id ch).failedIds.length = job.number
    rw [hi]
    exact hf.2.1

theorem onCommented_inv {ri : String} (ha : c.status = .active)
    (h : Poised rt options (.commented job ri, req) c) (r : Value) :
    Inv rt options (c.onCommented job ri r) := by
  have hn : ∀ op : Option String, Poised rt options (.commented job ri, req)
      (if op.isSome then c.setFailure job.id fun failure =>
        { failure with commentOperationId := op } else c) := by
    intro op
    split
    · exact h.setFailure ha fun _ => rfl
    · exact h
  have hs : ∀ op : Option String, (if op.isSome then
      c.setFailure job.id fun failure => { failure with commentOperationId := op }
      else c).status = .active := by
    intro op
    split <;> exact ha
  unfold onCommented
  dsimp only
  split
  · exact fail_inv (hn _).1 _
  · have ho : ∀ failure : Failure,
        ({ failure with confirmed := true } : Failure).beadId = failure.beadId := fun _ => rfl
    have hc := (hn (Value.text? (r.field "operation_id"))).setFailure (hs _)
      ho
    have hd : Poised rt options (.advanced job, none) _ :=
      hc.next rfl fun hf => hf
    exact hd.advance

/-! ### The Run -/

/-- The next Bead is started, or all Beads are settled. -/
theorem nextBead_inv (h : Core rt options c) (hd : 1 ≤ c.index)
    (ht : c.count + 1 = c.index) (hs : c.started.length + 1 = c.index)
    (hq : c.status = .active → Quiet c ∧ Blank c) : Inv rt options (c.nextBead options) := by
  unfold nextBead
  split
  next hn =>
    refine finish_inv h true none fun _ => ?_
    have hl := h.settled.length_le
    have hend := List.getElem?_eq_none_iff.mp hn
    have he : c.summary.accepted.length + c.failedIds.length + 1 = c.index := ht
    exact Nat.le_antisymm hl (by omega)
  next id hi =>
    have hpl : c.index - 1 = c.started.length := by omega
    have hc : Core rt options { c with started := c.started ++ [id] } :=
      { h with
        order := by
          rw [length_append, length_singleton, take_add_one, ← h.order, ← hpl, hi]
          rfl
        ahead := by
          have he : c.summary.accepted.length + c.failedIds.length + 1 = c.index := ht
          show (c.started ++ [id]).length ≤ c.summary.accepted.length + c.failedIds.length + 1
          rw [length_append, length_singleton]
          omega }
    have hp : Poised rt options (.prepared c.index id, none)
        { c with started := c.started ++ [id] } := by
      refine ⟨hc, fun hac => ?_⟩
      obtain ⟨hq, hb⟩ := hq hac
      have hl : (c.started ++ [id]).length = c.index := by
        rw [length_append, length_singleton]
        exact hs
      exact
        { main := fun _ => ⟨hq, ⟨rfl, hd, hi, ht, hl⟩, hb c.index (by omega)⟩
          side := fun hsi => absurd hsi (by simp [isMain])
          blank := fun n hu => hb n (by
            have hu : (c.started ++ [id]).length < n := hu
            omega) }
    have ha := (hp.response true).external
    dsimp only
    split
    · exact ha
    · exact ha.call _ _

/-- Finishing and calling something else change nothing of how far the sequence has come. -/
structure Kept (c c' : Controller) : Prop where
  index : c'.index = c.index
  summary : c'.summary = c.summary
  started : c'.started = c.started
  runStatus : c.runStatus ≠ .active → c'.runStatus ≠ .active

theorem Kept.trans {c' c'' : Controller} (h : Kept c c') (h' : Kept c' c'') : Kept c c'' :=
  ⟨h'.index.trans h.index, h'.summary.trans h.summary, h'.started.trans h.started,
    fun hr => h'.runStatus (h.runStatus hr)⟩

theorem kept_finish (ok : Bool) (e : Option Value) : Kept c (c.finish ok e) := by
  obtain ⟨w, p, hc⟩ := cancelHoldPoll_eq (c := c)
  rw [finish, hc]
  exact ⟨rfl, rfl, rfl, fun hr => hr⟩

theorem kept_dispose : Kept c c.dispose := by
  unfold dispose
  split
  · exact ⟨rfl, rfl, rfl, fun hr => hr⟩
  · have hl : Kept c { c with status := .disposed, runStatus := .disposed } :=
      ⟨rfl, rfl, rfl, fun _ => by simp⟩
    exact hl.trans (kept_finish _ _)

theorem kept_external : Kept c c.external.2 := by
  obtain ⟨boundaries, answers, -, heq | heq⟩ := external_eq (c := c)
  · rw [heq]
    exact ⟨rfl, rfl, rfl, fun hr => hr⟩
  · rw [heq]
    have hc : Kept c { c with boundaries, answers } := ⟨rfl, rfl, rfl, fun hr => hr⟩
    exact hc.trans kept_dispose

theorem onAdmitted_inv (ha : c.status = .active) (h : Poised rt options (.admitted, req) c) :
    Inv rt options (c.onAdmitted options ar) := by
  obtain ⟨-, hi, hc, hs⟩ := (h.2 ha).main rfl
  have hk := kept_external (c := c)
  have hc' : c.external.2.count = c.count := by
    rw [count, count, failedIds, failedIds, hk.summary]
  have hi' := hk.index
  unfold onAdmitted
  split
  · exact failWith_inv h.1 _ _
  dsimp only
  split
  · exact stop_inv h.external.1 _
  · refine nextBead_inv h.external.1 (by omega) (by omega) ?_ fun ha => ?_
    · rw [hk.started, hs, hi', hi]
      rfl
    · exact ⟨((h.external.2 ha).main rfl).1, (h.external.2 ha).blank⟩

theorem onAuthorizedRun_inv (h : Poised rt options (.authorizedRun, req) c)
    (r : Value) : Inv rt options (c.onAuthorizedRun options r) := by
  unfold onAuthorizedRun
  split
  next ed _ =>
    split
    · have ha : Poised rt options (.admitted, none) c := h.next rfl fun hf => hf
      have hs := ((ha.unseen c.runStatus (some ed) c.watches c.poll
        c.answers).response true).external
      dsimp only
      split
      · exact hs
      · exact hs.call _ _
    · exact fail_inv h.1 _
  · exact fail_inv h.1 _

theorem onAdvanced_inv (ha : c.status = .active) (h : Poised rt options (.advanced job, req) c) :
    Inv rt options (if !Value.isTruthy ar.first then c.finish false ar.second
      else { c with index := c.index + 1 }.nextBead options) := by
  obtain ⟨hq, hi, hc, hs⟩ := (h.2 ha).main rfl
  split
  · exact stop_inv h.1 _
  · refine nextBead_inv h.1 (Nat.le_add_left 1 _) ?_ ?_ fun _ => ⟨hq, (h.2 ha).blank⟩
    · show c.count + 1 = c.index + 1
      rw [hc, hi]
    · show c.started.length + 1 = c.index + 1
      rw [hs, hi]

end Controller

end Louiselm.Workflow.Beads
