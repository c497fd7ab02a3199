import Louiselm.Workflow.BeadEvidence

/-!
# Beads are accepted on evidence

`lua/louiselm/workflow/beads.lua`: over any run, a Bead is accepted on evidence among the callbacks
that have acted, Beads are settled one after the other in the order of the list, and nothing is
settled once the controller or its Run is no longer active. At most one callback at a time can
carry the sequence on; which one it is says how far the current Bead has come.
-/

namespace Louiselm.Workflow.Beads
open Base Base.Lua List
open Routing.Qualification (under)

variable {rt : Runtime} {options : Options} {c : Controller}

/-! ### What is always true -/

/-- All Beads of a list are settled. -/
def Covered (ids accepted failed : List String) : Prop :=
  accepted.length + failed.length = ids.length

/-- What holds of a controller that was started, whether it is active or not. -/
structure Books (rt : Runtime) (options : Options) (status : Status)
    (accepted failed : List String) (callback : Bool) (completion : Option (Bool × Option Value))
    (reports : List Report) (started : List String) (log : List Handled) : Prop where
  begun : status ≠ .new
  settled : Settled options.beadIds accepted failed
  warranted : ∀ id ∈ accepted, ∃ job : Job, job.id = id ∧ Accepts rt options log job LetThrough
  order : started = options.beadIds.take started.length
  ahead : started.length ≤ accepted.length + failed.length + 1
  once : callback.toNat + completion.toList.length + reports.length ≤ 1
  waiting : status = .active → callback = true
  told : ∀ error, completion = some (true, error) → Covered options.beadIds accepted failed
  reported : ∀ report ∈ reports, report.summary.accepted = accepted ∧
    report.summary.failed.map (·.beadId) = failed ∧
    (report.ok = true → Covered options.beadIds accepted failed)

namespace Controller

/-- The Beads that have failed. -/
def failedIds (c : Controller) : List String := c.summary.failed.map (·.beadId)

abbrev Core (rt : Runtime) (options : Options) (c : Controller) : Prop :=
  Books rt options c.status c.summary.accepted c.failedIds c.callback c.completion c.reports
    c.started c.log

/-- How many Beads are settled. -/
def count (c : Controller) : Nat := c.summary.accepted.length + c.failedIds.length

/-! ### The callback that carries the sequence on -/

/-- The callbacks that are waited for, with their requests. -/
def waiting (c : Controller) : List (Cont × Option Value) :=
  c.boundaries.map fun boundary => (boundary.cont, boundary.request)

/-- Whether a callback can carry the sequence on. Those of a verification no longer can when it has
been reported. -/
def isMain (results : Nat → WorkerResult) : Cont → Bool
  | .ready .. | .attached .. | .polled _ => false
  | .inspected job _ | .parked job _ | .exported job | .authorizedVerifier job _
  | .verifierReady job _ | .verifierInspected job _ | .executed job | .status job =>
    !(results job.number).reported
  | _ => true

/-- A Bead is being worked on. -/
def At (options : Options) (c : Controller) (number : Nat) (id : String) : Prop :=
  c.index = number ∧ 1 ≤ number ∧ options.beadIds[number - 1]? = some id ∧
    c.count + 1 = number ∧ c.started.length = number

/-- No verification of a Bead was reported. -/
def Unreported (c : Controller) (number : Nat) : Prop :=
  (c.results number).reported = false ∧ (c.results number).verificationPassed = none

/-- A prepared Bead whose verification was not reported is being worked on. -/
def Working (rt : Runtime) (options : Options) (c : Controller) (job : Job) : Prop :=
  At options c job.number job.id ∧ Prepared rt options c.log job ∧ Unreported c job.number

/-- A Bead's worker has ended without an error, unless an error is kept of it. -/
def EndedUnless (c : Controller) (job : Job) : Prop :=
  Value.isTruthy (c.results job.number).error = false → Ended c.log job

/-- A Bead is handed to the operator. -/
def Deciding (rt : Runtime) (options : Options) (c : Controller) (job : Job) : Prop :=
  At options c job.number job.id ∧ Prepared rt options c.log job ∧
    ((c.results job.number).verificationPassed = some true →
      Value.isTruthy (c.results job.number).error = false →
        Ended c.log job ∧ Viewed rt c.log job fun status =>
          status = (c.results job.number).verification)

/-- A Bead that the operator accepts is being promoted. -/
def Promoting (rt : Runtime) (options : Options) (c : Controller) (job : Job) : Prop :=
  At options c job.number job.id ∧ Prepared rt options c.log job ∧ Ended c.log job ∧
    Viewed rt c.log job LetThrough ∧ Decided c.log job

/-- How far the sequence has come when a callback can carry it on. -/
def Fits (rt : Runtime) (options : Options) (c : Controller) : Cont × Option Value → Prop
  | (.authorizedRun, _) | (.admitted, _) => c.index = 1 ∧ c.count = 0 ∧ c.started = []
  | (.prepared number id, _) => At options c number id ∧ Unreported c number
  | (.staged job _, _) | (.authorizedWorker job _ _, _) | (.completed job _, _) =>
    Working rt options c job
  | (.endedStatus job _, _) | (.verifying job _, _) =>
    Working rt options c job ∧ EndedUnless c job
  | (.inspected job _, _) | (.parked job _, _) | (.exported job, _)
  | (.authorizedVerifier job _, _) | (.verifierReady job _, _) | (.verifierInspected job _, _)
  | (.executed job, _) => Working rt options c job ∧ Ended c.log job
  | (.status job, request) =>
    (Working rt options c job ∧ Ended c.log job) ∧ request = some (statusRequest job)
  | (.decided job, _) => Deciding rt options c job
  | (.previewed job selection, request) =>
    Promoting rt options c job ∧ selection = rt.selection options c.head job ∧
      request = some (previewRequest selection)
  | (.approved job preview, _) =>
    Promoting rt options c job ∧ PreviewedAt rt options c.log job c.head preview
  | (.committed job preview, request) =>
    Promoting rt options c job ∧ PreviewedAt rt options c.log job c.head preview ∧
      request = some (commitRequest preview)
  | (.promoted job promoted, _) =>
    Promoting rt options c job ∧ (promoted = some true → Committed rt options c.log job)
  | (.commented job _, _) | (.advanced job, _) =>
    c.index = job.number ∧ c.count = job.number ∧ c.started.length = job.number
  | (.ready .., _) | (.attached .., _) | (.polled _, _) => True

/-- The Beads that were not started have no verification reported. -/
def Blank (c : Controller) : Prop := ∀ number, c.started.length < number → Unreported c number

/-- No callback that is waited for can carry the sequence on. -/
def Quiet (c : Controller) : Prop := ∀ item ∈ c.waiting, isMain c.results item.1 = false

/-- At most one callback that is waited for can carry the sequence on, and it fits. -/
structure Tokens (rt : Runtime) (options : Options) (c : Controller) : Prop where
  single : (c.waiting.filter fun item => isMain c.results item.1).length ≤ 1
  fits : ∀ item ∈ c.waiting, isMain c.results item.1 = true → Fits rt options c item
  blank : Blank c

/-- A callback may be waited for: it fits where it can carry the sequence on, and then no other one
can. -/
structure Open (rt : Runtime) (options : Options) (item : Cont × Option Value)
    (c : Controller) : Prop where
  main : isMain c.results item.1 = true → Quiet c ∧ Fits rt options c item
  side : isMain c.results item.1 = false → Tokens rt options c
  blank : Blank c

/-- What holds of a controller between its events. -/
def Inv (rt : Runtime) (options : Options) (c : Controller) : Prop :=
  Core rt options c ∧ (c.status = .active → Tokens rt options c)

/-- What holds of a controller that may wait for a callback. -/
def Poised (rt : Runtime) (options : Options) (item : Cont × Option Value)
    (c : Controller) : Prop :=
  Core rt options c ∧ (c.status = .active → Open rt options item c)

/-! ### Waiting -/

theorem Quiet.tokens (h : Quiet c) (hb : Blank c) : Tokens rt options c where
  single := by
    rw [filter_eq_nil_iff.mpr fun item hi => by simp [h item hi]]
    exact Nat.zero_le 1
  fits item hi hm := absurd hm (by simp [h item hi])
  blank := hb

variable {it : Cont × Option Value}

theorem Open.tokens (h : Open rt options it c) : Tokens rt options c := by
  by_cases hm : isMain c.results it.1 = true
  · exact (h.main hm).1.tokens h.blank
  · exact h.side (by simpa using hm)

theorem Poised.inv (h : Poised rt options it c) : Inv rt options c :=
  ⟨h.1, fun ha => (h.2 ha).tokens⟩

@[simp] theorem waiting_response (cont : Cont) (req : Option Value) (o : Bool) :
    (c.response cont req o).waiting = c.waiting ++ [(cont, req)] := by
  simp [waiting, response]

@[simp] theorem waiting_call (id : Nat) (a : Args) : (c.call id a).waiting = c.waiting := by
  simp only [waiting, call, map_map]
  refine map_congr_left fun b _ => ?_
  simp only [Function.comp_apply]
  split <;> rfl

@[simp] theorem waiting_offer (id : Nat) : (c.offer id).waiting = c.waiting := by
  simp only [waiting, offer, map_map]
  refine map_congr_left fun b _ => ?_
  simp only [Function.comp_apply]
  split <;> rfl

theorem Open.response (h : Open rt options it c) (offered : Bool) :
    Tokens rt options (c.response it.1 it.2 offered) := by
  by_cases hm : isMain c.results it.1 = true
  · obtain ⟨hq, hf⟩ := h.main hm
    have hr : c.waiting.filter (fun it => isMain c.results it.1) = [] :=
      filter_eq_nil_iff.mpr fun it hi => by simp [hq it hi]
    refine ⟨?_, fun o ho hot => ?_, h.blank⟩
    · rw [waiting_response, filter_append]
      show (List.filter (fun it => isMain c.results it.1) c.waiting ++ _).length ≤ 1
      rw [hr]
      exact length_filter_le _ _
    · rw [waiting_response, mem_append, mem_singleton] at ho
      rcases ho with ho | rfl
      · exact absurd hot (by
          show ¬isMain c.results o.1 = true
          simp [hq o ho])
      · exact hf
  · have ht := h.side (by simpa using hm)
    refine ⟨?_, fun o ho hot => ?_, h.blank⟩
    · rw [waiting_response, filter_append]
      show (List.filter (fun it => isMain c.results it.1) c.waiting ++ List.filter
        (fun it => isMain c.results it.1) [(it.1, it.2)]).length ≤ 1
      rw [filter_cons_of_neg (by simpa using hm), filter_nil, append_nil]
      exact ht.single
    · rw [waiting_response, mem_append, mem_singleton] at ho
      rcases ho with ho | rfl
      · exact ht.fits o ho hot
      · exact absurd hot hm

theorem Poised.response (h : Poised rt options it c) (o : Bool) :
    Inv rt options (c.response it.1 it.2 o) :=
  ⟨h.1, fun ha => (h.2 ha).response o⟩

variable {boundaries : List Boundary}

theorem Tokens.of_waiting {next : Nat} {answers : List Answer} (h : Tokens rt options c)
    (hw : { c with boundaries, next, answers }.waiting = c.waiting) :
    Tokens rt options { c with boundaries, next, answers } where
  single := by
    rw [hw]
    exact h.single
  fits it hi hm := by
    rw [hw] at hi
    exact h.fits it hi hm
  blank := h.blank

theorem Open.of_waiting {next : Nat} {answers : List Answer} (h : Open rt options it c)
    (hw : { c with boundaries, next, answers }.waiting = c.waiting) :
    Open rt options it { c with boundaries, next, answers } where
  main hm := ⟨fun other ho => (h.main hm).1 other (hw ▸ ho), (h.main hm).2⟩
  side hs := (h.side hs).of_waiting hw
  blank := h.blank

theorem Inv.call (h : Inv rt options c) (id : Nat) (args : Args) :
    Inv rt options (c.call id args) :=
  ⟨h.1, fun ha => (h.2 ha).of_waiting (waiting_call id args)⟩

/-! ### Finishing and calling something else -/

theorem cancelHoldPoll_eq : ∃ watches poll, c.cancelHoldPoll = { c with watches, poll } := by
  unfold cancelHoldPoll
  cases c.poll with
  | none => exact ⟨c.watches, c.poll, rfl⟩
  | some watch => exact ⟨_, _, rfl⟩

/-- A controller that finishes is no longer active, and reports what is settled. -/
theorem finish_inv (h : Core rt options c) (ok : Bool) (error : Option Value)
    (hk : ok = true → Covered options.beadIds c.summary.accepted c.failedIds) :
    Inv rt options (c.finish ok error) := by
  obtain ⟨watches, poll, hc⟩ := cancelHoldPoll_eq (c := c)
  have ha : (c.finish ok error).status ≠ .active := by
    simp only [finish, hc]
    split
    case isTrue hs => rcases hs with hs | hs <;> simp [hs]
    case isFalse => split <;> simp
  refine ⟨?_, fun h => absurd h ha⟩
  have ho := h.once
  constructor
  case begun =>
    simp only [finish, hc]
    split
    · exact h.begun
    · split <;> simp
  case waiting => exact fun h => absurd h ha
  case once =>
    simp only [finish, hc]
    cases hca : c.callback with
    | true =>
      rw [hca] at ho
      simp only [Bool.toNat_true, if_true, Option.toList_some, length_singleton,
        Bool.toNat_false] at ho ⊢
      omega
    | false =>
      rw [hca] at ho
      simpa using ho
  case told =>
    intro told ht
    simp only [finish, hc] at ht ⊢
    split at ht
    · obtain ⟨rfl, -⟩ := Prod.mk.inj (Option.some.inj ht)
      exact hk rfl
    · exact h.told told ht
  all_goals simp only [finish, hc]
  · exact h.settled
  · exact h.warranted
  · exact h.order
  · exact h.ahead
  · exact h.reported

theorem fail_inv (h : Core rt options c) (m : String) : Inv rt options (c.fail m) :=
  finish_inv h false _ (by simp)

theorem failWith_inv (h : Core rt options c) (e : Option Value) (m : String) :
    Inv rt options (c.failWith e m) :=
  finish_inv h false _ (by simp)

theorem stop_inv (h : Core rt options c) (e : Option Value) : Inv rt options (c.finish false e) :=
  finish_inv h false _ (by simp)

theorem not_active_finish (ok : Bool) (error : Option Value) :
    (c.finish ok error).status ≠ .active := by
  obtain ⟨watches, poll, hc⟩ := cancelHoldPoll_eq (c := c)
  simp only [finish, hc]
  split
  case isTrue hs => rcases hs with hs | hs <;> simp [hs]
  case isFalse => split <;> simp

/-- A controller that is no longer active with the same books. -/
theorem Core.leave (h : Core rt options c) (status : Status) (runStatus : RunStatus)
    (hn : status ≠ .new) (ha : status ≠ .active) : Core rt options { c with status, runStatus } :=
  { h with begun := hn, waiting := fun h => absurd h ha }

theorem Core.held (h : Core rt options c) (hold : Option Value) : Core rt options
      { c with summary := { c.summary with providerHold := hold }, status := .held } :=
  { h with begun := by simp, waiting := by simp }

theorem dispose_core (h : Core rt options c) : Core rt options c.dispose := by
  unfold dispose
  split
  · exact h
  · exact (fail_inv (Core.leave h .disposed .disposed (by simp) (by simp)) _).1

theorem callBack_eq (it : Nat × Args) : ∃ boundaries,
    c.callBack it = { c with boundaries } ∧ (c.callBack it).waiting = c.waiting := by
  unfold callBack
  split
  · exact ⟨_, rfl, waiting_call _ _⟩
  · exact ⟨_, rfl, rfl⟩

theorem callBacks_eq (ca : List (Nat × Args)) : ∃ boundaries,
    ca.foldl (fun c it => callBack it c) c = { c with boundaries } ∧
      (ca.foldl (fun c it => callBack it c) c).waiting = c.waiting := by
  induction ca generalizing c with
  | nil => exact ⟨_, rfl, rfl⟩
  | cons it ca ih =>
    obtain ⟨boundaries, hc, hw⟩ := callBack_eq (c := c) it
    obtain ⟨b', hr, hw'⟩ := ih (c := c.callBack it)
    rw [foldl_cons]
    exact ⟨b', by rw [hr, hc], hw'.trans hw⟩

/-- Calling something else calls callbacks, and may end with the controller disposed of. -/
theorem external_eq : ∃ boundaries answers, { c with boundaries, answers }.waiting = c.waiting ∧
      (c.external.2 = { c with boundaries, answers } ∨
        c.external.2 = { c with boundaries, answers }.dispose) := by
  unfold external
  split
  next => exact ⟨_, _, rfl, .inl rfl⟩
  next answer answers _ =>
    obtain ⟨boundaries, hc, hw⟩ :=
      callBacks_eq (c := { c with answers }) answer.calls
    refine ⟨boundaries, answers, ?_, ?_⟩
    · rw [hc] at hw
      exact hw
    · rw [hc]
      split
      · exact .inr rfl
      · exact .inl rfl

theorem dispose_inv (h : Inv rt options c) : Inv rt options c.dispose := by
  refine ⟨dispose_core h.1, fun ha => ?_⟩
  by_cases hd : c.status = .disposed
  · rw [dispose, if_pos hd] at ha
    exact absurd ha (by simp [hd])
  · rw [dispose, if_neg hd] at ha
    exact absurd ha (not_active_finish _ _)

theorem not_active_of_dispose (h : c.dispose.status = .active) : False := by
  by_cases hd : c.status = .disposed
  · rw [dispose, if_pos hd] at h
    exact absurd h (by simp [hd])
  · rw [dispose, if_neg hd] at h
    exact absurd h (not_active_finish _ _)

theorem Inv.external (h : Inv rt options c) : Inv rt options c.external.2 := by
  obtain ⟨boundaries, answers, hw, heq | heq⟩ := external_eq (c := c)
  · rw [heq]
    exact ⟨h.1, fun ha => (h.2 ha).of_waiting hw⟩
  · rw [heq]
    exact dispose_inv ⟨h.1, fun ha => (h.2 ha).of_waiting hw⟩

theorem external_core (h : Core rt options c) : Core rt options c.external.2 := by
  obtain ⟨boundaries, answers, -, heq | heq⟩ := external_eq (c := c)
  · rw [heq]
    exact h
  · rw [heq]
    exact dispose_core h

theorem Poised.external (h : Poised rt options it c) : Poised rt options it c.external.2 := by
  obtain ⟨boundaries, answers, hw, heq | heq⟩ := external_eq (c := c)
  · rw [heq]
    exact ⟨h.1, fun ha => (h.2 ha).of_waiting hw⟩
  · rw [heq]
    exact ⟨dispose_core h.1, fun ha => (not_active_of_dispose ha).elim⟩

/-! ### Asking the broker -/

variable {co : Cont}

theorem Poised.authorize {req : Value} (h : Poised rt options (co, some req) c) :
    Inv rt options (c.authorize rt req co) := by
  unfold Controller.authorize
  split
  · exact fail_inv h.1 _
  · have ha := (h.response true).external
    dsimp only
    split
    · exact ha
    · exact fail_inv ha.1 _

theorem holdRun_inv (h : Core rt options c) (hold : Option Value) :
    Inv rt options (c.holdRun options hold) := by
  unfold Controller.holdRun
  split
  · exact fail_inv h _
  split
  · exact fail_inv h _
  · have hp : Core rt options
        (if c.runStatus = .parked then c else ({ c with runStatus := .parked }.external).2) := by
      split
      · exact h
      · exact external_core (c := { c with runStatus := .parked }) h
    exact fail_inv (Core.held hp hold) _

/-- The reply to a request of the broker is received, or it finishes the controller. -/
theorem Poised.authorized (h : Poised rt options it c) (k : String) (a : Args)
    {r : Value → Controller → Controller} (hr : ∀ rc, Inv rt options (r rc c)) :
    Inv rt options (c.authorized rt options k a r) := by
  have hf := fun m => fail_inv h.1 m
  unfold Controller.authorized
  dsimp only
  split
  · exact h.inv
  split
  · exact hf _
  split
  next =>
    split
    · exact holdRun_inv h.1 _
    split
    · split
      · exact hf _
      split
      · exact holdRun_inv h.1 _
      · exact hr _
    split
    · exact hf _
    split
    · exact hr _
    · exact hf _
  next => exact hf _

theorem Poised.control {req : Option Value} (h : Poised rt options (co, req) c)
    {r : Except String Value → Controller → Controller}
    (hr : ∀ e, Inv rt options (r (.error e) c)) : Inv rt options (c.control rt req co r) := by
  unfold Controller.control
  split
  · exact hr _
  · have ha := (h.response true).external
    dsimp only
    split
    · exact ha
    · exact ha.call _ _

theorem Poised.advance (h : Poised rt options (co, none) c) : Inv rt options (c.advance co) := by
  have ha := (h.response true).external
  unfold Controller.advance
  dsimp only
  split
  · exact ha
  · exact stop_inv ha.1 _

theorem Poised.handoff {job : Job} (h : Poised rt options (.decided job, none) c) :
    Inv rt options (c.handoff job) :=
  (h.response true).external

theorem Poised.providerStatus (h : ∀ req, Poised rt options (co, some req) c) :
    Inv rt options (c.providerStatus rt options co) :=
  (h _).authorize

/-- A callback is waited for in place of another one that could carry the sequence on as well. -/
theorem Poised.next {o : Cont × Option Value} (h : Poised rt options it c)
    (hs : isMain c.results o.1 = isMain c.results it.1)
    (hf : Fits rt options c it → Fits rt options c o) : Poised rt options o c :=
  ⟨h.1, fun ha =>
    { main := fun hm =>
        ⟨((h.2 ha).main (hs ▸ hm)).1, hf ((h.2 ha).main (hs ▸ hm)).2⟩
      side := fun hi => (h.2 ha).side (hs ▸ hi)
      blank := (h.2 ha).blank }⟩

/-- A callback that cannot carry the sequence on may always be waited for. -/
theorem Inv.poised (h : Inv rt options c) (hs : isMain c.results it.1 = false) :
    Poised rt options it c :=
  ⟨h.1, fun ha =>
    { main := fun hm => absurd hm (by simp [hs])
      side := fun _ => h.2 ha
      blank := (h.2 ha).blank }⟩

/-- Nothing depends on the Run's status, the envelope's digest and the watches. -/
theorem Inv.unseen (h : Inv rt options c) (runStatus : RunStatus) (envelopeDigest : Option String)
    (watches : List Watch) (poll : Option Nat) (answers : List Answer) :
    Inv rt options { c with runStatus, envelopeDigest, watches, poll, answers } :=
  ⟨h.1, fun ha =>
    { single := (h.2 ha).single
      fits := (h.2 ha).fits
      blank := (h.2 ha).blank }⟩

theorem Poised.unseen (h : Poised rt options it c) (runStatus : RunStatus)
    (envelopeDigest : Option String) (watches : List Watch) (poll : Option Nat)
    (answers : List Answer) :
    Poised rt options it { c with runStatus, envelopeDigest, watches, poll, answers } :=
  ⟨h.1, fun ha =>
    { main := (h.2 ha).main
      side := fun hs =>
        { single := ((h.2 ha).side hs).single
          fits := ((h.2 ha).side hs).fits
          blank := (h.2 ha).blank }
      blank := (h.2 ha).blank }⟩

/-! ### A callback acts -/

theorem Fits.later (h : Fits rt options c it) (entry : Handled) :
    Fits rt options { c with log := entry :: c.log } it := by
  have hw : ∀ {job}, Working rt options c job →
      Working rt options { c with log := entry :: c.log } job :=
    fun h => ⟨h.1, h.2.1.later entry, h.2.2⟩
  have hp : ∀ {job}, Promoting rt options c job →
      Promoting rt options { c with log := entry :: c.log } job :=
    fun h => ⟨h.1, h.2.1.later entry, h.2.2.1.later entry, h.2.2.2.1.later entry,
      h.2.2.2.2.later entry⟩
  obtain ⟨co, request⟩ := it
  cases co with
  | authorizedRun | admitted | prepared | commented | advanced => exact h
  | ready | attached | polled => trivial
  | staged | authorizedWorker | completed => exact hw h
  | endedStatus | verifying => exact ⟨hw h.1, fun he => (h.2 he).later entry⟩
  | inspected | parked | exported | authorizedVerifier | verifierReady | verifierInspected
  | executed => exact ⟨hw h.1, h.2.later entry⟩
  | status => exact ⟨⟨hw h.1.1, h.1.2.later entry⟩, h.2⟩
  | decided =>
    exact ⟨h.1, h.2.1.later entry, fun ha he =>
      ⟨(h.2.2 ha he).1.later entry, (h.2.2 ha he).2.later entry⟩⟩
  | previewed => exact ⟨hp h.1, h.2⟩
  | approved => exact ⟨hp h.1, h.2.later entry⟩
  | committed => exact ⟨hp h.1, h.2.1.later entry, h.2.2⟩
  | promoted => exact ⟨hp h.1, fun ht => (h.2 ht).later entry⟩

theorem Core.later (h : Core rt options c) (e : Handled) :
    Core rt options { c with log := e :: c.log } :=
  { h with
    warranted := fun id hi => by
      obtain ⟨job, hj, ha⟩ := h.warranted id hi
      exact ⟨job, hj, ha.later e⟩ }

theorem Tokens.later (h : Tokens rt options c) (e : Handled) :
    Tokens rt options { c with log := e :: c.log } where
  single := h.single
  fits it hi hm := (h.fits it hi hm).later e
  blank := h.blank

theorem Poised.later (h : Poised rt options it c) (e : Handled) :
    Poised rt options it { c with log := e :: c.log } :=
  ⟨Core.later h.1 e, fun ha =>
    { main := fun hm =>
        ⟨((h.2 ha).main hm).1, ((h.2 ha).main hm).2.later e⟩
      side := fun hs => ((h.2 ha).side hs).later e
      blank := (h.2 ha).blank }⟩

/-- What remains without a callback that is waited for may wait for it. -/
theorem Tokens.take (h : Tokens rt options c) {b : Boundary} {id : Nat}
    (hf : c.boundaries.find? (·.id == id) = some b) : Open rt options (b.cont, b.request)
      { c with boundaries := c.boundaries.filter (·.id != id) } := by
  have hu : { c with boundaries := c.boundaries.filter (·.id != id) }.waiting.Sublist
      c.waiting := filter_sublist.map _
  have he : (b.cont, b.request) ∈ c.waiting :=
    mem_map_of_mem (mem_of_find?_eq_some hf)
  have hd : b.id = id := by simpa using List.find?_some hf
  refine ⟨fun hm => ⟨fun it hi => ?_, h.fits _ he hm⟩, fun _ => ⟨?_, ?_, h.blank⟩, h.blank⟩
  · -- Two callbacks that can carry the sequence on would be more than one.
    by_contra him
    obtain ⟨o, ho, rfl⟩ := mem_map.mp hi
    have hom : isMain c.results o.cont = true := by simpa using him
    obtain ⟨ho, hoi⟩ := mem_filter.mp ho
    have hs := h.single
    rw [waiting, filter_map, length_map] at hs
    have hn : o ≠ b := by
      rintro rfl
      simp [hd] at hoi
    have hb : ∀ x ∈ [o, b], x ∈ c.boundaries.filter ((fun it => isMain c.results it.1) ∘ fun b =>
          (b.cont, b.request)) := by
      simp only [mem_cons, not_mem_nil, or_false, forall_eq_or_imp, forall_eq,
        mem_filter, Function.comp_apply]
      exact ⟨⟨ho, hom⟩, mem_of_find?_eq_some hf, hm⟩
    have ht := (subperm_of_subset (nodup_cons.mpr
      ⟨by simpa using hn, nodup_singleton b⟩) hb).length_le
    exact absurd (ht.trans hs) (by simp)
  · exact (hu.filter _).length_le.trans h.single
  · exact fun it hi => h.fits it (hu.subset hi)

/-! ### What is kept of a worker -/

/-- A change that has nothing to do with the reporting of verifications. -/
def KeepsReport (change : WorkerResult → WorkerResult) : Prop :=
  ∀ result, (change result).reported = result.reported ∧
    (change result).verificationPassed = result.verificationPassed

/-- A change of nothing that the decision about a worker reads. -/
def KeepsVerdict (change : WorkerResult → WorkerResult) : Prop :=
  KeepsReport change ∧ ∀ result, (change result).error = result.error ∧
    (change result).verification = result.verification

section

variable {ch : WorkerResult → WorkerResult} {n : Nat}

theorem setResult_kept {α : Type} (re : WorkerResult → α) (hk : ∀ r, re (ch r) = re r)
    (o : Nat) : re ((c.setResult n ch).results o) = re (c.results o) := by
  show re (if o = n then ch (c.results o) else c.results o) = _
  split
  · exact hk _
  · rfl

theorem isMain_congr {r r' : Nat → WorkerResult} (h : ∀ n, (r' n).reported = (r n).reported)
    (co : Cont) : isMain r' co = isMain r co := by
  cases co <;> simp only [isMain, h]

theorem isMain_setResult (h : KeepsReport ch) (co : Cont) :
    isMain (c.setResult n ch).results co = isMain c.results co :=
  isMain_congr (setResult_kept _ fun r => (h r).1) co

theorem Quiet.setResult (h : Quiet c) (hk : KeepsReport ch) : Quiet (c.setResult n ch) :=
  fun it hi => (isMain_setResult hk it.1).trans (h it hi)

theorem Unreported.setResult {o : Nat} (h : Unreported c o) (hk : KeepsReport ch) :
    Unreported (c.setResult n ch) o :=
  ⟨(setResult_kept _ (fun r => (hk r).1) o).trans h.1,
    (setResult_kept _ (fun r => (hk r).2) o).trans h.2⟩

theorem Blank.setResult (h : Blank c) (hk : KeepsReport ch) : Blank (c.setResult n ch) :=
  fun o ho => (h o ho).setResult hk

variable {it : Cont × Option Value}

theorem Fits.setResult (h : Fits rt options c it) (hk : KeepsVerdict ch) :
    Fits rt options (c.setResult n ch) it := by
  have hw : ∀ {job}, Working rt options c job → Working rt options (c.setResult n ch) job :=
    fun h => ⟨h.1, h.2.1, h.2.2.setResult hk.1⟩
  have he : ∀ other, ((c.setResult n ch).results other).error =
      (c.results other).error := setResult_kept _ fun result => (hk.2 result).1
  obtain ⟨co, request⟩ := it
  cases co with
  | authorizedRun | admitted | commented | advanced => exact h
  | previewed | approved | committed | promoted => exact h
  | ready | attached | polled => trivial
  | prepared => exact ⟨h.1, h.2.setResult hk.1⟩
  | staged | authorizedWorker | completed => exact hw h
  | endedStatus | verifying =>
    exact ⟨hw h.1, fun hn => h.2 (by rwa [he] at hn)⟩
  | inspected | parked | exported | authorizedVerifier | verifierReady | verifierInspected
  | executed => exact ⟨hw h.1, h.2⟩
  | status => exact ⟨⟨hw h.1.1, h.1.2⟩, h.2⟩
  | decided job =>
    refine ⟨h.1, h.2.1, fun hp hn => ?_⟩
    rw [setResult_kept _ (fun result => (hk.1 result).2)] at hp
    rw [he] at hn
    rw [setResult_kept _ (fun result => (hk.2 result).2)]
    exact h.2.2 hp hn

theorem Tokens.setResult (h : Tokens rt options c) (hk : KeepsVerdict ch) :
    Tokens rt options (c.setResult n ch) where
  single := by
    have hs : (fun it : Cont × Option Value =>
        isMain (c.setResult n ch).results it.1) = fun it => isMain c.results it.1 :=
      funext fun it => isMain_setResult hk.1 it.1
    rw [hs]
    exact h.single
  fits it hi hm :=
    (h.fits it hi ((isMain_setResult hk.1 it.1).symm.trans hm)).setResult hk
  blank := h.blank.setResult hk.1

theorem Inv.setResult (h : Inv rt options c) (hk : KeepsVerdict ch) :
    Inv rt options (c.setResult n ch) :=
  ⟨h.1, fun ha => (h.2 ha).setResult hk⟩

theorem Poised.setResult (h : Poised rt options it c) (hk : KeepsVerdict ch) :
    Poised rt options it (c.setResult n ch) :=
  ⟨h.1, fun ha =>
    { main := fun hm =>
        have hm := (isMain_setResult hk.1 it.1).symm.trans hm
        ⟨((h.2 ha).main hm).1.setResult hk.1, ((h.2 ha).main hm).2.setResult hk⟩
      side := fun hs =>
        ((h.2 ha).side ((isMain_setResult hk.1 it.1).symm.trans hs)).setResult hk
      blank := (h.2 ha).blank.setResult hk.1 }⟩

end

end Controller

end Louiselm.Workflow.Beads
