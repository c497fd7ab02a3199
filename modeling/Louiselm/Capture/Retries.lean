import Louiselm.Capture.Records

/-!
# Answers to repeated requests

A resume of `capture-service/src/runs.rs` that is asked for again is answered from the attempt
the Run remembers, and a confirmation is known by the first output of its mutation. The attempt
does not follow a later Park, and a mutation of several units has more outputs than its first.
-/

namespace Louiselm.Capture
open Base Canonical List Option Except
open Base.Program

/-! ### Requests with their answers -/

/-- The Run a request is about; the reaper has none. -/
def Call.runId : Call → String
  | .admitRun admission _ => admission.id
  | .attach session => session.id
  | .reserve reservation _ => reservation.runId
  | .confirm runId _ _ _ => runId
  | .release runId _ _ => runId
  | .parkCold draft _ => draft.id
  | .raise id _ _ => id
  | .beginResume id _ _ _ _ => id
  | .finalizeResume id _ _ _ => id
  | .reap _ _ _ => ""

/-- The requests that are safe to repeat. -/
def Call.Repeatable : Call → Prop
  | .reserve _ _ => False
  | .raise _ _ _ => False
  | .reap _ _ _ => False
  | _ => True

/-- The same request, under another expected revision. -/
def Call.again (expectedRevision : UInt64) : Call → Call
  | .beginResume id _ operationId nowMs leaseMs =>
    .beginResume id expectedRevision operationId nowMs leaseMs
  | .finalizeResume id _ operationId succeeded =>
    .finalizeResume id expectedRevision operationId succeeded
  | call => call

/-- Perform an action for its effect, or for the answer `f` makes of its result. -/
def answering {α β : Type} (p : Action α) (f : α → β) : Action β := do
  let result ← p
  return f result

section

variable (uuid : String → Option String) (sha256 : Sha256)

/-- What a request answers about a resume; the others succeed without an answer. -/
def answerOf : Call → Action (Option ResumeResult)
  | .admitRun admission token => answering (admitRun uuid sha256 admission token) fun _ => none
  | .attach session => answering (attach uuid session) fun _ => none
  | .reserve reservation nowMs =>
    answering (reserveGeneratedWork uuid sha256 reservation nowMs) fun _ => none
  | .confirm runId token mutationId issueId =>
    answering (confirmGeneratedWork uuid sha256 runId token mutationId issueId) fun _ => none
  | .release runId token mutationId =>
    answering (releaseGeneratedWork uuid sha256 runId token mutationId) fun _ => none
  | .parkCold draft nowMs => answering (parkCold uuid draft nowMs) fun _ => none
  | .raise id expectedRevision ceiling =>
    answering (raiseGeneratedWorkCeiling uuid id expectedRevision ceiling) fun _ => none
  | .beginResume id expectedRevision operationId nowMs leaseMs =>
    answering (beginResume uuid id expectedRevision operationId nowMs leaseMs) some
  | .finalizeResume id expectedRevision operationId succeeded =>
    answering (finalizeResume uuid id expectedRevision operationId succeeded) some
  | .reap cleanup listing nowMs => answering (reapExpired uuid cleanup listing nowMs) fun _ => none

/-- An answer that names the state of the stored record, and that an immediate repetition gives
again without a change. -/
structure AnswersOnce (call : Call) (answer : Option ResumeResult) (after : RunStore) : Prop where
  truthful : ∀ result, answer = some result →
    ∃ run, after.lookup call.runId = some run ∧ run.state = result.state
  repeated : ∀ expectedRevision,
    Program.Returns (answerOf uuid sha256 (call.again expectedRevision)) after answer after

end

/-- A resume that is not asked for again after its Run has changed, and a confirmation of the
first output of its mutation. -/
def Call.Settled (store : RunStore) : Call → Prop
  | .confirm runId _ mutationId issueId => ∀ run other, store.lookup runId = some run →
    run.generatedIssue mutationId = some other → other = issueId
  | .beginResume id _ operationId _ _ => ∀ run attempt, store.lookup id = some run →
    run.resumeAttempt = some attempt → attempt.operationId = operationId →
      run.state = attempt.result
  | .finalizeResume id _ operationId _ => ∀ run attempt, store.lookup id = some run →
    run.resumeAttempt = some attempt → attempt.operationId = operationId →
      attempt.result ≠ "resuming" → run.state = attempt.result
  | _ => True

/-! ### Plans that are made again -/

section

variable {sh2 : Sha256} {run next : Run}

theorem attachPlan_again {s : RunSession} (h : attachPlan s run = .ok ⟨some next, ()⟩) :
    attachPlan s next = .ok ⟨none, ()⟩ := by
  obtain ⟨_, ⟨_⟩, hc⟩ := attachPlan_begins h
  obtain ⟨rev, rfl⟩ := advanceRevision_eq_with hc
  simp [attachPlan]

theorem parkColdPlan_again {d : RunDraft} (h : parkColdPlan d nowMs run = .ok ⟨some next, ()⟩) :
    parkColdPlan d nowMs next = .ok ⟨none, ()⟩ := by
  unfold parkColdPlan at h
  obtain ⟨hs, h⟩ := check_ok.mp h
  dsimp only at h
  split at h
  · simp [pure, Except.pure] at h
  split at h
  · simp at h
  split at h
  · simp at h
  obtain ⟨c, hc, heq⟩ := bind_ok.mp h
  obtain rfl : c = next := by simpa [pure, Except.pure] using heq
  obtain ⟨rev, rfl⟩ := advanceRevision_eq_with hc
  refine check_ok.mpr ⟨hs, ?_⟩
  simp [pure, Except.pure]

variable {mid : String}

/-- A mutation that is not among the reservations is not found there. -/
theorem locate_eq_none {p : List PendingGeneration}
    (h : mid ∉ p.map (·.mutationId)) : locate mid p = none := by
  induction p with
  | nil => rfl
  | cons head xs ih =>
    rw [map_cons, mem_cons, not_or] at h
    rw [locate, if_neg (Ne.symm h.1), ih h.2]
    rfl

variable {t : String}

/-- A release leaves no other reservation of its mutation. -/
theorem releasePlan_again (hd : run.pendingIds.Nodup)
    (h : releasePlan sh2 t mid run = .ok ⟨some next, ()⟩) :
    releasePlan sh2 t mid next = .ok ⟨none, ()⟩ := by
  obtain ⟨_, hr, hc⟩ := releasePlan_begins "" h
  obtain ⟨revision, rfl⟩ := advanceRevision_eq_with hc
  cases hr with
  | @release _ _ _ _ before pending after hl =>
    obtain ⟨hs, hi⟩ := locate_eq_some hl
    have hn : locate mid (before ++ after) = none := by
      refine locate_eq_none ?_
      rw [Run.pendingIds, hs, map_append, map_cons, nodup_middle,
        nodup_cons, hi, ← map_append] at hd
      exact hd.1
    refine check_ok.mpr ⟨(check_ok.mp h).1, ?_⟩
    simp only [hn]
    rfl

/-! ### Confirmations -/

variable {ii : String}

/-- A confirmation that writes adds an output of its mutation, which was not known by it. -/
theorem confirmPlan_outputs (h : confirmPlan sh2 t mid ii run = .ok ⟨some next, ()⟩) :
    verifyToken sh2 next t = .ok () ∧ run.generatedIssue mid ≠ some ii ∧
      ∃ k, next.generatedWork.outputs = run.generatedWork.outputs ++ [⟨mid, k, ii⟩] := by
  obtain ⟨_, hr, hc⟩ := confirmPlan_begins "" h
  obtain ⟨rev, rfl⟩ := advanceRevision_eq_with hc
  cases hr with
  | confirm hn _ _ => exact ⟨(check_ok.mp h).1, hn, _, rfl⟩

/-- A confirmation that is known writes nothing. -/
theorem confirmPlan_known (ht : verifyToken sh2 run t = .ok ())
    (hi : run.generatedIssue mid = some ii) : confirmPlan sh2 t mid ii run = .ok ⟨none, ()⟩ := by
  refine check_ok.mpr ⟨ht, ?_⟩
  rw [if_pos hi]
  rfl

/-- A confirmation that writes nothing is known. -/
theorem confirmPlan_eq_none (h : confirmPlan sh2 t mid ii run = .ok ⟨none, ()⟩) :
    run.generatedIssue mid = some ii := by
  unfold confirmPlan at h
  obtain ⟨ht, h⟩ := check_ok.mp h
  dsimp only at h
  split at h
  · next hi => exact hi
  split at h
  · simp at h
  split at h
  · simp at h
  obtain ⟨c, hc, heq⟩ := bind_ok.mp h
  simp [pure, Except.pure] at heq

/-- What a mutation is known by does not change with its further outputs. -/
theorem generatedIssue_append {k : String}
    (h : next.generatedWork.outputs = run.generatedWork.outputs ++ [⟨mid, k, ii⟩]) :
    next.generatedIssue mid = (run.generatedIssue mid).or (some ii) := by
  rw [Run.generatedIssue, Run.generatedIssue, h, List.find?_append]
  cases hf : run.generatedWork.outputs.find? (·.mutationId == mid) with
  | none => simp
  | some o => simp

/-! ### Resumes -/

variable {r : ResumeResult}

theorem resumeResult_ok :
    resumeResult run = .ok r ↔ run.resumeAttempt.map (·.result) = some r.state := by
  unfold resumeResult
  constructor
  · intro h
    split at h
    · next ha => rw [ha, ← ok.inj h, ResumeResult.state]
    · next ha => rw [ha, ← ok.inj h, ResumeResult.state]
    · next ha => rw [ha, ← ok.inj h, ResumeResult.state]
    · contradiction
  · intro h
    rw [h]
    cases r <;> rfl

variable {oi : String} {er : UInt64}

/-- A resume that begins leaves its Run in the state it answers, and remembers that. -/
theorem beginResumePlan_fresh {leaseMs : UInt64}
    (h : beginResumePlan er oi nowMs leaseMs run = .ok ⟨some next, r⟩) :
    run.resumeAttempt.map (·.operationId) ≠ some oi ∧ next.state = r.state ∧
      ∃ deadlineMs, next.resumeAttempt = some ⟨oi, deadlineMs, r.state⟩ := by
  obtain ⟨⟨_, hr, hc⟩, hs⟩ := beginResumePlan_begins "" h
  obtain ⟨revision, rfl⟩ := advanceRevision_eq_with hc
  cases hr with
  | @beginResume _ _ _ _ _ _ deadlineMs hn _ _ =>
    refine ⟨hn, hs, deadlineMs, ?_⟩
    rw [← hs]

/-- A resume that is remembered is answered from what is remembered of it, under any expected
revision. -/
theorem beginResumePlan_remembered (ha : run.resumeAttempt = some attempt)
    (hop : attempt.operationId = oi) (hr : attempt.result = r.state) (er ms lm : UInt64) :
    beginResumePlan er oi ms lm run = .ok ⟨none, r⟩ := by
  have hn : resumeResult run = .ok r :=
    resumeResult_ok.mpr (by rw [ha, ← hr]; rfl)
  rw [beginResumePlan, if_pos (by rw [ha, ← hop]; rfl), hn]
  rfl

theorem beginResumePlan_eq_none {lm : UInt64}
    (h : beginResumePlan er oi nowMs lm run = .ok ⟨none, r⟩) :
    ∃ a, run.resumeAttempt = some a ∧ a.operationId = oi ∧ a.result = r.state := by
  unfold beginResumePlan at h
  split at h
  · next hs =>
    obtain ⟨ans, hn, heq⟩ := bind_ok.mp h
    obtain rfl : ans = r := by simpa [pure, Except.pure] using heq
    obtain ⟨a, ha, hop⟩ := map_eq_some_iff.mp hs
    have hr := resumeResult_ok.mp hn
    rw [ha] at hr
    exact ⟨a, ha, hop, some.inj hr⟩
  obtain ⟨_, h⟩ := check_ok.mp h
  split at h
  · simp at h
  split at h
  · simp at h
  obtain ⟨c, _, heq⟩ := bind_ok.mp h
  simp [pure, Except.pure] at heq

/-- A resume that is finalized leaves its Run in the state it answers, and remembers that. -/
theorem finalizeResumePlan_fresh {succeeded : Bool}
    (h : finalizeResumePlan er oi succeeded run = .ok ⟨some next, r⟩) :
    (∃ attempt, run.resumeAttempt = some attempt ∧ attempt.result = "resuming") ∧
      next.state = r.state ∧ r.state ≠ "resuming" ∧
      ∃ deadlineMs, next.resumeAttempt = some ⟨oi, deadlineMs, r.state⟩ := by
  obtain ⟨⟨changed, hr, hc⟩, hs, he⟩ := finalizeResumePlan_begins h
  obtain ⟨revision, rfl⟩ := advanceRevision_eq_with hc
  generalize hi : run.id = id at hr
  cases hr with
  | @finalizeResume _ _ _ attempt _ ha _ hre _ =>
    refine ⟨⟨attempt, ha, hre⟩, hs, he, attempt.deadlineMs, ?_⟩
    rw [← hs]

theorem finalizeResumePlan_remembered (ha : run.resumeAttempt = some attempt)
    (hop : attempt.operationId = oi) (hr : attempt.result = r.state) (he : r.state ≠ "resuming")
    (er : UInt64) (s : Bool) : finalizeResumePlan er oi s run = .ok ⟨none, r⟩ := by
  have hn : resumeResult run = .ok r :=
    resumeResult_ok.mpr (by rw [ha, ← hr]; rfl)
  rw [finalizeResumePlan, ha]
  refine check_ok.mpr ⟨require_ok.mpr (beq_iff_eq.mpr hop), ?_⟩
  rw [if_pos (hr ▸ he), hn]
  rfl

theorem finalizeResumePlan_eq_none {s : Bool} (h : finalizeResumePlan er oi s run = .ok ⟨none, r⟩) :
    ∃ a, run.resumeAttempt = some a ∧ a.operationId = oi ∧
      a.result = r.state ∧ r.state ≠ "resuming" := by
  unfold finalizeResumePlan at h
  split at h
  · simp at h
  next a ha =>
  obtain ⟨hop, h⟩ := check_ok.mp h
  split at h
  · next he =>
    obtain ⟨ans, hn, heq⟩ := bind_ok.mp h
    obtain rfl : ans = r := by simpa [pure, Except.pure] using heq
    have hr := resumeResult_ok.mp hn
    rw [ha] at hr
    replace hr : a.result = ans.state := some.inj hr
    exact ⟨a, ha, beq_iff_eq.mp (require_ok.mp hop), hr, hr ▸ he⟩
  obtain ⟨_, h⟩ := check_ok.mp h
  obtain ⟨c, _, heq⟩ := bind_ok.mp h
  simp [pure, Except.pure] at heq

end

/-! ### Requests that are made again -/

section

variable {u : String → Option String} {sha256 : Sha256} {store after : RunStore} {run next : Run}
  {α β : Type}

theorem leaves_answering {p : Action α} {f : α → β} (fl : List Fault) :
    (answering p f).leaves fl store = p.leaves fl store := by
  unfold answering leaves
  change (Program.bind p (fun res => Program.pure (f res)) fl store).2.2 = _
  unfold Program.bind
  split
  · next hr => rw [hr]; rfl
  · next hr => rw [hr]
  · next hr => rw [hr]

/-- A request leaves what the program that answers it does. -/
theorem leaves_answerOf (c : Call) (fl : List Fault) :
    (answerOf u sha256 c).leaves fl store = step u sha256 store (c, fl) := by
  cases c <;> exact leaves_answering fl

theorem returns_answering {p : Action α} {a : α} (h : Returns p store a after)
    (f : α → β) : Returns (answering p f) store (f a) after :=
  returns_bind h (returns_pure _ _)

variable {ch : Except RunStoreError Unit} {de : Run → Except RunStoreError (Plan α)}

/-- What an answered update decided on the record it loaded. -/
theorem wp_answering_update {id : String} (f : α → β) :
    Wp (answering (do ofExcept ch; update u id de) f)
      ⟨fun ans s => ch = .ok () ∧ ∃ run next a, Loads u id store run ∧
          de run = .ok ⟨next, a⟩ ∧ ans = f a ∧
          s = next.elim store fun next => store.insert next.id next,
        fun _ _ => True, fun _ => True⟩ store := by
  unfold answering
  apply wp_bind
  apply wp_bind
  refine wp_ofExcept ?_ (fun _ _ => trivial)
  intro _ hc
  refine (wp_update_loads id de).mono ?_ (fun _ _ _ => trivial) (fun _ _ => trivial)
  rintro _ s ⟨run, ⟨next, a⟩, hl, hp, rfl, rfl⟩
  exact wp_pure.mpr ⟨hc, run, next, _, hl, hp, rfl, rfl⟩

/-- The record that an update leaves can be loaded. -/
theorem Loads.written {id : String} {k : Option Run} (h : Loads u id store run)
    (hw : AllWellFormed (k.elim store fun next => store.insert next.id next))
    (hi : ∀ next, k = some next → next.id = run.id) :
    Loads u id (k.elim store fun next => store.insert next.id next) (k.getD run) := by
  cases k with
  | none => exact h
  | some next =>
    have hs := (hi next rfl).trans h.id
    have hl : (store.insert next.id next).lookup id = some next := by
      rw [← hs]
      exact AList.lookup_insert store
    obtain ⟨_, he⟩ := hw id next hl
    refine ⟨h.name, hl, ?_⟩
    simp only [getD_some, Bool.and_eq_true, bne_iff_ne, beq_iff_eq]
    exact ⟨⟨⟨⟨he.version, he.revision⟩, hs⟩, he.ceiling⟩, he.ttl⟩

/-- An update that would write nothing more is answered again without a change. -/
theorem Loads.returns_again {id : String} {a : α} (h : Loads u id store run)
    (hc : ch = .ok ()) (hp : de run = .ok ⟨none, a⟩) (f : α → β) :
    Returns (answering (do ofExcept ch; update u id de) f) store (f a)
      store := by
  refine returns_answering ?_ f
  exact returns_bind (returns_ofExcept hc store) (h.returns_update hp)

/-- A request whose plan writes nothing more where it was carried out is answered again without
a change. -/
theorem returns_again {id : String} {da : Run → Except RunStoreError (Plan α)} {f : α → β}
    {fl : List Fault} {ans : β}
    (h : (answering (do ofExcept ch; update u id de) f fl store).1 = .value ans) (hw : AllWellFormed
      ((answering (do ofExcept ch; update u id de) f).leaves fl store))
    (hi : ∀ run next a, de run = .ok ⟨some next, a⟩ → next.id = run.id)
    (ha : ∀ run k a, store.lookup id = some run → de run = .ok ⟨k, a⟩ →
      da (k.getD run) = .ok ⟨none, a⟩) : Returns (answering (do ofExcept ch; update u id da) f)
      ((answering (do ofExcept ch; update u id de) f).leaves fl store) ans
      ((answering (do ofExcept ch; update u id de) f).leaves fl store) := by
  obtain ⟨hc, run, k, a, hl, hp, rfl, hf⟩ := (wp_answering_update f).value_of h
  rw [hf] at hw ⊢
  have hn := hl.written hw (by
    rintro next rfl
    exact hi run next a hp)
  exact hn.returns_again hc (ha run k a hl.stored hp) f

end

/-! ### When an answer holds -/

section

variable {uu : String → Option String} {sha256 : Sha256} {store : RunStore} {fs : List Fault}
  {an : Option ResumeResult}

variable {ad : RunAdmission} {tk : String}

/-- An admission that succeeded has its record, as it would write it. -/
theorem admitRun_value (h : (answerOf uu sha256 (.admitRun ad tk) fs store).1 = .value an) :
    an = none ∧ validateAdmission uu ad = .ok () ∧ validateToken tk = .ok () ∧
      (step uu sha256 store (.admitRun ad tk, fs)).lookup ad.id =
        some (admittedRun sha256 ad tk) := by
  suffices hw : Wp (answerOf uu sha256 (.admitRun ad tk))
      ⟨fun an s => an = none ∧ validateAdmission uu ad = .ok () ∧ validateToken tk = .ok () ∧
          s.lookup ad.id = some (admittedRun sha256 ad tk), fun _ _ => True, fun _ => True⟩ store by
    have hv := hw.value_of h
    rwa [leaves_answerOf] at hv
  change Wp (answering (admitRun uu sha256 ad tk) fun _ => none) _ store
  unfold answering admitRun
  apply wp_bind
  apply wp_bind
  refine wp_ofExcept ?_ (fun _ _ => trivial)
  intro _ ha
  apply wp_bind
  refine wp_ofExcept ?_ (fun _ _ => trivial)
  intro _ ht
  refine wp_locked ?_ trivial trivial
  apply wp_bind
  refine wp_observe.mpr ?_
  dsimp only
  split
  · refine (reads_loadRun _).wp_bind (fun st hst => ?_) (fun _ => trivial) trivial
    refine wp_ofExcept (fun _ hs => ⟨?_, trivial, trivial⟩) (fun _ _ => trivial)
    obtain rfl := beq_iff_eq.mp (require_ok.mp hs)
    exact wp_pure.mpr ⟨rfl, ha, ht, hst.1⟩
  · refine wp_write ⟨?_, trivial, trivial⟩ trivial trivial trivial
    exact wp_pure.mpr ⟨rfl, ha, ht, AList.lookup_insert store⟩

/-- An admission whose record is there succeeds without a change. -/
theorem returns_admitRun (ha : validateAdmission uu ad = .ok ()) (ht : validateToken tk = .ok ())
    (hs : store.lookup ad.id = some (admittedRun sha256 ad tk)) :
    Returns (admitRun uu sha256 ad tk) store () store := by
  have hn : validateId uu ad.id = .ok () := (check_ok.mp ha).1
  have hw : WellFormed (admittedRun sha256 ad tk) :=
    wellFormed_admittedRun tk ha
  have hl : Loads uu ad.id store (admittedRun sha256 ad tk) := by
    refine ⟨hn, hs, ?_⟩
    simp only [Bool.and_eq_true, bne_iff_ne, beq_iff_eq]
    exact ⟨⟨⟨⟨hw.version, hw.revision⟩, rfl⟩, hw.ceiling⟩, hw.ttl⟩
  unfold admitRun
  refine returns_bind (returns_ofExcept ha store) ?_
  refine returns_bind (returns_ofExcept ht store) ?_
  refine returns_bind (returns_probe _ store) ?_
  refine returns_bind (?_ : Returns _ store () store)
    (returns_bind (returns_probe _ _) (returns_pure _ _))
  refine returns_bind (returns_observe _ store) ?_
  simp only [hs, isSome_some, if_true]
  refine returns_bind hl.returns ?_
  exact returns_ofExcept (require_ok.mpr (beq_self_eq_true _)) store

/-- Repeatable requests other than resumes, and confirmations known by their first output, are
answered again without a change. -/
theorem repeated_of_settled (hw : AllWellFormed store) (hso : Sound store) {c : Call}
    (hr : c.Repeatable) (h : (answerOf uu sha256 c fs store).1 = .value an)
    (hs : ∀ ri tk mi isi, c = .confirm ri tk mi isi → c.Settled store) (expectedRevision : UInt64) :
    Returns (answerOf uu sha256 (c.again expectedRevision))
      (step uu sha256 store (c, fs)) an (step uu sha256 store (c, fs)) := by
  have hf : AllWellFormed ((answerOf uu sha256 c).leaves fs store) := by
    rw [leaves_answerOf]
    exact step_allWellFormed hw c fs
  cases c with
  | admitRun ad tk =>
    obtain ⟨rfl, hd, ht, hst⟩ := admitRun_value h
    exact returns_answering (returns_admitRun hd ht hst) fun _ => none
  | attach se =>
    rw [← leaves_answerOf]
    refine returns_again h hf (fun _ _ _ hp => (attachPlan_begins hp).id) ?_
    intro run k a _ hp
    cases k with
    | none => exact hp
    | some next => exact attachPlan_again hp
  | confirm ri tk mi isi =>
    rw [← leaves_answerOf]
    refine returns_again h hf (fun _ _ _ hp => (confirmPlan_begins ri hp).id) ?_
    intro run k a hu hp
    cases k with
    | none => exact hp
    | some next =>
      obtain ⟨ht, hi, ki, hou⟩ := confirmPlan_outputs hp
      refine confirmPlan_known ht ?_
      rw [getD_some, generatedIssue_append hou]
      cases ho : run.generatedIssue mi with
      | none => rfl
      | some o =>
        have hsa : o = isi := hs _ _ _ _ rfl run o hu ho
        rw [hsa]
        rfl
  | release ri tk mi =>
    rw [← leaves_answerOf]
    refine returns_again h hf (fun _ _ _ hp => (releasePlan_begins ri hp).id) ?_
    intro run k a hu hp
    cases k with
    | none => exact hp
    | some next => exact releasePlan_again (hso _ run hu).2.distinct hp
  | parkCold d ms =>
    rw [← leaves_answerOf]
    refine returns_again h hf (fun _ _ _ hp => (parkColdPlan_begins hp).id) ?_
    intro run k a _ hp
    cases k with
    | none => exact hp
    | some next => exact parkColdPlan_again hp
  | beginResume id rev opi ms lm =>
    rw [← leaves_answerOf]
    refine returns_again h hf (fun _ _ _ hp => (beginResumePlan_begins id hp).1.id) ?_
    intro run k a _ hp
    cases k with
    | none =>
      obtain ⟨att, ha, hop, hres⟩ := beginResumePlan_eq_none hp
      exact beginResumePlan_remembered ha hop hres _ _ _
    | some next =>
      obtain ⟨_, _, dm, ha⟩ := beginResumePlan_fresh hp
      exact beginResumePlan_remembered ha rfl rfl _ _ _
  | finalizeResume id rev opi s =>
    rw [← leaves_answerOf]
    refine returns_again h hf (fun _ _ _ hp => (finalizeResumePlan_begins hp).1.id) ?_
    intro run k a _ hp
    cases k with
    | none =>
      obtain ⟨att, ha, hop, hres, he⟩ := finalizeResumePlan_eq_none hp
      exact finalizeResumePlan_remembered ha hop hres he _ _
    | some next =>
      obtain ⟨_, _, he, dm, ha⟩ := finalizeResumePlan_fresh hp
      exact finalizeResumePlan_remembered ha rfl rfl he _ _
  | _ => exact hr.elim

/-- A confirmation that is repeated without a change was known by its first output, or is that. -/
theorem settled_of_repeated (hw : AllWellFormed store) {ri mi isi : String}
    (h : (answerOf uu sha256 (.confirm ri tk mi isi) fs store).1 =
      .value an) (hr : Returns (answerOf uu sha256 (.confirm ri tk mi isi))
      (step uu sha256 store (.confirm ri tk mi isi, fs)) an
      (step uu sha256 store (.confirm ri tk mi isi, fs))) :
    Call.Settled store (.confirm ri tk mi isi) := by
  intro f o hf ho
  obtain ⟨_, run, k, _, hl, hp, _, ht⟩ := (wp_answering_update _).value_of h
  obtain rfl : run = f := some.inj (hl.stored.symm.trans hf)
  have he : AllWellFormed (leaves (answerOf uu sha256 (.confirm ri tk mi isi)) fs store) := by
    rw [leaves_answerOf]
    exact step_allWellFormed hw _ fs
  rw [← leaves_answerOf] at hr
  change leaves (answerOf uu sha256 (.confirm ri tk mi isi)) fs store = _ at ht
  rw [ht] at hr he
  cases k with
  | none => exact some.inj (ho.symm.trans (confirmPlan_eq_none hp))
  | some next =>
    have hn : Loads uu ri (store.insert next.id next) next := hl.written he (by
      rintro _ ⟨⟩
      exact (confirmPlan_begins ri hp).id)
    rw [elim_some] at hr
    obtain ⟨_, _, ki, hu⟩ := confirmPlan_outputs hp
    have hk : next.generatedIssue mi = some o := by
      rw [generatedIssue_append hu, ho]
      rfl
    obtain ⟨_, a, w, _, hg, hpa, _, hs⟩ :=
      (wp_answering_update _).value_of (congrArg Prod.fst hr)
    obtain rfl : next = a := hn.unique hg
    cases w with
    | none => exact some.inj (hk.symm.trans (confirmPlan_eq_none hpa))
    | some l =>
      -- a second charge has a later revision, so it is not the record that was left
      have ha := (confirmPlan_begins ri hpa).advance
      have hla : (leaves (answerOf uu sha256 (.confirm ri tk mi isi))
          [] (store.insert next.id next)).lookup ri = some next := by
        rw [hr.leaves]
        exact hn.stored
      change leaves (answerOf uu sha256 (.confirm ri tk mi isi)) []
        (store.insert next.id next) = _ at hs
      rw [hs, elim_some, ← hn.id, ← ha.id] at hla
      obtain rfl := some.inj ((AList.lookup_insert _).symm.trans hla)
      exact absurd ha.revision (lt_irrefl _)

/-- A resume that writes its answer is truthful; one that writes nothing is where its Run is in
the state it answers. -/
theorem truthful_iff {id : String} {run : Run} {k : Option Run} {res : ResumeResult}
    (hl : Loads uu id store run)
    (hk : ∀ next, k = some next → next.id = run.id ∧ next.state = res.state) :
    (∀ n, some res = some n →
      ∃ now, (k.elim store fun next => store.insert next.id next).lookup id = some now ∧
        now.state = n.state) ↔ (k = none → run.state = res.state) := by
  constructor
  · rintro h rfl
    obtain ⟨now, ho, hs⟩ := h res rfl
    obtain rfl : run = now := some.inj (hl.stored.symm.trans ho)
    exact hs
  · rintro h n hn
    obtain rfl := some.inj hn
    cases k with
    | none => exact ⟨run, hl.stored, h rfl⟩
    | some next =>
      obtain ⟨hi, hs⟩ := hk next rfl
      refine ⟨next, ?_, hs⟩
      rw [← hl.id, ← hi]
      exact AList.lookup_insert store

variable {exr : UInt64}

/-- A resume that begins answers the state of its Run exactly when it is new, or the Run is still
as it was answered. -/
theorem beginResume_truthful_iff {id opi : String} {ms lm : UInt64}
    (h : (answerOf uu sha256 (.beginResume id exr opi ms lm) fs
      store).1 = .value an) : (∀ res, an = some res → ∃ run,
      (step uu sha256 store (.beginResume id exr opi ms lm,
        fs)).lookup id = some run ∧ run.state = res.state) ↔
      Call.Settled store (.beginResume id exr opi ms lm) := by
  obtain ⟨_, run, k, a, hl, hp, rfl, haft⟩ := (wp_answering_update some).value_of h
  rw [← leaves_answerOf]
  change leaves (answerOf uu sha256 (.beginResume id exr opi ms lm)) fs store = _ at haft
  rw [haft, truthful_iff hl fun next hn => by
    subst hn
    exact ⟨(beginResumePlan_begins id hp).1.id, (beginResumePlan_fresh hp).2.1⟩]
  constructor
  · intro ht f att hf ha hop
    obtain rfl : run = f := some.inj (hl.stored.symm.trans hf)
    cases k with
    | none =>
      obtain ⟨o, ho, _, hr⟩ := beginResumePlan_eq_none hp
      obtain rfl : o = att := some.inj (ho.symm.trans ha)
      rw [ht rfl, hr]
    | some next =>
      obtain ⟨he, _⟩ := beginResumePlan_fresh hp
      rw [ha, ← hop] at he
      exact absurd rfl he
  · rintro hs rfl
    obtain ⟨att, ha, hop, hr⟩ := beginResumePlan_eq_none hp
    exact (hs run att hl.stored ha hop).trans hr

/-- A resume that is finalized answers the state of its Run exactly when it was not finalized
before, or the Run is still as it was answered. -/
theorem finalizeResume_truthful_iff {id opi : String} {s : Bool}
    (h : (answerOf uu sha256 (.finalizeResume id exr opi s) fs
      store).1 = .value an) : (∀ res, an = some res → ∃ run,
      (step uu sha256 store (.finalizeResume id exr opi s,
        fs)).lookup id = some run ∧ run.state = res.state) ↔
      Call.Settled store (.finalizeResume id exr opi s) := by
  obtain ⟨_, run, k, a, hl, hp, rfl, haft⟩ := (wp_answering_update some).value_of h
  rw [← leaves_answerOf]
  change leaves (answerOf uu sha256 (.finalizeResume id exr opi s)) fs store = _ at haft
  rw [haft, truthful_iff hl fun next hn => by
    subst hn
    exact ⟨(finalizeResumePlan_begins hp).1.id, (finalizeResumePlan_fresh hp).2.1⟩]
  constructor
  · intro ht f att hf ha hop he
    obtain rfl : run = f := some.inj (hl.stored.symm.trans hf)
    cases k with
    | none =>
      obtain ⟨o, ho, _, hres, _⟩ := finalizeResumePlan_eq_none hp
      obtain rfl : o = att := some.inj (ho.symm.trans ha)
      rw [ht rfl, hres]
    | some next =>
      obtain ⟨⟨o, ho, hr⟩, _⟩ := finalizeResumePlan_fresh hp
      obtain rfl : o = att := some.inj (ho.symm.trans ha)
      exact absurd hr he
  · rintro hs rfl
    obtain ⟨att, ha, hop, hres, he⟩ := finalizeResumePlan_eq_none hp
    exact (hs run att hl.stored ha hop (hres ▸ he)).trans hres

end

/-- In every run, a resume that succeeds answers the state of its stored Run and every repeatable
request that succeeds can be made again without a change, exactly where a resume that is
remembered finds its Run as it was answered, and a confirmation has no other first output. -/
theorem answersOnce_iff (uuid : String → Option String) (sha256 : Sha256)
    (calls : List (Call × List Fault)) : Always (step uuid sha256)
      (fun store => ∀ call faults answer, call.Repeatable →
        (answerOf uuid sha256 call faults store).1 = .value answer →
          (AnswersOnce uuid sha256 call answer (step uuid sha256 store (call, faults)) ↔
            call.Settled store)) ∅ calls := by
  have hk : Always (step uuid sha256) (fun store => AllWellFormed store ∧ Sound store) ∅ calls :=
    always_of_throughout (C := fun _ _ => True) (fun _ e h _ => ⟨step_allWellFormed h.1 e.1 e.2,
        (step_keeps e.1 e.2).sound h.2⟩)
      ⟨fun id run h => by simp at h, fun id run h => by simp at h⟩
      (throughout_of_forall (fun _ _ => trivial) _ _)
  refine hk.mono fun store hst call faults answer he h => ?_
  have hr := fun hs => repeated_of_settled hst.1 hst.2 he h hs
  cases call with
  | admitRun a tok =>
    obtain ⟨rfl, _⟩ := admitRun_value h
    exact ⟨fun _ => trivial, fun _ => ⟨by simp, hr (by simp)⟩⟩
  | attach se =>
    obtain ⟨_, _, _, _, _, _, rfl, _⟩ := (wp_answering_update _).value_of h
    exact ⟨fun _ => trivial, fun _ => ⟨by simp, hr (by simp)⟩⟩
  | confirm ri tok mi isi =>
    obtain ⟨_, _, _, _, _, _, rfl, _⟩ := (wp_answering_update _).value_of h
    refine ⟨fun ha => ?_, fun hs => ⟨by simp, hr fun _ _ _ _ _ => hs⟩⟩
    exact settled_of_repeated hst.1 h (ha.repeated 0)
  | release ri tok mi =>
    obtain ⟨_, _, _, _, _, _, rfl, _⟩ := (wp_answering_update _).value_of h
    exact ⟨fun _ => trivial, fun _ => ⟨by simp, hr (by simp)⟩⟩
  | parkCold d ms =>
    obtain ⟨_, _, _, _, _, _, rfl, _⟩ := (wp_answering_update _).value_of h
    exact ⟨fun _ => trivial, fun _ => ⟨by simp, hr (by simp)⟩⟩
  | beginResume id expectedRevision opi ms lm =>
    have ht := beginResume_truthful_iff h
    exact ⟨fun ha => ht.mp ha.truthful, fun hs => ⟨ht.mpr hs, hr (by simp)⟩⟩
  | finalizeResume id expectedRevision opi s =>
    have ht := finalizeResume_truthful_iff h
    exact ⟨fun ha => ht.mp ha.truthful, fun hs => ⟨ht.mpr hs, hr (by simp)⟩⟩
  | _ => exact he.elim

/-! ### Answers that do not hold -/

def retryRun : String := "00000000-0000-4000-8000-000000000001"

def retryOperation : String := "00000000-0000-4000-8000-000000000002"

def retryMutation : String := "00000000-0000-4000-8000-000000000003"

def retryToken : String := "0123456789abcdef"

def retryHash : Sha256 := fun _ => Vector.replicate 32 0

/-- A Run of two units that is parked when three are asked for, and resumed. -/
def parkedAndResumed : List (Call × List Fault) := [ (.admitRun ⟨retryRun, 2, 1⟩ retryToken, []),
  (.attach ⟨retryRun, "session", "agent", "acp", "/work", true⟩, []),
  (.reserve ⟨retryRun, retryToken, retryMutation, "beads_issue", 3⟩ 0, []),
  (.beginResume retryRun 3 retryOperation 0 1, [])]

/-- The same Run, parked once more. -/
def parkedAgain : List (Call × List Fault) := parkedAndResumed ++
  [(.reserve ⟨retryRun, retryToken, retryMutation, "beads_issue", 3⟩ 5, [])]

/-- A Run in which both units of a mutation are reserved and the first is confirmed. -/
def confirmedOnce : List (Call × List Fault) := [ (.admitRun ⟨retryRun, 2, 1⟩ retryToken, []),
  (.attach ⟨retryRun, "session", "agent", "acp", "/work", true⟩, []),
  (.reserve ⟨retryRun, retryToken, retryMutation, "beads_issue", 2⟩ 0, []),
  (.confirm retryRun retryToken retryMutation "issue-1", [])]

private theorem resumed_parked :
    (answerOf some retryHash (.beginResume retryRun 3 retryOperation 0 1) []
        (parkedAgain.foldl (step some retryHash) ∅)).1 = .value (some .active) ∧
      ((step some retryHash (parkedAgain.foldl (step some retryHash) ∅)
        (.beginResume retryRun 3 retryOperation 0 1, [])).lookup retryRun).map (·.state) =
          some "parked" := by
  decide +kernel

private theorem confirmed_twice :
    (answerOf some retryHash (.confirm retryRun retryToken retryMutation "issue-2") []
        (confirmedOnce.foldl (step some retryHash) ∅)).1 = .value none ∧
      (answerOf some retryHash (.confirm retryRun retryToken retryMutation "issue-2") []
        (step some retryHash (confirmedOnce.foldl (step some retryHash) ∅)
          (.confirm retryRun retryToken retryMutation "issue-2", []))).1 =
            .error (.invalid "generated-work reservation was not found") := by
  decide +kernel

/-- A resume that is asked for again after the next Park is answered as active, and the second
output of a mutation is confirmed but cannot be confirmed again. -/
theorem remembered_answers_stale :
    ((answerOf some retryHash (.beginResume retryRun 3 retryOperation 0 1) []
        (parkedAgain.foldl (step some retryHash) ∅)).1 = .value (some .active) ∧
      ¬ AnswersOnce some retryHash (.beginResume retryRun 3 retryOperation 0 1) (some .active)
        (step some retryHash (parkedAgain.foldl (step some retryHash) ∅)
          (.beginResume retryRun 3 retryOperation 0 1, []))) ∧
    ((answerOf some retryHash (.confirm retryRun retryToken retryMutation "issue-2") []
        (confirmedOnce.foldl (step some retryHash) ∅)).1 = .value none ∧
      ¬ AnswersOnce some retryHash (.confirm retryRun retryToken retryMutation "issue-2") none
        (step some retryHash (confirmedOnce.foldl (step some retryHash) ∅)
          (.confirm retryRun retryToken retryMutation "issue-2", []))) := by
  obtain ⟨ha, hp⟩ := resumed_parked
  obtain ⟨hc, hr⟩ := confirmed_twice
  refine ⟨⟨ha, fun h => ?_⟩, hc, fun h => ?_⟩
  · obtain ⟨run, hu, ht⟩ := h.truthful .active rfl
    have hs := congrArg (Option.map Run.state) hu
    have hn : some "parked" = some ResumeResult.active.state := by
      rw [← hp, ← ht]
      exact hs
    exact absurd hn (by decide)
  · have hg := congrArg Prod.fst (h.repeated 0)
    exact absurd (hr.symm.trans hg) (by simp)

end Louiselm.Capture
