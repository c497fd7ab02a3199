import Louiselm.Base.Runs
import Louiselm.Capture.Runs

/-!
# The writes of the Run store

A request to `capture-service/src/runs.rs` replaces at most one record, and the reaper
replaces records one after another. What each of them makes of the record it finds is said
once, and whatever these writes keep is kept by every request.
-/

namespace Louiselm.Capture
open Base Canonical Except
open Base.Program

/-! ### Requests -/

/-- One request to the service. -/
inductive Call where
  | admitRun (admission : RunAdmission) (token : String)
  | attach (session : RunSession)
  | reserve (reservation : GeneratedWorkReservation) (nowMs : UInt64)
  | confirm (runId token mutationId issueId : String)
  | release (runId token mutationId : String)
  | parkCold (draft : RunDraft) (nowMs : UInt64)
  | raise (id : String) (expectedRevision ceiling : UInt64)
  | beginResume (id : String) (expectedRevision : UInt64) (operationId : String)
      (nowMs leaseMs : UInt64)
  | finalizeResume (id : String) (expectedRevision : UInt64) (operationId : String)
      (succeeded : Bool)
  | reap (cleanup : CleanupAdapter) (listing : List String → List String) (nowMs : UInt64)

section

variable (uuid : String → Option String) (sha256 : Sha256)

/-- What one request leaves, with the faults that befall its file operations. -/
def step (store : RunStore) (event : Call × List Fault) : RunStore :=
  match event with
  | (.admitRun admission token, faults) =>
        (admitRun uuid sha256 admission token).leaves faults store
  | (.attach session, faults) => (attach uuid session).leaves faults store
  | (.reserve reservation nowMs, faults) =>
    (reserveGeneratedWork uuid sha256 reservation nowMs).leaves faults store
  | (.confirm runId token mutationId issueId, faults) =>
    (confirmGeneratedWork uuid sha256 runId token mutationId issueId).leaves faults store
  | (.release runId token mutationId, faults) =>
    (releaseGeneratedWork uuid sha256 runId token mutationId).leaves faults store
  | (.parkCold draft nowMs, faults) => (parkCold uuid draft nowMs).leaves faults store
  | (.raise id expectedRevision ceiling, faults) =>
    (raiseGeneratedWorkCeiling uuid id expectedRevision ceiling).leaves faults store
  | (.beginResume id expectedRevision operationId nowMs leaseMs, faults) =>
    (beginResume uuid id expectedRevision operationId nowMs leaseMs).leaves faults store
  | (.finalizeResume id expectedRevision operationId succeeded, faults) =>
    (finalizeResume uuid id expectedRevision operationId succeeded).leaves faults store
  | (.reap cleanup listing nowMs, faults) =>
    (reapExpired uuid cleanup listing nowMs).leaves faults store

end

/-- Only the reaper writes more than once. -/
def Call.Reaps : Call → Prop
  | .reap _ _ _ => True
  | _ => False

/-- The states in which the reaper looks at a Run. -/
def Run.Reapable (run : Run) : Prop := run.state = "resuming" ∨ run.state = "cold_parked"

/-- The state of a Run that an answer names. -/
def ResumeResult.state : ResumeResult → String
  | .active => "active"
  | .resuming => "resuming"
  | .coldParked => "cold_parked"

/-! ### What is made of a record -/

/-- What a request makes of a record before its next revision begins. -/
inductive Revises : Call → Run → Run → Prop where
  | attach {session run} (admitted : run.state = "admitted") :
    Revises (.attach session) run { run with
      sessionId := some session.sessionId
      agent := some session.agent
      acpSessionId := some session.acpSessionId
      workingDir := some session.workingDir
      loadSession := some session.loadSession
      state := "active" }
  | exhaust {reservation nowMs run parkExpiresAtMs} (active : run.state = "active")
    (expires : checkedAdd nowMs run.parkTtlMs = some parkExpiresAtMs) :
    Revises (.reserve reservation nowMs) run { run with
      state := "parked"
      parkedAtMs := some nowMs
      parkExpiresAtMs
      triggeringMutationId := some reservation.mutationId }
  | reserve {reservation nowMs run occupied reserved} (units : reservation.units ≠ 0)
    (outputs : ¬run.generatedWork.outputs.any (·.mutationId == reservation.mutationId))
    (pending : ¬run.generatedWork.pending.any (·.mutationId == reservation.mutationId))
    (occupies : (checkedAdd run.generatedWork.consumed run.generatedWork.reserved).bind
      (checkedAdd · reservation.units) = some occupied)
    (fits : ¬occupied > run.generatedWork.ceiling)
    (reserves : checkedAdd run.generatedWork.reserved reservation.units = some reserved) :
    Revises (.reserve reservation nowMs) run { run with
      generatedWork := { run.generatedWork with
        reserved
        pending := run.generatedWork.pending ++
          [⟨reservation.mutationId, reservation.kind, reservation.units⟩] } }
  | confirm {runId token mutationId issueId run before pending after consumed}
    (new : run.generatedIssue mutationId ≠ some issueId)
    (located : locate mutationId run.generatedWork.pending = some (before, pending, after))
    (consumes : checkedAdd run.generatedWork.consumed 1 = some consumed) :
    Revises (.confirm runId token mutationId issueId) run { run with
      generatedWork := { run.generatedWork with
        reserved := run.generatedWork.reserved - 1
        consumed
        pending := before ++ (if pending.units - 1 = 0 then []
          else [{ pending with units := pending.units - 1 }]) ++ after
        outputs := run.generatedWork.outputs ++ [⟨mutationId, pending.kind, issueId⟩] } }
  | release {runId token mutationId run before pending after}
    (located : locate mutationId run.generatedWork.pending = some (before, pending, after)) :
    Revises (.release runId token mutationId) run { run with
      generatedWork := { run.generatedWork with
        reserved := run.generatedWork.reserved - pending.units
        pending := before ++ after } }
  | parkCold {draft nowMs run parkExpiresAtMs}
    (before : run.state = "active" ∨ run.state = "parked")
    (expires : checkedAdd nowMs run.parkTtlMs = some parkExpiresAtMs) :
    Revises (.parkCold draft nowMs) run { run with
      state := "cold_parked"
      parkedAtMs := some nowMs
      parkExpiresAtMs
      cleanup := draft.claimedIssueIds.map (CleanupEntry.mk · false) }
  | raise {id expectedRevision ceiling run} (higher : run.generatedWork.ceiling < ceiling) :
    Revises (.raise id expectedRevision ceiling) run { run with
      generatedWork := { run.generatedWork with ceiling } }
  | beginResume {id expectedRevision operationId nowMs leaseMs run deadlineMs}
    (new : run.resumeAttempt.map (·.operationId) ≠ some operationId)
    (parked : run.state = "parked" ∨ run.state = "cold_parked")
    (expires : checkedAdd nowMs leaseMs = some deadlineMs) :
    Revises (.beginResume id expectedRevision operationId nowMs leaseMs) run { run with
      state := if run.state == "cold_parked" then "resuming" else "active"
      resumeAttempt := some ⟨operationId, deadlineMs,
        if run.state == "cold_parked" then "resuming" else "active"⟩ }
  | finalizeResume {expectedRevision operationId run attempt} {succeeded : Bool}
    (awaited : run.resumeAttempt = some attempt) (operation : attempt.operationId = operationId)
    (resuming : attempt.result = "resuming") (revision : run.revision = expectedRevision) :
    Revises (.finalizeResume run.id expectedRevision operationId succeeded) run { run with
      state := if succeeded then "active" else "cold_parked"
      parkExpiresAtMs := if succeeded then 0 else attempt.deadlineMs
      resumeAttempt := some ⟨operationId, attempt.deadlineMs,
        if succeeded then "active" else "cold_parked"⟩ }
  | claim {adapter listing nowMs run cleanup} (reapable : run.Reapable)
    (completed : ∃ entry ∈ cleanup, entry.completed = true) :
    Revises (.reap adapter listing nowMs) run { run with cleanup }
  | dispose {adapter listing nowMs run} (reapable : run.Reapable) :
    Revises (.reap adapter listing nowMs) run { run with state := "disposed" }

/-- The next record of a Run after a request. -/
def Begins (call : Call) (run next : Run) : Prop :=
  ∃ changed, Revises call run changed ∧ advanceRevision changed = .ok next

/-- What a reservation decides on the record it finds. -/
inductive ReservePlanned (sha256 : Sha256) (reservation : GeneratedWorkReservation)
    (nowMs : UInt64) (run : Run) : Plan ReserveResult → Prop where
  | consumed (known : run.generatedWork.outputs.any (·.mutationId == reservation.mutationId)) :
    ReservePlanned sha256 reservation nowMs run ⟨none, .consumed⟩
  | pending : ReservePlanned sha256 reservation nowMs run ⟨none, .pending⟩
  | parked : ReservePlanned sha256 reservation nowMs run ⟨none, .exhausted⟩
  | exhausted {next} (active : run.state = "active")
    (advance : exhaust run reservation.mutationId nowMs = .ok next) :
    ReservePlanned sha256 reservation nowMs run ⟨some next, .exhausted⟩
  | reserved {occupied reserved next} (verified : verifyToken sha256 run reservation.token = .ok ())
    (active : run.state = "active")
    (outputs : ¬run.generatedWork.outputs.any (·.mutationId == reservation.mutationId))
    (pending : ¬run.generatedWork.pending.any (·.mutationId == reservation.mutationId))
    (occupies : (checkedAdd run.generatedWork.consumed run.generatedWork.reserved).bind
      (checkedAdd · reservation.units) = some occupied)
    (fits : ¬occupied > run.generatedWork.ceiling)
    (reserves : checkedAdd run.generatedWork.reserved reservation.units = some reserved)
    (advance : advanceRevision { run with
      generatedWork := { run.generatedWork with
        reserved
        pending := run.generatedWork.pending ++
          [⟨reservation.mutationId, reservation.kind, reservation.units⟩] } } = .ok next) :
    ReservePlanned sha256 reservation nowMs run ⟨some next, .reserved⟩

variable {run next : Run}

/-- What advancing the revision leaves as it is, and what it does not. -/
theorem advanceRevision_ok (h : advanceRevision run = .ok next) :
    next.id = run.id ∧ next.generatedWork = run.generatedWork ∧
      run.revision.toNat < next.revision.toNat := by
  unfold advanceRevision at h
  split at h
  · simp at h
  · next revision hr =>
    rw [← ok.inj h]
    have hn := checkedAdd_eq_some hr
    simp at hn
    exact ⟨rfl, rfl, by simp [hn]⟩

/-- Advancing the revision changes nothing else. -/
theorem advanceRevision_eq_with (h : advanceRevision run = .ok next) :
    ∃ revision, next = { run with revision } := by
  unfold advanceRevision at h
  split at h
  · simp at h
  · next revision _ => exact ⟨revision, (ok.inj h).symm⟩

theorem Begins.id {ca : Call} (h : Begins ca run next) : next.id = run.id := by
  obtain ⟨c, hr, hn⟩ := h
  rw [(advanceRevision_ok hn).1]
  cases hr <;> rfl

theorem locate_eq_some {mid : String} {p pre l : List PendingGeneration} {f : PendingGeneration}
    (h : locate mid p = some (pre, f, l)) : p = pre ++ f :: l ∧ f.mutationId = mid := by
  induction p generalizing pre with
  | nil => simp [locate] at h
  | cons head xs ih =>
    rw [locate] at h
    split at h
    · next hh =>
      obtain ⟨rfl, rfl, rfl⟩ := by simpa using h
      exact ⟨rfl, hh⟩
    · obtain ⟨⟨p', f', l'⟩, hl, heq⟩ := Option.map_eq_some_iff.mp h
      obtain ⟨rfl, rfl, rfl⟩ := by simpa using heq
      obtain ⟨rfl, hf⟩ := ih hl
      exact ⟨rfl, hf⟩

/-! ### Plans -/

section

variable {sha256 : Sha256}

theorem attachPlan_begins {s : RunSession} (h : attachPlan s run = .ok ⟨some next, ()⟩) :
    Begins (.attach s) run next := by
  unfold attachPlan at h
  dsimp only at h
  split at h
  · simp at h
  split at h
  · simp at h
  next hs =>
  obtain ⟨c, hc, heq⟩ := bind_ok.mp h
  obtain rfl : c = next := by simpa [pure, Except.pure] using heq
  exact ⟨_, .attach (not_not.mp hs), hc⟩

variable {re : GeneratedWorkReservation} {ms : UInt64}

theorem reservePlan_planned {p : Plan ReserveResult} (h : reservePlan sha256 re ms run = .ok p) :
    ReservePlanned sha256 re ms run p := by
  unfold reservePlan at h
  obtain ⟨ht, h⟩ := check_ok.mp h
  dsimp only at h
  split at h
  · next hk =>
    obtain rfl := ok.inj h
    exact .consumed hk
  next hu =>
  split at h
  · obtain rfl := ok.inj h
    exact .pending
  next hp =>
  split at h
  · split at h
    · obtain rfl := ok.inj h
      exact .parked
    · simp at h
  next ha =>
  replace ha := not_not.mp ha
  split at h
  · simp at h
  next ho =>
  split at h
  · obtain ⟨c, hc, heq⟩ := bind_ok.mp h
    obtain rfl := ok.inj heq
    exact .exhausted ha hc
  next hf =>
  split at h
  · simp at h
  next hr =>
  obtain ⟨c, hc, heq⟩ := bind_ok.mp h
  obtain rfl := ok.inj heq
  exact .reserved ht ha hu hp ho hf hr hc

theorem reservePlan_begins {a : ReserveResult} (hu : re.units ≠ 0)
    (h : reservePlan sha256 re ms run = .ok ⟨some next, a⟩) : Begins (.reserve re ms) run next := by
  cases reservePlan_planned h with
  | exhausted hc ha =>
    unfold exhaust at ha
    split at ha
    · simp at ha
    · next he => exact ⟨_, .exhaust hc he, ha⟩
  | reserved _ _ hou hp ho hf hr ha =>
    exact ⟨_, .reserve hu hou hp ho hf hr, ha⟩

theorem confirmPlan_begins {t mid ii : String} (ri : String)
    (h : confirmPlan sha256 t mid ii run = .ok ⟨some next, ()⟩) :
    Begins (.confirm ri t mid ii) run next := by
  unfold confirmPlan at h
  obtain ⟨ht, h⟩ := check_ok.mp h
  dsimp only at h
  split at h
  · simp [pure, Except.pure] at h
  next hn =>
  split at h
  · simp at h
  next hl =>
  split at h
  · simp at h
  next hc =>
  obtain ⟨c, hh, heq⟩ := bind_ok.mp h
  obtain rfl : c = next := by simpa [pure, Except.pure] using heq
  exact ⟨_, .confirm hn hl hc, hh⟩

theorem releasePlan_begins {t mid : String} (ri : String)
    (h : releasePlan sha256 t mid run = .ok ⟨some next, ()⟩) :
    Begins (.release ri t mid) run next := by
  unfold releasePlan at h
  obtain ⟨ht, h⟩ := check_ok.mp h
  dsimp only at h
  split at h
  · simp [pure, Except.pure] at h
  next hl =>
  obtain ⟨c, hc, heq⟩ := bind_ok.mp h
  obtain rfl : c = next := by simpa [pure, Except.pure] using heq
  exact ⟨_, .release hl, hc⟩

theorem parkColdPlan_begins {d : RunDraft} (h : parkColdPlan d ms run = .ok ⟨some next, ()⟩) :
    Begins (.parkCold d ms) run next := by
  unfold parkColdPlan at h
  obtain ⟨_, h⟩ := check_ok.mp h
  dsimp only at h
  split at h
  · simp [pure, Except.pure] at h
  split at h
  · simp at h
  next hs =>
  split at h
  · simp at h
  next he =>
  obtain ⟨c, hc, heq⟩ := bind_ok.mp h
  obtain rfl : c = next := by simpa [pure, Except.pure] using heq
  exact ⟨_, .parkCold (by tauto) he, hc⟩

variable {er : UInt64} {oi : String} {an : ResumeResult}

theorem raisePlan_begins {c : UInt64} {v : RunView} (id : String)
    (h : raisePlan er c run = .ok ⟨some next, v⟩) : Begins (.raise id er c) run next := by
  unfold raisePlan at h
  obtain ⟨_, h⟩ := check_ok.mp h
  split at h
  · simp at h
  split at h
  · simp at h
  next hc =>
  obtain ⟨ch, hh, heq⟩ := bind_ok.mp h
  obtain ⟨rfl, -⟩ : ch = next ∧ _ := by simpa [pure, Except.pure] using heq
  exact ⟨_, .raise (UInt64.not_le.mp hc), hh⟩

theorem beginResumePlan_begins {leaseMs : UInt64} (id : String)
    (h : beginResumePlan er oi ms leaseMs run = .ok ⟨some next, an⟩) :
    Begins (.beginResume id er oi ms leaseMs) run next ∧ next.state = an.state := by
  unfold beginResumePlan at h
  split at h
  · obtain ⟨_, _, heq⟩ := bind_ok.mp h
    simp [pure, Except.pure] at heq
  next hn =>
  obtain ⟨_, h⟩ := check_ok.mp h
  split at h
  · simp at h
  next hp =>
  split at h
  · simp at h
  next he =>
  obtain ⟨changed, hh, heq⟩ := bind_ok.mp h
  obtain ⟨rfl, rfl⟩ : changed = next ∧ _ := by simpa [pure, Except.pure] using heq
  refine ⟨⟨_, .beginResume hn (by tauto) he, hh⟩, ?_⟩
  obtain ⟨revision, rfl⟩ := advanceRevision_eq_with hh
  by_cases hc : run.state = "cold_parked" <;> simp [hc, ResumeResult.state]

theorem finalizeResumePlan_begins {succeeded : Bool}
    (h : finalizeResumePlan er oi succeeded run = .ok ⟨some next, an⟩) :
    Begins (.finalizeResume run.id er oi succeeded) run next ∧
      next.state = an.state ∧ an.state ≠ "resuming" := by
  unfold finalizeResumePlan at h
  split at h
  · simp at h
  next attempt ha =>
  obtain ⟨hop, h⟩ := check_ok.mp h
  split at h
  · obtain ⟨_, _, heq⟩ := bind_ok.mp h
    simp [pure, Except.pure] at heq
  next hr =>
  obtain ⟨he, h⟩ := check_ok.mp h
  obtain ⟨changed, hc, heq⟩ := bind_ok.mp h
  obtain ⟨rfl, rfl⟩ : changed = next ∧ _ := by simpa [pure, Except.pure] using heq
  simp only [requireRevision, require_ok, beq_iff_eq] at hop he
  refine ⟨⟨_, .finalizeResume ha hop (not_not.mp hr) he, hc⟩, ?_⟩
  obtain ⟨revision, rfl⟩ := advanceRevision_eq_with hc
  cases succeeded
  · exact ⟨rfl, by decide⟩
  · exact ⟨rfl, by decide⟩

end

/-- What the reaper makes of a record: a claim was released, or the Run is disposed. -/
inductive Reaped (run next : Run) : Prop where
  | claim {cleanup : List CleanupEntry} (reapable : run.Reapable)
    (completed : ∃ entry ∈ cleanup, entry.completed = true)
    (advance : advanceRevision { run with cleanup } = .ok next)
  | whole (reapable : run.Reapable)
    (advance : advanceRevision { run with state := "disposed" } = .ok next)

theorem Reaped.begins {a : CleanupAdapter} {listing : List String → List String} {nom : UInt64}
    (h : Reaped run next) :
    Begins (.reap a listing nom) run next := by
  cases h with
  | claim hr hc ha => exact ⟨_, .claim hr hc, ha⟩
  | whole hr ha => exact ⟨_, .dispose hr, ha⟩

/-- What a request makes of the record of its Run, as it was decided. -/
inductive Replaces (uuid : String → Option String) (sha256 : Sha256) : Call → Run → Run → Prop where
  | attach {session run next} (plan : attachPlan session run = .ok ⟨some next, ()⟩) :
    Replaces uuid sha256 (.attach session) run next
  | reserve {reservation nowMs run next answer}
    (checked : validateReservation uuid reservation = .ok ())
    (plan : reservePlan sha256 reservation nowMs run = .ok ⟨some next, answer⟩) :
    Replaces uuid sha256 (.reserve reservation nowMs) run next
  | confirm {token mutationId issueId run next}
    (plan : confirmPlan sha256 token mutationId issueId run = .ok ⟨some next, ()⟩) :
    Replaces uuid sha256 (.confirm run.id token mutationId issueId) run next
  | release {token mutationId run next}
    (plan : releasePlan sha256 token mutationId run = .ok ⟨some next, ()⟩) :
    Replaces uuid sha256 (.release run.id token mutationId) run next
  | parkCold {draft nowMs run next} (plan : parkColdPlan draft nowMs run = .ok ⟨some next, ()⟩) :
    Replaces uuid sha256 (.parkCold draft nowMs) run next
  | raise {expectedRevision ceiling run next view}
    (plan : raisePlan expectedRevision ceiling run = .ok ⟨some next, view⟩) :
    Replaces uuid sha256 (.raise run.id expectedRevision ceiling) run next
  | beginResume {expectedRevision operationId nowMs leaseMs run next answer} (lease : leaseMs ≠ 0)
    (plan : beginResumePlan expectedRevision operationId nowMs leaseMs run =
      .ok ⟨some next, answer⟩) :
    Replaces uuid sha256 (.beginResume run.id expectedRevision operationId nowMs leaseMs) run next
  | finalizeResume {expectedRevision operationId succeeded run next answer}
    (plan : finalizeResumePlan expectedRevision operationId succeeded run =
      .ok ⟨some next, answer⟩) :
    Replaces uuid sha256 (.finalizeResume run.id expectedRevision operationId succeeded) run next
  | reap {adapter listing nowMs run next} (reaped : Reaped run next) :
    Replaces uuid sha256 (.reap adapter listing nowMs) run next

theorem Replaces.begins {uuid : String → Option String} {sha256 : Sha256} {c : Call}
    (h : Replaces uuid sha256 c run next) : Begins c run next := by
  cases h with
  | attach hp => exact attachPlan_begins hp
  | reserve hc hp =>
    simp only [validateReservation, check_ok, require_ok, Bool.and_eq_true, bne_iff_ne] at hc
    exact reservePlan_begins hc.2.2.2.2 hp
  | confirm hp => exact confirmPlan_begins _ hp
  | release hp => exact releasePlan_begins _ hp
  | parkCold hp => exact parkColdPlan_begins hp
  | raise hp => exact raisePlan_begins _ hp
  | beginResume _ hp => exact (beginResumePlan_begins _ hp).1
  | finalizeResume hp => exact (finalizeResumePlan_begins hp).1
  | reap hr => exact hr.begins

/-! ### Requests keep what their writes keep -/

section

variable {u : String → Option String} {sha256 : Sha256} {st : RunStore} {α : Type}
  {m : RunStore → Prop}

theorem wp_locked {op : Action α} {p : Program.Post RunStore RunStoreError α} (h : Wp op
      ⟨fun a s => p.value a s ∧ p.error .io s ∧ p.crashed s, p.error, p.crashed⟩ st)
      (he : p.error .io st) (hc : p.crashed st) : Wp (locked op) p st := by
  unfold locked
  apply wp_bind
  refine wp_probe ?_ he hc
  apply wp_bind
  refine h.mono ?_ (fun _ _ hs => hs) (fun _ hs => hs)
  rintro a s ⟨hv, he, hc⟩
  apply wp_bind
  exact wp_probe (wp_pure.mpr hv) he hc

theorem reads_loadRun (id : String) :
    Reads (loadRun u id) st fun run => st.lookup id = some run ∧ run.id = id := by
  unfold loadRun
  refine (reads_ofExcept fun _ h => h).bind fun _ _ => ?_
  refine (reads_query fun _ h => h).bind fun f hf => ?_
  obtain rfl := ok.inj hf
  cases hr : st.lookup id with
  | none => exact reads_fail
  | some run =>
    refine (reads_ofExcept fun _ h => h).bind fun _ hv => ?_
    simp only [require_ok, Bool.and_eq_true, beq_iff_eq] at hv
    exact reads_pure ⟨rfl, hv.1.1.2⟩

/-- What an update that was answered did. -/
def Answered (id : String) (decide : Run → Except RunStoreError (Plan α)) (before : RunStore)
    (answer : α) (after : RunStore) : Prop :=
  ∃ run plan, before.lookup id = some run ∧ run.id = id ∧ decide run = .ok plan ∧
    answer = plan.answer ∧ after = plan.next.elim before fun next => before.insert next.id next

/-- Whatever befalls an update, it did nothing or what it decided. -/
theorem wp_update (id : String) (d : Run → Except RunStoreError (Plan α)) : Wp (update u id d)
      ⟨Answered id d st, fun _ s => s = st ∨ ∃ a, Answered id d st a s,
        fun s => s = st ∨ ∃ a, Answered id d st a s⟩ st := by
  unfold update
  refine wp_locked ?_ (.inl rfl) (.inl rfl)
  refine (reads_loadRun id).wp_bind ?_ (fun _ => .inl rfl) (.inl rfl)
  rintro run ⟨hr, hi⟩
  apply wp_bind
  refine wp_ofExcept ?_ (fun _ _ => .inl rfl)
  intro p hp
  have hd : Answered id d st p.answer (p.next.elim st fun next => st.insert next.id next) :=
    ⟨run, p, hr, hi, hp, rfl, rfl⟩
  dsimp only
  split
  · next hn =>
    rw [hn] at hd
    exact wp_pure.mpr ⟨hd, .inl rfl, .inl rfl⟩
  · next next hn =>
    rw [hn] at hd
    apply wp_bind
    refine wp_write ?_ (.inl rfl) (.inr ⟨_, hd⟩) (.inl rfl)
    exact wp_pure.mpr ⟨hd, .inr ⟨_, hd⟩, .inr ⟨_, hd⟩⟩

/-- What an update after a check keeps. -/
theorem wp_check_update_keeps {id : String} {c : Except RunStoreError Unit}
    {d : Run → Except RunStoreError (Plan α)} (h : m st)
    (hw : c = .ok () → ∀ run next a, st.lookup run.id = some run → run.id = id →
      d run = .ok ⟨some next, a⟩ → m (st.insert next.id next)) :
    Wp (do ofExcept c; update u id d) ⟨fun _ => m, fun _ => m, m⟩ st := by
  apply wp_bind
  refine wp_ofExcept ?_ (fun _ _ => h)
  intro _ hc
  have ha : ∀ a s, Answered id d st a s → m s := by
    rintro a s ⟨run, ⟨next, a⟩, hr, hi, hp, rfl, rfl⟩
    cases next with
    | none => exact h
    | some next => exact hw hc run next a (hi.symm ▸ hr) hi hp
  have ho : ∀ s, s = st ∨ (∃ a, Answered id d st a s) → m s := by
    rintro s (rfl | ⟨a, hs⟩)
    · exact h
    · exact ha a s hs
  exact (wp_update id d).mono (fun a s => ha a s) (fun _ => ho) ho

theorem wp_admitRun_keeps {a : RunAdmission} {t : String} (h : m st)
    (hw : validateAdmission u a = .ok () → st.lookup a.id = none →
      m (st.insert a.id (admittedRun sha256 a t))) : Wp (admitRun u sha256 a t)
      ⟨fun _ => m, fun _ => m, m⟩ st := by
  unfold admitRun
  apply wp_bind
  refine wp_ofExcept (fun _ hv => ?_) (fun _ _ => h)
  apply wp_bind
  refine wp_ofExcept (fun _ _ => ?_) (fun _ _ => h)
  refine wp_locked ?_ h h
  apply wp_bind
  refine wp_observe.mpr ?_
  dsimp only
  split
  · refine (reads_loadRun _).wp_bind (fun s _ => ?_) (fun _ => h) h
    exact wp_ofExcept (fun _ _ => ⟨h, h, h⟩) (fun _ _ => h)
  · next ha =>
    have hn := hw hv (by simpa using ha)
    exact wp_write ⟨hn, hn, hn⟩ h hn h

variable {cl : CleanupAdapter} {listing : List String → List String} {nm : UInt64}

/-- What releasing the claims of a Run keeps, and the record it leaves. -/
theorem wp_releaseClaims_keeps {run : Run} {done entries : List CleanupEntry}
    (hw : ∀ s run next, s.lookup run.id = some run → Reaped run next → m s →
      m (s.insert next.id next)) (h : m st) (hu : st.lookup run.id = some run) (hr : run.Reapable)
    (hc : run.cleanup = done ++ entries) : Wp (releaseClaims cl run done entries)
      ⟨fun result s => m s ∧ ∀ released, result = .ok released →
          s.lookup released.id = some released ∧ released.Reapable, fun _ => m, m⟩ st := by
  induction entries generalizing st run done with
  | nil =>
    refine wp_pure.mpr ⟨h, ?_⟩
    rintro released ⟨⟩
    exact ⟨hu, hr⟩
  | cons entry rest ih =>
    rw [releaseClaims]
    split
    · exact ih h hu hr (by simp [hc])
    split
    · exact wp_fail.mpr h
    split
    · exact wp_pure.mpr ⟨h, by simp⟩
    apply wp_bind
    refine wp_ofExcept ?_ (fun _ _ => h)
    intro next hn
    have hk := hw st run next hu (.claim hr ⟨{ entry with completed := true }, by simp, rfl⟩ hn) h
    obtain ⟨revision, rfl⟩ := advanceRevision_eq_with hn
    apply wp_bind
    refine wp_write ?_ h hk h
    exact ih hk (AList.lookup_insert st) hr rfl

theorem reapable_of_deadline {run : Run} (h : ¬ run.deadline.all (nm < ·)) :
    run.Reapable := by
  unfold Run.deadline at h
  split at h
  · next hs => exact .inl hs
  split at h
  · next hs => exact .inr hs
  · simp at h

theorem wp_reapRun_keeps {id : String} {su : ReapSummary}
    (hw : ∀ s run next, s.lookup run.id = some run → Reaped run next → m s →
      m (s.insert next.id next)) (h : m st) : Wp (reapRun u cl nm id su)
      ⟨fun _ => m, fun _ => m, m⟩ st := by
  unfold reapRun
  refine (reads_loadRun id).wp_bind ?_ (fun _ => h) h
  rintro run ⟨hu, rfl⟩
  split
  · exact wp_pure.mpr h
  next hd =>
  apply wp_bind
  refine (wp_releaseClaims_keeps hw h hu (reapable_of_deadline hd)
    (List.nil_append run.cleanup).symm).mono ?_ (fun _ _ hs => hs) (fun _ hs => hs)
  rintro (f | r) s ⟨hs, hr⟩
  · exact wp_pure.mpr hs
  · obtain ⟨hf, he⟩ := hr r rfl
    apply wp_bind
    refine wp_ofExcept ?_ (fun _ _ => hs)
    intro next hn
    have hk := hw s r next hf (.whole he hn) hs
    apply wp_bind
    exact wp_write (wp_pure.mpr hk) hs hk hs

theorem wp_reapRuns_keeps {ids : List String} {su : ReapSummary}
    (hw : ∀ s run next, s.lookup run.id = some run → Reaped run next → m s →
      m (s.insert next.id next)) (h : m st) : Wp (reapRuns u cl nm ids su)
      ⟨fun _ => m, fun _ => m, m⟩ st := by
  induction ids generalizing st su with
  | nil => exact wp_pure.mpr h
  | cons id ids ih =>
    rw [reapRuns]
    split
    · apply wp_bind
      exact (wp_reapRun_keeps hw h).mono (fun _ _ hs => ih hs) (fun _ _ hs => hs) (fun _ hs => hs)
    · exact ih h

/-- What a request keeps, whatever befalls it, when its writes keep it. Only the reaper writes
to a store that it has already changed. -/
theorem step_keeps_of_replaces {ca : Call} (fs : List Fault) (h : m st)
    (hn : ∀ a t, ca = .admitRun a t → validateAdmission u a = .ok () → st.lookup a.id = none →
      m (st.insert a.id (admittedRun sha256 a t)))
    (hw : ∀ s run next, s = st ∨ ca.Reaps → s.lookup run.id = some run →
      Replaces u sha256 ca run next → m s → m (s.insert next.id next)) :
    m (step u sha256 st (ca, fs)) := by
  cases ca with
  | admitRun a t => exact (wp_admitRun_keeps h (hn a t rfl)).leaves fs
  | attach se =>
    refine Wp.leaves (wp_check_update_keeps h ?_) fs
    exact fun _ run next _ hu _ hp => hw st run next (.inl rfl) hu (.attach hp) h
  | reserve r nm =>
    refine Wp.leaves (wp_check_update_keeps h ?_) fs
    exact fun hc run next _ hu _ hp =>
      hw st run next (.inl rfl) hu (.reserve hc hp) h
  | confirm ri t mid ii =>
    refine Wp.leaves (wp_check_update_keeps h ?_) fs
    rintro _ run next _ hu rfl hp
    exact hw st run next (.inl rfl) hu (.confirm hp) h
  | release ri t mid =>
    refine Wp.leaves (wp_check_update_keeps h ?_) fs
    rintro _ run next _ hu rfl hp
    exact hw st run next (.inl rfl) hu (.release hp) h
  | parkCold d nm =>
    refine Wp.leaves (wp_check_update_keeps h ?_) fs
    exact fun _ run next _ hu _ hp => hw st run next (.inl rfl) hu (.parkCold hp) h
  | raise id exr c =>
    refine Wp.leaves (wp_check_update_keeps h ?_) fs
    rintro _ run next _ hu rfl hp
    exact hw st run next (.inl rfl) hu (.raise hp) h
  | beginResume id exr opi nm lm =>
    refine Wp.leaves (wp_check_update_keeps h ?_) fs
    rintro hc run next _ hu rfl hp
    simp only [check_ok, require_ok, bne_iff_ne] at hc
    exact hw st run next (.inl rfl) hu (.beginResume hc.2.2 hp) h
  | finalizeResume id exr opi su =>
    refine Wp.leaves (wp_check_update_keeps h ?_) fs
    rintro _ run next _ hu rfl hp
    exact hw st run next (.inl rfl) hu (.finalizeResume hp) h
  | reap cl listing nm =>
    have he : ∀ s run next, s.lookup run.id = some run → Reaped run next → m s →
        m (s.insert next.id next) := fun s run next hu hr =>
      hw s run next (.inr trivial) hu (.reap hr)
    refine Wp.leaves ?_ fs
    unfold reapExpired
    refine wp_locked ?_ h h
    apply wp_bind
    refine wp_query (fun _ _ => ?_) (fun _ _ => h) h h
    exact (wp_reapRuns_keeps he h).mono (fun _ _ hs => ⟨hs, hs, hs⟩) (fun _ _ hs => hs)
      (fun _ hs => hs)

end

end Louiselm.Capture
