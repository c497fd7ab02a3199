import Louiselm.Capture.Accounting

/-!
# The lifecycle of a Run

A request to `capture-service/src/runs.rs` replaces at most one record, and the reaper
replaces records one after another. What one of these writes does to the lifecycle of the
Run it finds is said once, as a turn from one record to the next.
-/

namespace Louiselm.Capture
open Base Canonical

/-! ### Turns -/

/-- The reaper has released a claim of the Run. -/
def Run.Released (run : Run) : Prop := ∃ entry ∈ run.cleanup, entry.completed = true

/-- A Run is waiting for this resume operation to be finalized, at this revision. -/
def Run.Awaits (run : Run) (expectedRevision : UInt64) (operationId : String) : Prop :=
  run.revision = expectedRevision ∧
    ∃ attempt ∈ run.resumeAttempt, attempt.operationId = operationId ∧ attempt.result = "resuming"

/-- What one write of a request may do to the lifecycle of the record it replaces. -/
inductive Turn : Call → Run → Run → Prop where
  | counted {call run next} (state : next.state = run.state)
        (cleanup : next.cleanup = run.cleanup) :
    Turn call run next
  | attached {session run next} (before : run.state = "admitted") (state : next.state = "active")
    (cleanup : next.cleanup = run.cleanup) : Turn (.attach session) run next
  | exhausted {reservation nowMs run next} (before : run.state = "active")
    (state : next.state = "parked") (cleanup : next.cleanup = run.cleanup) :
    Turn (.reserve reservation nowMs) run next
  | coldParked {draft nowMs run next} (before : run.state = "active" ∨ run.state = "parked")
    (state : next.state = "cold_parked") (fresh : ¬ next.Released) :
    Turn (.parkCold draft nowMs) run next
  | unparked {id expectedRevision operationId nowMs leaseMs run next}
    (before : run.state = "parked") (state : next.state = "active")
    (cleanup : next.cleanup = run.cleanup) :
    Turn (.beginResume id expectedRevision operationId nowMs leaseMs) run next
  | resuming {id expectedRevision operationId nowMs leaseMs run next}
    (before : run.state = "cold_parked") (state : next.state = "resuming")
    (cleanup : next.cleanup = run.cleanup) :
    Turn (.beginResume id expectedRevision operationId nowMs leaseMs) run next
  | finalized {expectedRevision operationId} {succeeded : Bool} {run next}
    (awaits : run.Awaits expectedRevision operationId)
    (state : next.state = if succeeded then "active" else "cold_parked")
    (cleanup : next.cleanup = run.cleanup) :
    Turn (.finalizeResume run.id expectedRevision operationId succeeded) run next
  | released {adapter listing nowMs run next} (before : run.Reapable)
    (state : next.state = run.state) (later : next.Released) :
    Turn (.reap adapter listing nowMs) run next
  | disposed {adapter listing nowMs run next} (before : run.Reapable)
    (state : next.state = "disposed") (cleanup : next.cleanup = run.cleanup) :
    Turn (.reap adapter listing nowMs) run next

variable {run next : Run}

theorem Begins.turn {ca : Call} (h : Begins ca run next) : Turn ca run next := by
  obtain ⟨c, hv, hn⟩ := h
  obtain ⟨rev, rfl⟩ := advanceRevision_eq_with hn
  cases hv with
  | attach ha => exact .attached ha rfl rfl
  | exhaust hac _ => exact .exhausted hac rfl rfl
  | parkCold hb _ =>
    refine .coldParked hb rfl ?_
    rintro ⟨e, hm, hc⟩
    obtain ⟨ii, -, rfl⟩ := List.mem_map.mp hm
    simp at hc
  | beginResume _ hp _ =>
    by_cases ho : run.state = "cold_parked"
    · exact .resuming ho (by simp [ho]) rfl
    · exact .unparked (hp.resolve_right ho) (by simp [ho]) rfl
  | finalizeResume hw hop hre he =>
    exact .finalized ⟨he, _, hw, hop, hre⟩ rfl rfl
  | claim hr hc => exact .released hr rfl hc
  | dispose hr => exact .disposed hr rfl rfl
  | _ => exact .counted rfl rfl

/-! ### Writes -/

/-- One write of a request: a Run's first record, or a record that turned. -/
inductive Write (sha256 : Sha256) : Call → RunStore → RunStore → Prop where
  | created {admission token} {store : RunStore} (new : store.lookup admission.id = none) :
    Write sha256 (.admitRun admission token) store
      (store.insert admission.id (admittedRun sha256 admission token))
  | replaced {call run next} {store : RunStore} (found : store.lookup run.id = some run)
    (turn : Turn call run next) (id : next.id = run.id) :
    Write sha256 call store (store.insert next.id next)

/-- What a request keeps, with each of its writes summed up as a turn. -/
theorem step_keeps_of_write {u : String → Option String} {s2 : Sha256} {st : RunStore}
    {motive : RunStore → Prop} {c : Call} (fs : List Fault) (h : motive st)
    (hw : ∀ s s', s = st ∨ c.Reaps → Write s2 c s s' → motive s → motive s') :
    motive (step u s2 st (c, fs)) := by
  refine step_keeps_of_replaces fs h ?_ ?_
  · rintro a t rfl _ hfr
    exact hw st _ (.inl rfl) (.created hfr) h
  · intro s run next hf hu hr hs
    exact hw s _ hf (.replaced hu hr.begins.turn hr.begins.id) hs

end Louiselm.Capture
