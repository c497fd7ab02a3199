import Louiselm.Base.Runs
import Louiselm.Workflow.Executor

/-!
# Executors along every run

The executor of `Workflow/Executor` under calls, answers of its ledger and settlements in any
order: when its statuses are final.
-/

namespace Louiselm.Workflow
open Base Base.Lua Running Executor

/-! ### Refusals -/

section

variable {run : Running}

/-- An inactive executor refuses to advance, and to do anything with a Generator. -/
theorem refusal_of_inactive (h : run.executor.status ≠ .active) (c : Bool) :
    ∃ m, run.executor.refusal c = some m := by
  have ha : ∃ m, run.executor.activeError = some m := by
    unfold activeError
    cases hs : run.executor.status with
    | active => exact absurd hs h
    | _ => exact ⟨_, rfl⟩
  obtain ⟨m, hm⟩ := ha
  unfold refusal
  cases run.executor.readyError c with
  | none => exact ⟨m, hm⟩
  | some o => exact ⟨o, rfl⟩

theorem advance_of_inactive (h : run.executor.status ≠ .active) (oun : String) (mid : Option String)
    (c : Bool) : (run.advance oun mid c).2 = run := by
  obtain ⟨m, hm⟩ := refusal_of_inactive h c
  simp only [advance, hm]

theorem beginGenerator_of_inactive (h : run.executor.status ≠ .active) (mid : String)
    (c : Bool) : (run.beginGenerator mid c).2 = run := by
  obtain ⟨m, hm⟩ := refusal_of_inactive h c
  simp only [beginGenerator, hm]

theorem recordGeneratorOutput_of_inactive (h : run.executor.status ≠ .active) (oi : String)
    (c : Bool) : (run.recordGeneratorOutput oi c).2 = run := by
  obtain ⟨m, hm⟩ := refusal_of_inactive h c
  simp only [recordGeneratorOutput, hm]

theorem endGenerator_of_inactive (h : run.executor.status ≠ .active) (c : Bool) :
    (run.endGenerator c).2 = run := by
  obtain ⟨m, hm⟩ := refusal_of_inactive h c
  simp only [endGenerator, hm]

end

/-! ### Final statuses -/

/-- A status that a Run does not leave. -/
def Status.final : Status → Bool
  | .completed => true
  | .cancelled => true
  | .disposed => true
  | _ => false

/-- A status in which a Run stands still. -/
def Status.frozen : Status → Bool
  | .parked => true
  | .cancelled => true
  | .disposed => true
  | _ => false

/-- A final status stays or becomes the disposed one. -/
def StaysFinal (before after : Executor) : Prop :=
  before.status.final = true → after.status = before.status ∨ after.status = .disposed

/-- Stage, counts and history are what they were. -/
structure SamePlace (before after : Executor) : Prop where
  stage : after.currentStage = before.currentStage
  iterations : after.iterations = before.iterations
  history : after.history = before.history

/-- What a step keeps of an executor. -/
structure Kept (before after : Executor) : Prop where
  final : StaysFinal before after
  frozen : before.status.frozen = true → SamePlace before after

theorem SamePlace.refl (e : Executor) : SamePlace e e := ⟨rfl, rfl, rfl⟩

theorem Kept.refl (e : Executor) : Kept e e := ⟨fun _ => .inl rfl, fun _ => .refl _⟩

/-- An answer comes in time: a charge is consumed while the Run moves, and nothing is exhausted
once it has ended. -/
def LedgerCall.InTime (ledgerCall : LedgerCall) (status : Status) (state : Option String) : Prop :=
  match ledgerCall with
  | .consume .. => (state = some "consumed" → status ≠ .parked ∧ status ≠ .cancelled) ∧
      (state = some "exhausted" → status ≠ .cancelled ∧ status ≠ .completed)
  | .reserve .. => state = some "exhausted" → status ≠ .cancelled ∧ status ≠ .completed
  | _ => True

/-- A cancelled Run is not parked, and answers come in time. -/
def Timely (run : Running) : Event → Prop
  | .park => run.executor.status ≠ .cancelled
  | .answer index answer => ∀ operation ledgerCall,
      run.inFlight[index]? = some (operation, ledgerCall) →
        ledgerCall.InTime run.executor.status answer.state
  | _ => True

section

variable {run : Running} {op : Nat}

theorem kept_of_inactive {l : Running} (h : run.executor.status ≠ .active → l = run) :
    Kept run.executor l.executor := by
  by_cases ha : run.executor.status = .active
  · constructor
    · intro hi
      rw [ha] at hi
      cases hi
    · intro hf
      rw [ha] at hf
      cases hf
  · rw [h ha]
    exact .refl _

/-- A Run may be parked where it has not ended. -/
theorem kept_parked_iff (ho : run.executor.status ≠ .disposed) :
    Kept run.executor (run.become .parked).executor ↔
      run.executor.status ≠ .cancelled ∧ run.executor.status ≠ .completed := by
  constructor
  · intro h
    have hf := h.final
    unfold StaysFinal at hf
    constructor
    · intro hs
      simp [hs, become, Status.final] at hf
    · intro hs
      simp [hs, become, Status.final] at hf
  · rintro ⟨hc, hco⟩
    refine ⟨fun hf => ?_, fun _ => ⟨rfl, rfl, rfl⟩⟩
    cases hs : run.executor.status with
    | active => rw [hs] at hf; cases hf
    | parked => exact .inl rfl
    | completed => exact absurd hs hco
    | cancelled => exact absurd hs hc
    | disposed => exact absurd hs ho

/-- A transition is right where the Run does not stand still. -/
theorem kept_applyTransition_iff {e m : Executor} (hs : m.status = e.status)
    (hh : m.history = e.history) (o : Value) (s : String) (oun : Option Value) (ex : Bool)
    (r : Option String) : Kept e (m.applyTransition o s oun ex r).2 ↔ e.status.frozen = false := by
  constructor
  · intro h
    by_contra hf
    have hp := (h.frozen (Bool.eq_true_of_not_eq_false hf)).history
    unfold applyTransition at hp
    split at hp <;> simp [hh] at hp
  · intro hf
    refine ⟨fun hi => ?_, fun h => by simp [hf] at h⟩
    have hc : e.status = .completed := by
      cases hv : e.status <;> simp_all [Status.final, Status.frozen]
    unfold applyTransition
    split
    · exact .inl hc.symm
    · exact .inl hs

theorem kept_charged_iff (sn oun : String) (o : Value) (u : Nat) (a : LedgerAnswer) :
    Kept run.executor (run.charged op sn o oun u a).executor ↔
      (LedgerCall.consume sn o oun u).InTime run.executor.status
        a.state := by
  unfold charged LedgerCall.InTime
  split
  · next hd =>
    rw [hd]
    exact ⟨fun _ => by simp, fun _ => .refl _⟩
  · next ho =>
    split
    · next he =>
      rw [he]
      refine (kept_parked_iff ho).trans ?_
      simp
    · next hn =>
      split
      · next ht => exact ⟨fun _ => ⟨fun h => absurd h ht, fun h => absurd h hn⟩, fun _ => .refl _⟩
      · next hc =>
        refine (kept_applyTransition_iff (by rfl) (by rfl) o sn _ false none).trans ?_
        have hst : a.state = some "consumed" := not_not.mp hc
        rw [hst]
        cases hs : run.executor.status with
        | disposed => exact absurd hs ho
        | _ => simp [Status.frozen]

theorem kept_reserved_iff (mid : String) (m : Number) (a : LedgerAnswer) :
    Kept run.executor (run.reserved op mid m a).executor ↔
      (LedgerCall.reserve mid m).InTime run.executor.status a.state := by
  unfold reserved LedgerCall.InTime
  split
  · next hd =>
    rw [hd]
    exact ⟨fun _ => by simp, fun _ => .refl _⟩
  · next ho =>
    split
    · next he =>
      rw [he]
      refine (kept_parked_iff ho).trans ?_
      simp
    · next hn =>
      refine ⟨fun _ h => absurd h hn, fun _ => ?_⟩
      split
      · exact .refl _
      · exact ⟨fun _ => .inl rfl, fun _ => ⟨rfl, rfl, rfl⟩⟩

theorem kept_confirmed (g : Nat) (a : LedgerAnswer) :
    Kept run.executor (run.confirmed op g a).executor := by
  unfold confirmed
  split
  · split
    · exact .refl _
    · split
      · exact .refl _
      · exact ⟨fun _ => .inl rfl, fun _ => ⟨rfl, rfl, rfl⟩⟩
  · exact .refl _

theorem kept_releasedEnded (a : LedgerAnswer) :
    Kept run.executor (run.releasedEnded op a).executor := by
  unfold releasedEnded
  dsimp only
  split
  · exact ⟨fun _ => .inl rfl, fun _ => ⟨rfl, rfl, rfl⟩⟩
  · exact .refl _

/-- What an answer keeps, exactly. -/
theorem kept_answered_iff (run : Running) (op : Nat) (lc : LedgerCall) (a : LedgerAnswer) :
    Kept run.executor (run.answered op lc a).executor ↔ lc.InTime run.executor.status a.state := by
  cases lc with
  | consume sn o oun u => exact kept_charged_iff ..
  | reserve mid m => exact kept_reserved_iff ..
  | confirm g => exact iff_of_true (kept_confirmed g a) trivial
  | releaseEnded g mid => exact iff_of_true (kept_releasedEnded a) trivial
  | releaseDisposed g mid => exact iff_of_true (.refl _) trivial

theorem kept_park_iff :
    Kept run.executor run.park.2.executor ↔ run.executor.status ≠ .cancelled := by
  unfold Running.park
  split
  · next hs => exact iff_of_true (.refl _) (by rw [hs]; decide)
  · next hs => exact iff_of_true (.refl _) (by rw [hs]; decide)
  · next hd hc =>
    refine (kept_parked_iff hd).trans ?_
    exact ⟨And.left, fun h => ⟨h, hc⟩⟩

theorem kept_cancel : Kept run.executor run.cancel.2.executor := by
  unfold cancel
  split
  · exact .refl _
  · exact .refl _
  · next hd hc =>
    refine ⟨fun hf => ?_, fun _ => ⟨rfl, rfl, rfl⟩⟩
    cases hs : run.executor.status with
    | active => rw [hs] at hf; cases hf
    | parked => rw [hs] at hf; cases hf
    | completed => exact absurd hs hc
    | cancelled => exact .inl rfl
    | disposed => exact absurd hs hd

theorem kept_resume : Kept run.executor run.resume.2.executor := by
  unfold resume
  split
  · exact .refl _
  · exact .refl _
  · exact .refl _
  · exact .refl _
  · next hs =>
    refine ⟨fun hf => ?_, fun _ => ⟨rfl, rfl, rfl⟩⟩
    rw [hs] at hf
    cases hf

theorem kept_dispose (c : Bool) : Kept run.executor (run.dispose c).2.executor := by
  have hd : ∀ l : Executor, l.status = .disposed → SamePlace run.executor l →
      Kept run.executor l := fun l hs hp => ⟨fun _ => .inr hs, fun _ => hp⟩
  unfold dispose
  split
  · exact .refl _
  · split
    · exact .refl _
    · dsimp only
      split
      · exact hd _ rfl ⟨rfl, rfl, rfl⟩
      · split
        · exact hd _ rfl ⟨rfl, rfl, rfl⟩
        · exact hd _ rfl ⟨rfl, rfl, rfl⟩

/-- What a step keeps, exactly. -/
theorem kept_step_iff (e : Event) : Kept run.executor (run.step e).executor ↔ Timely run e := by
  cases e with
  | advance oun mid c =>
    exact iff_of_true (kept_of_inactive fun h => advance_of_inactive h ..) trivial
  | beginGenerator mid c =>
    exact iff_of_true (kept_of_inactive fun h => beginGenerator_of_inactive h ..) trivial
  | recordGeneratorOutput oi c =>
    exact iff_of_true (kept_of_inactive fun h => recordGeneratorOutput_of_inactive h ..) trivial
  | endGenerator c =>
    exact iff_of_true (kept_of_inactive fun h => endGenerator_of_inactive h c) trivial
  | park => exact kept_park_iff
  | cancel => exact iff_of_true kept_cancel trivial
  | resume => exact iff_of_true kept_resume trivial
  | dispose c => exact iff_of_true (kept_dispose c) trivial
  | answer i answer =>
    change Kept run.executor (run.answer i answer).executor ↔ ∀ op lc,
      run.inFlight[i]? = some (op, lc) → _
    unfold Running.answer
    cases hc : run.inFlight[i]? with
    | none => exact iff_of_true (.refl _) fun _ _ h => by simp at h
    | some x =>
      obtain ⟨op, lc⟩ := x
      dsimp only
      have ha := kept_answered_iff { run with inFlight := run.inFlight.eraseIdx i } op lc answer
      refine ha.trans ?_
      simp
  | settle i =>
    refine iff_of_true ?_ trivial
    change Kept run.executor (run.deliver i).executor
    unfold deliver
    split
    · exact .refl _
    · exact ⟨fun _ => .inl rfl, fun _ => ⟨rfl, rfl, rfl⟩⟩

end

/-! ### Runs -/

/-- Along a run a final status lasts, and a Run that stands still stays where it is. -/
structure Lasting (run : Running) (events : List Event) : Prop where
  final : ∀ before between after, events = before ++ between ++ after →
    StaysFinal (before.foldl step run).executor ((before ++ between).foldl step run).executor
  frozen : ∀ before event after, events = before ++ event :: after →
    (before.foldl step run).executor.status.frozen = true →
    SamePlace (before.foldl step run).executor ((before ++ [event]).foldl step run).executor

theorem StaysFinal.trans {x s t : Executor} (h : StaysFinal x s)
    (hl : StaysFinal s t) : StaysFinal x t := by
  intro hf
  rcases h hf with hs | hd
  · rcases hl (hs ▸ hf) with ha | ht
    · exact .inl (ha.trans hs)
    · exact .inr ht
  · have he : s.status.final = true := by rw [hd]; rfl
    rcases hl he with ha | ht
    · exact .inr (ha.trans hd)
    · exact .inr ht

/-- What lasts along a run is what each step keeps. -/
theorem lasting_iff {run : Running} {events : List Event} : Lasting run events ↔
    Throughout step (fun run e => Kept run.executor (run.step e).executor) run
      events := by
  constructor
  · intro h
    by_contra hn
    obtain ⟨pre, e, l, rfl, hs⟩ := exists_of_not_throughout hn
    refine hs ⟨?_, fun hf => ?_⟩
    · have hi := h.final pre [e] l (by simp)
      rwa [List.foldl_append] at hi
    · have hp := h.frozen pre e l rfl hf
      rwa [List.foldl_append] at hp
  · intro h
    constructor
    · rintro pre b l rfl
      have hl := (throughout_append.mp (throughout_append.mp h).1).2
      rw [List.foldl_append]
      generalize pre.foldl step run = s at hl
      clear h
      induction b generalizing s with
      | nil => exact fun _ => .inl rfl
      | cons e b ih => exact hl.1.final.trans (ih _ hl.2)
    · rintro pre e l rfl hf
      rw [List.foldl_append]
      exact h.at.frozen hf

/-- Whatever the order of calls, late answers and settlements: the statuses of an executor are
final and frozen where they claim to be exactly where a cancelled Run is not parked, no charge
is consumed while the Run is parked or cancelled, and no charge or reservation is exhausted
once it is cancelled or completed. -/
theorem statuses_last_iff (run : Running) (events : List Event) :
    Lasting run events ↔ Throughout step Timely run events := by
  rw [lasting_iff]
  simp only [kept_step_iff]

/-! ### An example -/

/-- The outcome of the sample that returns. -/
def sampleAgain : Value :=
  .table [(.str "name", .str "again"), (.str "to", .str "plan"), (.str "back-edge", .bool true),
    (.str "max-iterations", .num (.ofNat 2)), (.str "on-exhausted", .str "done")]

def sampleDone : Value := .table [(.str "name", .str "done"), (.str "terminal", .bool true)]

/-- One stage that generates work and returns to itself at most twice. -/
def sampleManifest : Manifest where
  blocks := [("plan", .table [(.str "workflow", .str "w"), (.str "entry", .bool true),
    (.str "park-expiry", .str "1h"),
    (.str "generated-work", .table [(.str "max", .num (.ofNat 9))]),
    (.str "generates", .table [(.str "max", .num (.ofNat 3))]),
    (.str "outcomes", .array [sampleAgain, sampleDone])])]
  nodup := List.nodup_singleton _

def sampleLedger : Ledger := ⟨true, true, true, true⟩

/-- The executor of the sample. -/
def sampleExecutor : Executor := .start (escape "w" sampleManifest) "plan" sampleLedger

theorem new_sample : new (fun _ => "") "w" sampleManifest sampleLedger =
    .ok sampleExecutor := by
  have ho : (validate (fun _ => "") "w" (escape "w" sampleManifest)).ok = true := by decide +kernel
  have he : findEntry (escape "w" sampleManifest) = some "plan" := by decide +kernel
  unfold new
  simp [ho, he, sampleExecutor]

/-- A cancelled Run is active again after a Park and a resume, and a Run that is parked while a
charge is under way moves on when the charge is consumed. -/
theorem status_revived : new (fun _ => "") "w" sampleManifest sampleLedger = .ok sampleExecutor ∧
      ¬ Lasting (.start sampleExecutor) [.cancel, .park, .resume] ∧
      ¬ Lasting (.start sampleExecutor) [.advance "again" (some "m") true, .park,
        .answer 0 ⟨some "consumed", true, none⟩] := by
  refine ⟨new_sample, fun h => ?_, fun h => ?_⟩
  · have hf := h.final [.cancel] [.park, .resume] [] rfl
    revert hf
    unfold StaysFinal
    decide +kernel
  · have hp := h.frozen [.advance "again" (some "m") true, .park]
      (.answer 0 ⟨some "consumed", true, none⟩) [] rfl
    have hh := congrArg List.length (hp (by decide +kernel)).history
    revert hh
    decide +kernel

end Louiselm.Workflow
