import Mathlib.Data.List.Nodup
import Mathlib.Data.List.Perm.Basic
import Louiselm.Base.Runs
import Louiselm.Workflow.Run

/-!
# Disposal and refusals of a Run

What the calls of `Workflow/Run` must not do in any order: leave the disposed status, change
what a refusal leaves alone, or dispose of a worker before its timeout. Exactly the runs whose
steps are careful keep to it.
-/

namespace Louiselm.Workflow
open Base Base.Lua List Supervised

/-- Status, claims, generated work and Park record are the same. -/
structure Unchanged (before after : Run) : Prop where
  status : after.status = before.status
  claims : after.claims = before.claims
  generatedWork : after.generatedWork = before.generatedWork
  parkRecord : after.parkRecord = before.parkRecord

/-- Status, claims and generated work are the same. -/
structure OnlyRecord (before after : Run) : Prop where
  status : after.status = before.status
  claims : after.claims = before.claims
  generatedWork : after.generatedWork = before.generatedWork

/-- The event is a Park whose service answers at once that it failed. -/
def FailsAtOnce (state : Supervised) : RunEvent → Prop
  | .park (.answered false) => state.run.parkRecord ≠ none
  | .parkCold _ (.answered false) _ => state.run.status ≠ .parked
  | _ => False

/-- A Park that failed leaves the record there was before it, having found its own in place. -/
def Restores (state : Supervised) (park : PendingPark) (after : Run) : Prop :=
  match park.cold with
  | none => after.parkRecord = state.run.parkRecord
  | some cold => state.run.parkRecord = some cold.record ∧ after.parkRecord = cold.previous

/-- Disposal is final, and refusals and failures change nothing. -/
structure Settled (state : Supervised) (event : RunEvent) : Prop where
  final : state.run.status = .disposed → (state.step event).run.status = .disposed
  refused : ∀ error, (state.handle event).1 = some (.error error) →
    Unchanged state.run (state.step event).run
  failsAtOnce : FailsAtOnce state event → Unchanged state.run (state.step event).run
  failed : ∀ index park, event = .answer index false → state.parks[index]? = some park →
    OnlyRecord state.run (state.step event).run ∧ Restores state park (state.step event).run

/-- Every callback is called once, and a timer disposes of workers after the whole timeout of
its own cancel, which is the last one that was started. -/
structure Prompt (state : Supervised) : Prop where
  called : state.called.Nodup
  elapsed : ∀ disposal ∈ state.disposals,
    disposal.timer.startedAt + state.run.cancellationTimeoutMs ≤ disposal.time
  last : ∀ disposal ∈ state.disposals, disposal.last = some disposal.timer

/-- What a resume stores of what it is given is there already: claims that pass their check, and
then generated work that does. -/
def StoresNothing (run : Run) (claims generatedWork : Option Value) : Prop :=
  ∀ copied, claims.elim (.ok run.claims) (copyClaims <| some ·) = .ok copied → copied = run.claims ∧
    ∀ work, generatedWork.elim (.ok run.generatedWork)
        (fun given => (copyGeneratedWork (some given)).map some) = .ok work →
      work = run.generatedWork

/-- A step that goes none of the ways that go wrong: a Park is not confirmed after disposal, nor
fails when another cold Park has put its record in place; a timer that disposes of workers is
that of the last cancel; a resume is not refused after something new is stored; no worker fails
to be disposed of. -/
def Prudent (state : Supervised) : RunEvent → Prop
  | .answer index true => state.parks[index]? ≠ none → state.run.status ≠ .disposed
  | .answer index false => ∀ park cold, state.parks[index]? = some park →
      park.cold = some cold → state.run.parkRecord = some cold.record
  | .timer index look => ∀ timer, state.timers[index]? = some timer → state.isDue timer = true →
      state.run.status = .cancelling → state.run.unacknowledged look ≠ [] →
      state.cancels.head? = some timer
  | .acceptResume claims generatedWork => state.run.status ≠ .disposed →
      (∃ error, (state.run.acceptResume claims generatedWork).1 = .error error) →
      StoresNothing state.run claims generatedWork
  | .dispose look => state.run.status ≠ .disposed →
      ∀ worker ∈ state.run.workers, look.dispose worker = .ok ()
  | _ => True

/-! ### Single operations -/

theorem Unchanged.refl (run : Run) : Unchanged run run := ⟨rfl, rfl, rfl, rfl⟩

variable {state : Supervised} {ev : RunEvent}

/-- A step that changes none of what is protected settles. -/
theorem Settled.of_unchanged (h : Unchanged state.run (state.step ev).run)
    (ha : ∀ j, ev ≠ .answer j false) : Settled state ev where
  final hd := h.status.trans hd
  refused _ _ := h
  failsAtOnce _ := h
  failed j _ he _ := absurd he (ha j)

theorem adoptSession_unchanged (w : Nat) (iw : Bool) (run : Run) :
    Unchanged run (run.adoptSession w iw).2 := by
  unfold Run.adoptSession
  split
  · exact .refl run
  · split
    · exact .refl run
    · split
      · exact .refl run
      · exact ⟨rfl, rfl, rfl, rfl⟩

theorem createSession_unchanged (api : Bool) (c : Except String Nat) (state : Supervised) :
    Unchanged state.run (state.createSession api c).2.run := by
  unfold createSession
  split
  · exact .refl _
  · split
    · exact .refl _
    · split
      · exact .refl _
      · exact adoptSession_unchanged _ true state.run

/-- What a Park can come to. -/
inductive ParkResult (cold : Option ColdPark) (service : ServiceReply) (state : Supervised) :
    Except String Unit × Supervised → Prop where
  | disposed (h : state.run.status = .disposed) :
      ParkResult cold service state (.error "Run is disposed", state)
  | parked (h : state.run.status = .parked) : ParkResult cold service state (.ok (), state)
  | free (hdisposed : state.run.status ≠ .disposed) (hparked : state.run.status ≠ .parked)
      (h : state.run.parkRecord = none) :
      ParkResult cold service state (.ok (), state.become .parked)
  | refused (message : String) (hdisposed : state.run.status ≠ .disposed)
      (hparked : state.run.status ≠ .parked) (h : service = .refused message) :
      ParkResult cold service state (.error message, state)
  | started (hdisposed : state.run.status ≠ .disposed) (hparked : state.run.status ≠ .parked)
      (h : service = .started) :
      ParkResult cold service state (.ok (), { state with parks := state.parks ++ [⟨cold⟩] })
  | answered (ok : Bool) (hdisposed : state.run.status ≠ .disposed)
      (hparked : state.run.status ≠ .parked) (hrecord : state.run.parkRecord ≠ none)
      (h : service = .answered ok) :
      ParkResult cold service state (.ok (), state.complete ⟨cold⟩ ok)

theorem park_result (c : Option ColdPark) (s : ServiceReply) (state : Supervised) :
    ParkResult c s state (state.park c s) := by
  unfold Supervised.park
  split
  · rename_i ht
    exact .disposed ht
  · rename_i ht
    exact .parked ht
  · rename_i hd hp
    cases hr : state.run.parkRecord with
    | none => exact .free hd hp hr
    | some r =>
      have hs : state.run.parkRecord ≠ none := by simp [hr]
      cases s with
      | refused m => exact .refused m hd hp rfl
      | started => exact .started hd hp rfl
      | answered ok => exact .answered ok hd hp hs rfl

/-- What a cold Park can come to: refused, it leaves the state as it was. -/
inductive ColdResult (service : ServiceReply) (state : Supervised) :
    Except String Unit × Supervised → Prop where
  | refused (error : String) : ColdResult service state (.error error, state)
  | parked (record : Value) (h : state.run.status = .parked) :
      ColdResult service state (.ok (), state.putRecord (some record))
  | started (record : Value) (hdisposed : state.run.status ≠ .disposed)
      (h : service = .started) : ColdResult service state
        (.ok (), { state.putRecord (some record) with
          parks := state.parks ++ [⟨some ⟨state.run.parkRecord, record⟩⟩] })
  | answered (record : Value) (ok : Bool) (hdisposed : state.run.status ≠ .disposed)
      (h : service = .answered ok) : ColdResult service state
        (.ok (), (state.putRecord (some record)).complete ⟨some ⟨state.run.parkRecord, record⟩⟩ ok)

theorem parkCold_result (req : Option Value) (s : ServiceReply) (look : Look)
    (state : Supervised) : ColdResult s state (state.parkCold req s look) := by
  unfold parkCold
  split
  · exact .refused _
  · split
    · split
      · exact .refused _
      · rename_i record _
        dsimp only
        have hr := park_result (some ⟨state.run.parkRecord, record⟩) s
          (state.putRecord (some record))
        generalize (state.putRecord (some record)).park _ s = result at hr ⊢
        cases hr with
        | disposed h => exact .refused _
        | parked h => exact .parked record h
        | free _ _ h => cases h
        | refused m _ _ h => exact .refused _
        | started hd _ h => exact .started record hd h
        | answered ok hd _ _ h => exact .answered record ok hd h
    · exact .refused _
    · exact .refused _

/-- A timer only removes itself, unless the Run is still cancelling when it is due. -/
inductive ExpireResult (index : Nat) (look : Look) (state : Supervised) : Supervised → Prop where
  | idle : ExpireResult index look state state
  | late (timer : Timer) (h : state.timers[index]? = some timer)
      (hstatus : state.run.status ≠ .cancelling) :
      ExpireResult index look state { state with timers := state.timers.eraseIdx index }
  | expired (timer : Timer) (h : state.timers[index]? = some timer)
      (hdue : state.isDue timer = true) (hstatus : state.run.status = .cancelling) :
      ExpireResult index look state { state.become .cancelled with
          timers := state.timers.eraseIdx index
          called := timer.cancel :: state.called
          disposals := (state.run.unacknowledged look).map
            (⟨·, timer, state.now, state.cancels.head?⟩) ++ state.disposals }

theorem expire_result (j : Nat) (look : Look) (state : Supervised) :
    ExpireResult j look state (state.expire j look) := by
  unfold expire
  split
  · exact .idle
  · rename_i timer ht
    dsimp only
    split
    · exact .idle
    · rename_i hd
      split
      · rename_i hs
        exact .late timer ht hs
      · rename_i hs
        exact .expired timer ht (by simpa using hd) (not_not.mp hs)

/-- A resume is refused where the Run is over, or what it was given was stored until a check
failed. -/
theorem acceptResume_cases (claims generatedWork : Option Value) (run : Run) :
    (run.status = .disposed ∧
      run.acceptResume claims generatedWork = (.error "Run is disposed", run)) ∨
    run.status ≠ .disposed ∧
      ((∃ error, claims.elim (.ok run.claims) (copyClaims <| some ·) = .error error ∧
        run.acceptResume claims generatedWork = (.error error, run)) ∨
      ∃ copied, claims.elim (.ok run.claims) (copyClaims <| some ·) = .ok copied ∧
        ((∃ error, generatedWork.elim (.ok run.generatedWork)
            (fun given => (copyGeneratedWork (some given)).map some) = .error error ∧
          run.acceptResume claims generatedWork = (.error error, { run with claims := copied })) ∨
        ∃ work, generatedWork.elim (.ok run.generatedWork)
            (fun given => (copyGeneratedWork (some given)).map some) = .ok work ∧
          ((∃ status, run.acceptResume claims generatedWork =
              (.ok (), { run with claims := copied, generatedWork := work, status })) ∨
            ∃ error, run.acceptResume claims generatedWork =
              (.error error, { run with claims := copied, generatedWork := work })))) := by
  unfold Run.acceptResume
  split
  · rename_i hd
    exact Or.inl ⟨hd, rfl⟩
  · rename_i hd
    refine Or.inr ⟨hd, ?_⟩
    cases hc : claims.elim (.ok run.claims) (copyClaims <| some ·) with
    | error error => exact Or.inl ⟨error, rfl, rfl⟩
    | ok copied =>
      refine Or.inr ⟨copied, rfl, ?_⟩
      dsimp only
      cases hw : generatedWork.elim (.ok run.generatedWork)
          (fun given => (copyGeneratedWork (some given)).map some) with
      | error error => exact Or.inl ⟨error, rfl, rfl⟩
      | ok work =>
        refine Or.inr ⟨work, rfl, ?_⟩
        dsimp only
        split
        · exact Or.inl ⟨run.status, rfl⟩
        · split
          · exact Or.inr ⟨_, rfl⟩
          · exact Or.inl ⟨.active, rfl⟩

/-! ### Steps that settle -/

/-- An operation that keeps a Run disposed, and changes nothing where it is refused. -/
structure Held (state : Supervised) (result : Except String Unit × Supervised) : Prop where
  final : state.run.status = .disposed → result.2.run.status = .disposed
  refused : ∀ error, result.1 = .error error → Unchanged state.run result.2.run

variable {res : Except String Unit × Supervised}

theorem Held.of_unchanged (h : Unchanged state.run res.2.run) : Held state res :=
  ⟨fun hd => h.status.trans hd, fun _ _ => h⟩

/-- An operation that ends well on a Run that is not disposed. -/
theorem Held.of_ok (ho : res.1 = .ok ()) (h : state.run.status ≠ .disposed) : Held state res where
  final hd := absurd hd h
  refused error he := by
    rw [ho] at he
    cases he

theorem cancel_held (state : Supervised) : Held state state.cancel := by
  unfold cancel
  split
  · exact .of_unchanged (.refl _)
  · exact .of_unchanged (.refl _)
  · exact .of_unchanged (.refl _)
  · exact .of_unchanged (.refl _)
  · rename_i ha
    exact .of_ok rfl (by simp [ha])

theorem park_held (s : ServiceReply) (state : Supervised) : Held state (state.park none s) := by
  have hr := park_result none s state
  generalize state.park none s = res at hr ⊢
  cases hr with
  | disposed => exact .of_unchanged (.refl _)
  | parked => exact .of_unchanged (.refl _)
  | free hd _ _ => exact .of_ok rfl hd
  | refused => exact .of_unchanged (.refl _)
  | started => exact .of_unchanged (.refl _)
  | answered ok hd => exact .of_ok rfl hd

theorem parkCold_held (req : Option Value) (s : ServiceReply) (look : Look)
    (state : Supervised) : Held state (state.parkCold req s look) := by
  have hr := parkCold_result req s look state
  generalize state.parkCold req s look = res at hr ⊢
  cases hr with
  | refused => exact .of_unchanged (.refl _)
  | parked r h => exact .of_ok rfl (by simp [h])
  | started r hd => exact .of_ok rfl hd
  | answered r ok hd => exact .of_ok rfl hd

theorem acceptPark_held (state : Supervised) : Held state state.acceptPark := by
  unfold acceptPark
  split
  · exact .of_unchanged (.refl _)
  · rename_i hd
    split
    · exact .of_unchanged (.refl _)
    · exact .of_ok rfl hd

/-- A Park that the service fails at once changes nothing. -/
theorem park_failsAtOnce (h : state.run.parkRecord ≠ none) :
    Unchanged state.run (state.park none (.answered false)).2.run := by
  have hr := park_result none (.answered false) state
  generalize state.park none (.answered false) = res at hr ⊢
  cases hr with
  | disposed => exact .refl _
  | parked => exact .refl _
  | free _ _ hn => exact absurd hn h
  | refused _ _ _ heq => cases heq
  | started _ _ heq => cases heq
  | answered ok _ _ _ heq =>
    cases heq
    exact .refl _

variable {lo : Look}

theorem parkCold_failsAtOnce {req : Option Value} (h : state.run.status ≠ .parked) :
    Unchanged state.run (state.parkCold req (.answered false) lo).2.run := by
  have hr := parkCold_result req (.answered false) lo state
  generalize state.parkCold req (.answered false) lo = res at hr ⊢
  cases hr with
  | refused => exact .refl _
  | parked _ hp => exact absurd hp h
  | started _ _ heq => cases heq
  | answered r ok _ heq =>
    cases heq
    exact ⟨rfl, rfl, rfl, rfl⟩

/-- An operation that is held settles, unless it fails at once. -/
theorem Held.settled (h : Held state res) (hh : state.handle ev = res.map some id)
    (hf : FailsAtOnce state ev → Unchanged state.run res.2.run)
    (ha : ∀ j, ev ≠ .answer j false) : Settled state ev := by
  have hs : state.step ev = res.2 := congrArg Prod.snd hh
  constructor
  · rw [hs]
    exact h.final
  · intro e hr
    rw [hs]
    rw [hh] at hr
    exact h.refused e (Option.some.inj hr)
  · rw [hs]
    exact hf
  · intro j _ he
    exact absurd he (ha j)

theorem settled_timer (j : Nat) (lo : Look) (state : Supervised) : Settled state (.timer j lo) := by
  refine ⟨?_, fun _ herr => (by cases herr), fun hf => hf.elim, fun _ _ he => by cases he⟩
  intro hd
  change (state.expire j lo).run.status = .disposed
  have hr := expire_result j lo state
  generalize state.expire j lo = res at hr ⊢
  cases hr with
  | idle => exact hd
  | late => exact hd
  | expired timer _ _ hs =>
    rw [hd] at hs
    cases hs

/-- A service's answer settles exactly where it is careful. -/
theorem settled_answer (j : Nat) (ok : Bool) (state : Supervised) :
    Settled state (.answer j ok) ↔ Prudent state (.answer j ok) := by
  have ht : state.step (.answer j ok) = state.answer j ok := rfl
  cases hp : state.parks[j]? with
  | none =>
    have hsa : state.answer j ok = state := by rw [answer, hp]
    refine iff_of_true ⟨?_, fun _ herr => (by cases herr), fun hf => hf.elim, ?_⟩ ?_
    · rw [ht, hsa]
      exact id
    · rintro _ p ⟨⟩ hs
      rw [hp] at hs
      cases hs
    · cases ok with
      | true => exact fun hs => absurd hp hs
      | false =>
        intro p c hs
        rw [hp] at hs
        cases hs
  | some p =>
    have ha : state.answer j ok = { state with parks := state.parks.eraseIdx j }.complete p ok := by
      rw [answer, hp]
    cases ok with
    | true =>
      constructor
      · intro h _ hd
        have hi := h.final hd
        rw [ht, ha] at hi
        cases hi
      · intro h
        refine ⟨fun hd => ?_, fun _ herr => (by cases herr), fun hf => hf.elim,
          fun _ _ he => by cases he⟩
        exact absurd hd (h (by simp [hp]))
    | false =>
      cases hc : p.cold with
      | none =>
        have hsa : (state.answer j false).run = state.run := by
          rw [ha]
          simp [complete, hc]
        refine iff_of_true ⟨?_, fun _ herr => (by cases herr), fun hf => hf.elim, ?_⟩ ?_
        · rw [ht, hsa]
          exact id
        · rintro _ o ⟨⟩ ho
          rw [hp] at ho
          cases ho
          rw [ht, hsa, Restores, hc]
          exact ⟨⟨rfl, rfl, rfl⟩, rfl⟩
        · intro o c ho hs
          rw [hp] at ho
          cases ho
          rw [hc] at hs
          cases hs
      | some c =>
        have hu : (state.answer j false).run = { state.run with parkRecord := c.previous } := by
          rw [ha]
          simp [complete, putRecord, hc]
        constructor
        · intro h o f ho hfo
          have hr := (h.failed j o rfl ho).2
          rw [Restores, hfo] at hr
          exact hr.1
        · intro h
          refine ⟨?_, fun _ herr => (by cases herr), fun hf => hf.elim, ?_⟩
          · rw [ht, hu]
            exact id
          · rintro _ o ⟨⟩ ho
            rw [hp] at ho
            cases ho
            rw [ht, hu, Restores, hc]
            exact ⟨⟨rfl, rfl, rfl⟩, h p c hp hc, rfl⟩

theorem settled_acceptResume (claims generatedWork : Option Value) (state : Supervised) :
    Settled state (.acceptResume claims generatedWork) ↔
      Prudent state (.acceptResume claims generatedWork) := by
  have ht : (state.step (.acceptResume claims generatedWork)).run =
      (state.run.acceptResume claims generatedWork).2 := rfl
  have hr : (state.handle (.acceptResume claims generatedWork)).1 =
      some (state.run.acceptResume claims generatedWork).1 := rfl
  constructor
  · intro h hd ⟨error, herr⟩ copied hco
    have hs := h.refused error (by rw [hr, herr])
    rw [ht] at hs
    rcases acceptResume_cases claims generatedWork state.run with ⟨hv, -⟩ | ⟨-, hc⟩
    · exact absurd hv hd
    · rcases hc with ⟨other, ho, -⟩ | ⟨stored, hsto, hc⟩
      · rw [hco] at ho
        cases ho
      · obtain rfl := Except.ok.inj (hco.symm.trans hsto)
        rcases hc with ⟨other, ho, hres⟩ | ⟨work, hw, ⟨status, hres⟩ |
          ⟨other, hres⟩⟩
        · rw [hres] at hs
          refine ⟨hs.claims, fun work hw => ?_⟩
          rw [ho] at hw
          cases hw
        · rw [hres] at herr
          cases herr
        · rw [hres] at hs
          refine ⟨hs.claims, fun found hf => ?_⟩
          obtain rfl := Except.ok.inj (hw.symm.trans hf)
          exact hs.generatedWork
  · intro h
    have hc := acceptResume_cases claims generatedWork state.run
    refine ⟨fun hd => ?_, fun error herr => ?_, fun ha => ha.elim, fun _ _ he => by cases he⟩
    · rw [ht]
      rcases hc with ⟨-, hres⟩ | ⟨hn, -⟩
      · rw [hres]
        exact hd
      · exact absurd hd hn
    · rw [hr] at herr
      rw [ht]
      rcases hc with ⟨-, hres⟩ | ⟨hn, hc⟩
      · rw [hres]
        exact .refl _
      · have hstr := h hn ⟨error, Option.some.inj herr⟩
        rcases hc with ⟨other, -, hres⟩ | ⟨copied, hco, hc⟩
        · rw [hres]
          exact .refl _
        · obtain ⟨rfl, hw⟩ := hstr copied hco
          rcases hc with ⟨other, -, hres⟩ | ⟨work, hf, ⟨status, hres⟩ |
            ⟨other, hres⟩⟩
          · rw [hres]
            exact .refl _
          · rw [hres] at herr
            cases herr
          · rw [hres, hw work hf]
            exact .refl _

theorem settled_dispose (lo : Look) (state : Supervised) :
    Settled state (.dispose lo) ↔ Prudent state (.dispose lo) := by
  have hs : (state.step (.dispose lo)).run = (state.run.dispose lo).2 := rfl
  have hr : (state.handle (.dispose lo)).1 = some (state.run.dispose lo).1 := rfl
  by_cases hd : state.run.status = .disposed
  · have hres : state.run.dispose lo = (.ok (), state.run) := by
      rw [Run.dispose, if_pos hd]
    refine iff_of_true ?_ fun ht => absurd hd ht
    refine .of_unchanged ?_ fun _ he => by cases he
    rw [hs, hres]
    exact .refl _
  · have haft : (state.run.dispose lo).2 = { state.run with status := .disposed } := by
      rw [Run.dispose, if_neg hd]
    constructor
    · intro h _ w hw
      cases hfo : lo.dispose w with
      | ok u => rfl
      | error error =>
        have hf : ∃ m, (state.run.dispose lo).1 = .error m := by
          rw [Run.dispose, if_neg hd]
          generalize hl : state.run.workers.filterMap _ = f
          cases f with
          | nil =>
            have hn := filterMap_eq_nil_iff.mp hl w hw
            simp [Look.failure, hfo] at hn
          | cons m f => exact ⟨m, rfl⟩
        obtain ⟨m, hm⟩ := hf
        have ha := (h.refused m (by rw [hr, hm])).status
        rw [hs, haft] at ha
        exact absurd ha.symm hd
    · intro h
      have hn : state.run.workers.filterMap lo.failure = [] := by
        rw [filterMap_eq_nil_iff]
        intro w hw
        rw [Look.failure, h hd w hw]
      refine ⟨fun ho => absurd ho hd, fun error herr => ?_,
        fun hfa => hfa.elim, fun _ _ he => (by cases he)⟩
      rw [hr, Run.dispose, if_neg hd, hn] at herr
      cases herr

/-- Every step but a timer's settles exactly where it is careful. -/
theorem settled_iff (ht : ∀ j lo, ev ≠ .timer j lo) : Settled state ev ↔ Prudent state ev := by
  cases ev with
  | elapse ms => exact iff_of_true (.of_unchanged (.refl _) fun _ he => by cases he) trivial
  | adopt w iw =>
    have hs := adoptSession_unchanged w iw state.run
    exact iff_of_true (.of_unchanged hs fun _ he => by cases he) trivial
  | create api c =>
    have hs := createSession_unchanged api c state
    exact iff_of_true (.of_unchanged hs fun _ he => by cases he) trivial
  | cancel =>
    have hh := cancel_held state
    exact iff_of_true (hh.settled rfl (fun h => h.elim) fun _ h => by cases h) trivial
  | timer j lo => exact absurd rfl (ht j lo)
  | park s =>
    refine iff_of_true ((park_held s state).settled rfl ?_ fun _ h => by cases h) trivial
    intro hf
    cases s with
    | refused m => exact hf.elim
    | started => exact hf.elim
    | answered ok =>
      cases ok with
      | true => exact hf.elim
      | false => exact park_failsAtOnce hf
  | parkCold req s lo =>
    have hh := parkCold_held req s lo state
    refine iff_of_true (hh.settled rfl ?_ fun _ h => by cases h) trivial
    intro hf
    cases s with
    | refused m => exact hf.elim
    | started => exact hf.elim
    | answered ok =>
      cases ok with
      | true => exact hf.elim
      | false => exact parkCold_failsAtOnce hf
  | answer j ok => exact settled_answer j ok state
  | acceptPark =>
    have hh := acceptPark_held state
    exact iff_of_true (hh.settled rfl (fun h => h.elim) fun _ h => by cases h) trivial
  | acceptResume cl gw => exact settled_acceptResume cl gw state
  | dispose lo => exact settled_dispose lo state

/-! ### Timers -/

/-- The timers and the callbacks that were called belong to different cancels, and a disposal
comes after the timeout of its cancel. -/
structure Tracked (state : Supervised) : Prop where
  distinct : (state.timers.map (·.cancel) ++ state.called).Nodup
  known : ∀ id ∈ state.timers.map (·.cancel) ++ state.called, id < state.cancels.length
  elapsed : ∀ disposal ∈ state.disposals,
    disposal.timer.startedAt + state.run.cancellationTimeoutMs ≤ disposal.time

/-- What a step that is neither a cancel nor a timer leaves as it was. -/
structure SameTimers (before after : Supervised) : Prop where
  timers : after.timers = before.timers
  cancels : after.cancels = before.cancels
  called : after.called = before.called
  disposals : after.disposals = before.disposals
  timeout : after.run.cancellationTimeoutMs = before.run.cancellationTimeoutMs

theorem SameTimers.refl (state : Supervised) : SameTimers state state := ⟨rfl, rfl, rfl, rfl, rfl⟩

theorem SameTimers.tracked {pre l : Supervised} (h : SameTimers pre l)
    (ht : Tracked pre) : Tracked l := by
  constructor
  · rw [h.timers, h.called]
    exact ht.distinct
  · rw [h.timers, h.called, h.cancels]
    exact ht.known
  · rw [h.disposals, h.timeout]
    exact ht.elapsed

theorem complete_sameTimers (p : PendingPark) (ok : Bool) (state : Supervised) :
    SameTimers state (state.complete p ok) := by
  unfold complete
  split
  · exact ⟨rfl, rfl, rfl, rfl, rfl⟩
  · split
    · exact .refl state
    · exact ⟨rfl, rfl, rfl, rfl, rfl⟩

theorem adoptSession_timeout (w : Nat) (iw : Bool) (run : Run) :
    (run.adoptSession w iw).2.cancellationTimeoutMs = run.cancellationTimeoutMs := by
  unfold Run.adoptSession
  split
  · rfl
  · split
    · rfl
    · split <;> rfl

theorem acceptResume_timeout (c gw : Option Value) (run : Run) :
    (run.acceptResume c gw).2.cancellationTimeoutMs =
      run.cancellationTimeoutMs := by
  rcases acceptResume_cases c gw run with ⟨-, h⟩ | ⟨-, ⟨e, -, h⟩ |
    ⟨copied, -, ⟨e, -, h⟩ | ⟨work, -, ⟨status, h⟩ | ⟨e, h⟩⟩⟩⟩ <;> rw [h]

theorem dispose_timeout (lo : Look) (run : Run) :
    (run.dispose lo).2.cancellationTimeoutMs = run.cancellationTimeoutMs := by
  unfold Run.dispose
  split <;> rfl

theorem step_sameTimers (hc : ev ≠ .cancel)
    (ht : ∀ j lo, ev ≠ .timer j lo) : SameTimers state (state.step ev) := by
  cases ev with
  | elapse ms => exact ⟨rfl, rfl, rfl, rfl, rfl⟩
  | adopt w iw =>
    exact ⟨rfl, rfl, rfl, rfl, adoptSession_timeout w iw state.run⟩
  | create api c =>
    change SameTimers state (state.createSession api c).2
    unfold createSession
    split
    · exact .refl state
    · split
      · exact .refl state
      · split
        · exact .refl state
        · exact ⟨rfl, rfl, rfl, rfl, adoptSession_timeout _ true state.run⟩
  | cancel => exact absurd rfl hc
  | timer j lo => exact absurd rfl (ht j lo)
  | park s =>
    change SameTimers state (state.park none s).2
    have hr := park_result none s state
    generalize state.park none s = res at hr ⊢
    cases hr with
    | answered ok => exact complete_sameTimers ⟨none⟩ ok state
    | _ => exact ⟨rfl, rfl, rfl, rfl, rfl⟩
  | parkCold req s lo =>
    change SameTimers state (state.parkCold req s lo).2
    have hr := parkCold_result req s lo state
    generalize state.parkCold req s lo = res at hr ⊢
    cases hr with
    | answered r ok =>
      have hs := complete_sameTimers ⟨some ⟨state.run.parkRecord, r⟩⟩ ok (state.putRecord (some r))
      exact ⟨hs.timers, hs.cancels, hs.called, hs.disposals, hs.timeout⟩
    | _ => exact ⟨rfl, rfl, rfl, rfl, rfl⟩
  | answer j ok =>
    change SameTimers state (state.answer j ok)
    unfold answer
    split
    · exact .refl state
    · rename_i park _
      have hs := complete_sameTimers park ok { state with parks := state.parks.eraseIdx j }
      exact ⟨hs.timers, hs.cancels, hs.called, hs.disposals, hs.timeout⟩
  | acceptPark =>
    change SameTimers state state.acceptPark.2
    unfold acceptPark
    split
    · exact .refl state
    · split
      · exact .refl state
      · exact ⟨rfl, rfl, rfl, rfl, rfl⟩
  | acceptResume cl gw =>
    exact ⟨rfl, rfl, rfl, rfl, acceptResume_timeout cl gw state.run⟩
  | dispose lo => exact ⟨rfl, rfl, rfl, rfl, dispose_timeout lo state.run⟩

theorem cancel_tracked (h : Tracked state) : Tracked state.cancel.2 := by
  unfold cancel
  split
  · exact h
  · exact h
  · exact h
  · exact h
  · constructor
    · rw [map_append, map_cons, map_nil, append_assoc, singleton_append, nodup_middle]
      refine nodup_cons.mpr ⟨fun hm => ?_, h.distinct⟩
      exact Nat.lt_irrefl _ (h.known _ hm)
    · intro id hi
      simp only [map_append, map_cons, map_nil, mem_append, mem_singleton, length_cons] at hi ⊢
      have hk := h.known id
      rw [mem_append] at hk
      rcases hi with (hi | hi) | hi
      · exact Nat.lt_succ_of_lt (hk (Or.inl hi))
      · omega
      · exact Nat.lt_succ_of_lt (hk (Or.inr hi))
    · exact h.elapsed

variable {i : Nat}

/-- The timers without one of them, and that one, are the timers. -/
theorem erase_perm {t : List Timer} {ti : Timer} (h : t[i]? = some ti) :
    t.Perm (ti :: t.eraseIdx i) := by
  obtain ⟨hl, rfl⟩ := List.getElem?_eq_some_iff.mp h
  exact (getElem_cons_eraseIdx_perm hl).symm

theorem expire_tracked (h : Tracked state) : Tracked (state.expire i lo) := by
  have hr := expire_result i lo state
  generalize state.expire i lo = res at hr ⊢
  cases hr with
  | idle => exact h
  | late t ht =>
    have hu : List.Sublist ((state.timers.eraseIdx i).map (·.cancel) ++ state.called)
        (state.timers.map (·.cancel) ++ state.called) :=
      ((eraseIdx_sublist _ _).map _).append_right _
    exact ⟨h.distinct.sublist hu, fun id hi => h.known id (hu.subset hi), h.elapsed⟩
  | expired t ht hd hs =>
    have hp : ((state.timers.eraseIdx i).map (·.cancel) ++ t.cancel :: state.called).Perm
        (state.timers.map (·.cancel) ++ state.called) :=
      perm_middle.trans (((erase_perm ht).map (·.cancel)).symm.append_right _)
    refine ⟨hp.nodup_iff.mpr h.distinct, fun id hi => h.known id (hp.subset hi), ?_⟩
    intro d hm
    rcases mem_append.mp hm with hn | hold
    · obtain ⟨w, -, rfl⟩ := mem_map.mp hn
      exact of_decide_eq_true hd
    · exact h.elapsed d hold

theorem step_tracked (h : Tracked state) (ev : RunEvent) : Tracked (state.step ev) := by
  by_cases hc : ev = .cancel
  · subst hc
    exact cancel_tracked h
  · by_cases ht : ∃ i lo, ev = .timer i lo
    · obtain ⟨i, lo, rfl⟩ := ht
      exact expire_tracked h
    · refine (step_sameTimers hc fun i lo heq => ?_).tracked h
      exact ht ⟨i, lo, heq⟩

/-- Where the timers are tracked, what a timer adds to the disposals has been the work of the last
cancel exactly where it is careful. -/
theorem expire_last (h : ∀ d ∈ state.disposals, d.last = some d.timer) :
    (∀ d ∈ (state.expire i lo).disposals, d.last = some d.timer) ↔ Prudent state (.timer i lo) := by
  have hr := expire_result i lo state
  constructor
  · intro ha timer ht hd hs hb
    have he : (state.expire i lo).disposals =
        (state.run.unacknowledged lo).map (⟨·, timer, state.now, state.cancels.head?⟩) ++
          state.disposals := by
      simp [expire, ht, hd, hs]
    obtain ⟨w, hw⟩ := exists_mem_of_ne_nil _ hb
    refine ha ⟨w, timer, state.now, state.cancels.head?⟩ ?_
    rw [he]
    exact mem_append_left _ (mem_map.mpr ⟨w, hw, rfl⟩)
  · intro hc
    generalize state.expire i lo = res at hr ⊢
    cases hr with
    | idle => exact h
    | late => exact h
    | expired timer ht hd hs =>
      intro d hm
      rcases mem_append.mp hm with hn | hold
      · obtain ⟨w, hw, rfl⟩ := mem_map.mp hn
        exact hc timer ht hd hs (ne_nil_of_mem hw)
      · exact h d hold

/-- A step settles, and its timer is prompt, exactly where it is careful. -/
theorem careful_iff (hr : Tracked state) (ht : Prompt state) (ev : RunEvent) :
    Prudent state ev ↔ Settled state ev ∧ Prompt (state.step ev) := by
  have ha := step_tracked hr ev
  have hn : (state.step ev).called.Nodup := (nodup_append'.mp ha.distinct).2.1
  by_cases hi : ∃ i lo, ev = .timer i lo
  · obtain ⟨i, lo, rfl⟩ := hi
    rw [← expire_last ht.last]
    constructor
    · intro hl
      exact ⟨settled_timer i lo state, hn, ha.elapsed, hl⟩
    · intro h
      exact h.2.last
  · have ho : ∀ i lo, ev ≠ .timer i lo := fun i lo heq =>
      hi ⟨i, lo, heq⟩
    rw [← settled_iff ho]
    refine ⟨fun h => ⟨h, hn, ha.elapsed, ?_⟩, And.left⟩
    by_cases hc : ev = .cancel
    · subst hc
      have hs : (state.step .cancel).disposals = state.disposals := by
        change state.cancel.2.disposals = _
        unfold cancel
        split <;> rfl
      rw [hs]
      exact ht.last
    · rw [(step_sameTimers hc ho).disposals]
      exact ht.last

/-! ### Runs -/

theorem start_tracked (run : Run) : Tracked (.start run) :=
  ⟨nodup_nil, fun _ h => (by cases h), fun _ h => (by cases h)⟩

theorem start_timely (run : Run) : Prompt (.start run) :=
  ⟨nodup_nil, fun _ h => (by cases h), fun _ h => (by cases h)⟩

/-- Runs settle and are timely exactly where each of their steps is careful. -/
theorem throughout_careful (ht : Tracked state) (hi : Prompt state) (es : List RunEvent) :
    Throughout step Prudent state es ↔ Throughout step Settled state es ∧
        Always step Prompt state es := by
  induction es generalizing state with
  | nil => exact ⟨fun _ => ⟨trivial, hi⟩, fun _ => trivial⟩
  | cons ev es ih =>
    have hst := careful_iff ht hi ev
    constructor
    · rintro ⟨hc, hr⟩
      obtain ⟨hs, hn⟩ := hst.mp hc
      obtain ⟨hl, ha⟩ := (ih (step_tracked ht ev) hn).mp hr
      exact ⟨⟨hs, hl⟩, hi, ha⟩
    · rintro ⟨⟨hs, hl⟩, -, ha⟩
      have hn := ha.first
      exact ⟨hst.mpr ⟨hs, hn⟩, (ih (step_tracked ht ev) hn).mpr ⟨hl, ha⟩⟩

/-- Once disposed, a Run whose steps settle stays so. -/
theorem disposed_stays {es : List RunEvent} (h : Throughout step Settled state es)
    (hd : state.run.status = .disposed) : (es.foldl step state).run.status = .disposed := by
  induction es generalizing state with
  | nil => exact hd
  | cons ev es ih => exact ih h.2 (h.1.final hd)

/-- In a run of any events, disposal is final, refusals and failures change nothing, callbacks
are called once and timers dispose of nobody early, exactly where every step is careful. -/
theorem disposal_final_iff (run : Run) (events : List RunEvent) :
    Throughout step Prudent (.start run) events ↔ Throughout step Settled (.start run) events ∧
        Always step Prompt (.start run) events ∧ ∀ before after, events = before ++ after →
          (before.foldl step (.start run)).run.status = .disposed →
          (events.foldl step (.start run)).run.status = .disposed := by
  rw [throughout_careful (start_tracked run) (start_timely run)]
  refine ⟨fun h => ⟨h.1, h.2, ?_⟩, fun h => ⟨h.1, h.2.1⟩⟩
  rintro before after rfl hd
  rw [foldl_append]
  exact disposed_stays (throughout_append.mp h.1).2 hd

/-! ### Samples -/

/-- Options of a Run with a record for the service. -/
def recordedOptions : Option Value := some (.table [(.str "park_record", .table [])])

/-- A Run is disposed of while a Park waits for its service, which then confirms it. -/
def confirmedLate : List RunEvent :=
  [.park .started, .dispose ⟨fun _ => none, fun _ => none, fun _ => .ok ()⟩, .answer 0 true]

theorem disposal_not_final : ∃ run, Run.new recordedOptions = .ok run ∧
      ((confirmedLate.take 2).foldl step (.start run)).run.status = .disposed ∧
      (confirmedLate.foldl step (.start run)).run.status = .parked ∧
      ¬ Throughout step Settled (.start run) confirmedLate := by
  refine ⟨_, rfl, rfl, rfl, fun h => ?_⟩
  have hf := h.2.2.1.final rfl
  cases hf

-- A resume is refused for its generated work, and its claims stay.
example (run : Run) (hs : run.status = .parked) :
    run.acceptResume (some (.array [.str "issue"])) (some (.bool true)) =
      (.error "Run generated_work must be a table", { run with claims := ["issue"] }) := by
  have hc : copyClaims (some (.array [.str "issue"])) = .ok ["issue"] := rfl
  simp [Run.acceptResume, hs, hc, copyGeneratedWork, Value.isTable, Except.map]

end Louiselm.Workflow
