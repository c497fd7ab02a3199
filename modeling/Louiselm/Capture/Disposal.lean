import Louiselm.Capture.Lifecycle

/-!
# What becomes of a disposed Run

`finalize_resume` of `capture-service/src/runs.rs` looks at the resume attempt and at the
revision, not at the state of the Run. Where no resume is finalized on a Run that the reaper
has been at, disposal is final.
-/

namespace Louiselm.Capture
open Base Canonical

/-- A Run of which a claim was released is on its way to its disposal. -/
def Withheld (run : Run) : Prop := run.Released → run.Reapable ∨ run.state = "disposed"

/-- A record that takes back neither a disposal nor a released claim. -/
structure Follows (run next : Run) : Prop where
  disposed : run.state = "disposed" → next.state = "disposed"
  released : run.Released → next.Released

/-- No resume is finalized on a disposed Run, and none succeeds once a claim was released. -/
def Call.RespectsReaper : Call → Run → Prop
  | .finalizeResume _ expectedRevision operationId succeeded, run =>
    run.Awaits expectedRevision operationId →
      run.state ≠ "disposed" ∧ (succeeded = true → ¬ run.Released)
  | _, _ => True

theorem Follows.refl (run : Run) : Follows run run := ⟨id, id⟩

variable {run next : Run}

theorem Follows.trans {m : Run} (h : Follows run m) (h' : Follows m next) :
    Follows run next := ⟨h'.disposed ∘ h.disposed, h'.released ∘ h.released⟩

/-- A released claim withholds the Run from the states it could be parked or active in. -/
theorem Withheld.not_released (h : Withheld run) {s : String} (hs : run.state = s)
    (hr : s ≠ "resuming") (hc : s ≠ "cold_parked") (hd : s ≠ "disposed") : ¬ run.Released := by
  intro he
  rcases h he with (h | h) | h
  · exact hr (hs.symm.trans h)
  · exact hc (hs.symm.trans h)
  · exact hd (hs.symm.trans h)

/-- A claim is released in one record exactly when it is in one with the same journal. -/
theorem released_congr (h : next.cleanup = run.cleanup) : next.Released ↔ run.Released :=
    by rw [Run.Released, Run.Released, h]

/-- A turn of a Run, under the condition on finalizing, takes nothing back. -/
theorem Turn.follows {c : Call} (h : Turn c run next) (hw : Withheld run)
    (hc : c.RespectsReaper run) : Follows run next ∧ Withheld next := by
  cases h with
  | counted hs hcl =>
    refine ⟨⟨fun h => hs.trans h, (released_congr hcl).mpr⟩, ?_⟩
    intro hr
    rw [Run.Reapable, hs]
    exact hw ((released_congr hcl).mp hr)
  | attached hb hs hcl =>
    have hn := hw.not_released hb (by decide) (by decide) (by decide)
    rw [← released_congr hcl] at hn
    exact ⟨⟨fun h => by simp [hb] at h, (released_congr hcl).mpr⟩, fun h => absurd h hn⟩
  | exhausted hb hs hcl =>
    have hn := hw.not_released hb (by decide) (by decide) (by decide)
    rw [← released_congr hcl] at hn
    exact ⟨⟨fun h => by simp [hb] at h, (released_congr hcl).mpr⟩, fun h => absurd h hn⟩
  | coldParked hb hs hf =>
    have hn : ¬ run.Released := by
      rcases hb with hb | hb
      · exact hw.not_released hb (by decide) (by decide) (by decide)
      · exact hw.not_released hb (by decide) (by decide) (by decide)
    refine ⟨⟨fun h => ?_, fun h => absurd h hn⟩, fun h => absurd h hf⟩
    simp [h] at hb
  | unparked hb hs hcl =>
    have hn := hw.not_released hb (by decide) (by decide) (by decide)
    rw [← released_congr hcl] at hn
    exact ⟨⟨fun h => by simp [hb] at h, (released_congr hcl).mpr⟩, fun h => absurd h hn⟩
  | resuming hb hs hcl =>
    exact ⟨⟨fun h => by simp [hb] at h, (released_congr hcl).mpr⟩, fun _ => .inl (.inl hs)⟩
  | @finalized _ _ succeeded _ _ ha hs hcl =>
    obtain ⟨hi, hu⟩ := hc ha
    refine ⟨⟨fun h => absurd h hi, (released_congr hcl).mpr⟩, ?_⟩
    intro hr
    cases succeeded with
    | true => exact absurd ((released_congr hcl).mp hr) (hu rfl)
    | false => exact .inl (.inr hs)
  | released hb hs hl =>
    refine ⟨⟨fun h => hs.trans h, fun _ => hl⟩, fun _ => .inl ?_⟩
    rw [Run.Reapable, hs]
    exact hb
  | disposed hb hs hcl =>
    exact ⟨⟨fun _ => hs, (released_congr hcl).mpr⟩, fun _ => .inr hs⟩

/-! ### Stores -/

/-- Every record is under its own id, and withheld once a claim was released. -/
def Guarded (store : RunStore) : Prop :=
  ∀ id run, store.lookup id = some run → run.id = id ∧ Withheld run

/-- Every record of a store is followed by one of a later store. -/
def Succeeds (before after : RunStore) : Prop :=
  ∀ id run, before.lookup id = some run → ∃ next, after.lookup id = some next ∧ Follows run next

/-- The step finalizes no resume against the reaper. -/
def RespectsReaper (store : RunStore) (event : Call × List Fault) : Prop :=
  ∀ id run, store.lookup id = some run → event.1.RespectsReaper run

theorem Succeeds.refl (s : RunStore) : Succeeds s s :=
  fun _ run hr => ⟨run, hr, .refl run⟩

theorem Succeeds.trans {pre m l : RunStore} (h : Succeeds pre m)
    (h' : Succeeds m l) : Succeeds pre l := by
  intro id run hr
  obtain ⟨next, hn, hf⟩ := h id run hr
  obtain ⟨la, hl, hf'⟩ := h' id next hn
  exact ⟨la, hl, hf.trans hf'⟩

theorem not_released_admittedRun {sha256 : Sha256} (a : RunAdmission) (t : String) :
    ¬ (admittedRun sha256 a t).Released := by
  rintro ⟨e, hm, -⟩
  simp [admittedRun] at hm

/-- One write under the condition keeps the guard and takes nothing back. -/
theorem Write.keeps {sha256 : Sha256} {call : Call} {before after : RunStore}
    (h : Write sha256 call before after) (hg : Guarded before)
    (hc : ∀ run, before.lookup run.id = some run → call.RespectsReaper run) :
    Guarded after ∧ Succeeds before after := by
  cases h with
  | @created admission token _ hn =>
    refine ⟨fun other found hf => ?_, fun other found hf => ?_⟩
    · by_cases ho : other = admission.id
      · subst ho
        obtain rfl := Option.some.inj ((AList.lookup_insert before).symm.trans hf)
        exact ⟨rfl, fun h => absurd h (not_released_admittedRun admission token)⟩
      · rw [AList.lookup_insert_ne ho] at hf
        exact hg other found hf
    · have ho : other ≠ admission.id := by
        rintro rfl
        rw [hn] at hf
        exact nomatch hf
      exact ⟨found, (AList.lookup_insert_ne ho).trans hf, .refl found⟩
  | @replaced _ run next _ hr ht hi =>
    obtain ⟨hfo, hw⟩ := ht.follows (hg _ run hr).2 (hc run hr)
    refine ⟨fun other found hf => ?_, fun other found hf => ?_⟩
    · by_cases ho : other = next.id
      · subst ho
        obtain rfl := Option.some.inj ((AList.lookup_insert before).symm.trans hf)
        exact ⟨rfl, hw⟩
      · rw [AList.lookup_insert_ne ho] at hf
        exact hg other found hf
    · by_cases ho : other = next.id
      · subst ho
        rw [hi] at hf
        obtain rfl := Option.some.inj (hr.symm.trans hf)
        exact ⟨next, AList.lookup_insert before, hfo⟩
      · exact ⟨found, (AList.lookup_insert_ne ho).trans hf, .refl found⟩

section

variable (uuid : String → Option String) (sha256 : Sha256)

/-- A step under the condition keeps the guard and takes nothing back. -/
theorem step_succeeds {st : RunStore} {e : Call × List Fault} (hg : Guarded st)
    (hc : RespectsReaper st e) :
    Guarded (step uuid sha256 st e) ∧ Succeeds st (step uuid sha256 st e) := by
  obtain ⟨c, fs⟩ := e
  refine step_keeps_of_write (motive := fun s => Guarded s ∧ Succeeds st s) fs ⟨hg, .refl st⟩ ?_
  rintro s s' hf hw ⟨hgu, hs⟩
  have ha : ∀ run, s.lookup run.id = some run → c.RespectsReaper run := by
    intro run hu
    rcases hf with rfl | hr
    · exact hc run.id run hu
    · cases c with
      | reap => trivial
      | _ => exact hr.elim
  obtain ⟨hg', hn⟩ := hw.keeps hgu ha
  exact ⟨hg', hs.trans hn⟩

/-- A run under the condition keeps the guard and takes nothing back. -/
theorem run_succeeds {s : RunStore} {es : List (Call × List Fault)} (hg : Guarded s)
    (hc : Throughout (step uuid sha256) RespectsReaper s es) :
    Guarded (es.foldl (step uuid sha256) s) ∧ Succeeds s (es.foldl (step uuid sha256) s) := by
  induction es generalizing s with
  | nil => exact ⟨hg, .refl s⟩
  | cons e es ih =>
    obtain ⟨hu, hs⟩ := step_succeeds uuid sha256 hg hc.1
    obtain ⟨hl, hr⟩ := ih hu hc.2
    exact ⟨hl, hs.trans hr⟩

/-- Where no step finalizes a resume on a disposed Run, or with success on one of which a
claim was released, a disposed Run stays disposed and a Run of which a claim was released is
never active again. -/
theorem disposal_final (earlier later : List (Call × List Fault))
    (hc : Throughout (step uuid sha256) RespectsReaper ∅ (earlier ++ later)) (id : String)
    (run : Run) (hrun : (earlier.foldl (step uuid sha256) ∅).lookup id = some run) :
    ∃ next, ((earlier ++ later).foldl (step uuid sha256) ∅).lookup id = some next ∧
      (run.state = "disposed" → next.state = "disposed") ∧
      (run.Released → next.state ≠ "active") := by
  rw [throughout_append] at hc
  have he : Guarded ∅ := fun id run h => by simp at h
  obtain ⟨hg, -⟩ := run_succeeds uuid sha256 he hc.1
  obtain ⟨hl, hs⟩ := run_succeeds uuid sha256 hg hc.2
  obtain ⟨next, hn, hf⟩ := hs id run hrun
  rw [List.foldl_append]
  refine ⟨next, hn, hf.disposed, ?_⟩
  intro hr ha
  have hw := (hl id next hn).2
  exact hw.not_released ha (by decide) (by decide) (by decide) (hf.released hr)

end

/-! ### A Run that is reaped while it resumes -/

def sampleId : String := "00000000-0000-4000-8000-000000000001"

def sampleOperation : String := "00000000-0000-4000-8000-000000000002"

/-- A hash for runs in which no two tokens are compared. -/
def constantHash : Sha256 := fun _ => Vector.replicate 32 0

/-- A Run is parked with one claim, begins to resume, and is reaped after its lease ran out. -/
def reapedWhileResuming : List (Call × List Fault) := [
  (.admitRun ⟨sampleId, 1, 1⟩ "0123456789abcdef", []),
  (.attach ⟨sampleId, "session", "agent", "acp", "/work", true⟩, []),
  (.parkCold ⟨sampleId, "session", "agent", "acp", "/work", true, ["issue"]⟩ 0, []),
  (.beginResume sampleId 3 sampleOperation 0 1, []), (.reap (fun _ _ _ => .ok ()) id 2, [])]

/-- A Run that is asked to resume after its disposal stays disposed. -/
theorem disposal_final_reaped : ∃ next, ((reapedWhileResuming ++
        [(Call.beginResume sampleId 6 sampleId 2 1, [])]).foldl (step some constantHash) ∅).lookup
          sampleId = some next ∧ next.state = "disposed" ∧ next.state ≠ "active" := by
  have hr : ((reapedWhileResuming.foldl (step some constantHash) ∅).lookup sampleId).map
      (fun run => (run.state, run.cleanup)) = some ("disposed", [⟨"issue", true⟩]) := by
    decide +kernel
  obtain ⟨run, hu, hf⟩ := Option.map_eq_some_iff.mp hr
  obtain ⟨hs, hl⟩ := Prod.mk.inj hf
  have hc : Throughout (step some constantHash) RespectsReaper ∅
      (reapedWhileResuming ++ [(Call.beginResume sampleId 6 sampleId 2 1, [])]) :=
    ⟨fun _ _ _ => trivial, fun _ _ _ => trivial, fun _ _ _ => trivial, fun _ _ _ => trivial,
      fun _ _ _ => trivial, fun _ _ _ => trivial, trivial⟩
  obtain ⟨next, hn, hd, ha⟩ :=
    disposal_final some constantHash reapedWhileResuming _ hc sampleId run hu
  exact ⟨next, hn, hd hs, ha ⟨⟨"issue", true⟩, by simp [hl], rfl⟩⟩

/-- A disposed Run whose claim was released becomes active when its resume is finalized. -/
theorem finalizeResume_revives_disposed :
    ((reapedWhileResuming.foldl (step some constantHash) ∅).lookup sampleId).map
        (fun run => (run.state, run.cleanup)) = some ("disposed", [⟨"issue", true⟩]) ∧
      ((step some constantHash (reapedWhileResuming.foldl (step some constantHash) ∅)
        (.finalizeResume sampleId 6 sampleOperation true, [])).lookup sampleId).map (·.state) =
          some "active" := by
  decide +kernel

end Louiselm.Capture
