import Louiselm.Capture.Lifecycle

/-!
# Stored Runs can be read again

Every record that `capture-service/src/runs.rs` stores passes the check of its next read and is
in one of the six lifecycle states, and a Park has its expiry.
-/

namespace Louiselm.Capture
open Base Canonical
open Base.Program

/-- The states of a Run. -/
def lifecycleStates : List String :=
  ["admitted", "active", "parked", "cold_parked", "resuming", "disposed"]

/-- A record as the store may hold it. -/
structure WellFormed (run : Run) : Prop where
  version : run.schemaVersion = 4
  revision : run.revision ≠ 0
  ceiling : run.generatedWork.ceiling ≠ 0
  ttl : run.parkTtlMs ≠ 0
  state : run.state ∈ lifecycleStates
  expiry : run.state = "parked" ∨ run.state = "cold_parked" → run.parkExpiresAtMs ≠ 0
  deadline : ∀ attempt ∈ run.resumeAttempt, attempt.deadlineMs ≠ 0

/-- Every record is under its own id and well formed. -/
def AllWellFormed (store : RunStore) : Prop :=
  ∀ id run, store.lookup id = some run → run.id = id ∧ WellFormed run

theorem ne_zero_of_checkedAdd {a b c : UInt64} (h : checkedAdd a b = some c) (hb : b ≠ 0) :
    c ≠ 0 := by
  intro hc
  have hn := checkedAdd_eq_some h
  rw [hc, UInt64.toNat_zero] at hn
  exact hb (UInt64.toNat_inj.mp (by rw [UInt64.toNat_zero]; omega))

/-- A record stays well formed when its next revision begins. -/
theorem wellFormed_of_advance {c next : Run} (h : advanceRevision c = .ok next)
    (hw : c.revision ≠ 0 → WellFormed c) (hr : c.revision ≠ 0) :
    WellFormed next := by
  unfold advanceRevision at h
  split at h
  · simp at h
  next revision hn =>
  obtain rfl := Except.ok.inj h
  have hold := hw hr
  exact ⟨hold.version, ne_zero_of_checkedAdd hn (by decide), hold.ceiling, hold.ttl, hold.state,
    hold.expiry, hold.deadline⟩

theorem deadline_some {oi s : String} {dm : UInt64} (h : dm ≠ 0) :
    ∀ a ∈ some (ResumeAttempt.mk oi dm s), a.deadlineMs ≠ 0 := by
  rintro _ ⟨⟩
  exact h

theorem Replaces.wellFormed {uuid : String → Option String} {sha256 : Sha256} {ca : Call}
    {run next : Run} (h : Replaces uuid sha256 ca run next) (hw : WellFormed run) :
    WellFormed next := by
  obtain ⟨c, hr, hn⟩ := h.begins
  suffices hwe : WellFormed c from wellFormed_of_advance hn (fun _ => hwe) hwe.revision
  cases hr with
  | attach _ => exact { hw with state := by simp [lifecycleStates], expiry := by simp }
  | exhaust _ he => exact { hw with
      state := by simp [lifecycleStates]
      expiry := fun _ => ne_zero_of_checkedAdd he hw.ttl }
  | parkCold _ he => exact { hw with
      state := by simp [lifecycleStates]
      expiry := fun _ => ne_zero_of_checkedAdd he hw.ttl }
  | raise hh =>
    refine { hw with ceiling := ?_ }
    rintro rfl
    exact UInt64.not_lt_zero hh
  | @beginResume _ _ _ _ leaseMs _ _ _ _ he =>
    have hl : leaseMs ≠ 0 := by
      cases h with
      | beginResume hl _ => exact hl
    have hd := ne_zero_of_checkedAdd he hl
    by_cases hc : run.state = "cold_parked"
    · exact { hw with
        state := by simp [hc, lifecycleStates]
        expiry := by simp [hc]
        deadline := deadline_some hd }
    · exact { hw with
        state := by simp [hc, lifecycleStates]
        expiry := by simp [hc]
        deadline := deadline_some hd }
  | @finalizeResume _ _ _ attempt succeeded ha _ _ _ =>
    have hd := hw.deadline attempt ha
    cases succeeded with
    | true => exact { hw with
        state := by simp [lifecycleStates]
        expiry := by simp
        deadline := deadline_some hd }
    | false => exact { hw with
        state := by simp [lifecycleStates]
        expiry := fun _ => hd
        deadline := deadline_some hd }
  | dispose _ => exact { hw with state := by simp [lifecycleStates], expiry := by simp }
  | _ => exact { hw with }

section

variable {uuid : String → Option String} {sha256 : Sha256} {st : RunStore}

theorem wellFormed_admittedRun {a : RunAdmission} (t : String)
    (h : validateAdmission uuid a = .ok ()) : WellFormed (admittedRun sha256 a t) := by
  simp only [validateAdmission, check_ok, require_ok, Bool.and_eq_true, bne_iff_ne] at h
  obtain ⟨-, hc, ht⟩ := h
  exact ⟨rfl, by simp [admittedRun], hc, ht, by simp [admittedRun, lifecycleStates],
    by simp [admittedRun], by simp [admittedRun]⟩

/-- A record under its own id keeps the others. -/
theorem allWellFormed_insert {run : Run} (h : AllWellFormed st) (hw : WellFormed run) :
    AllWellFormed (st.insert run.id run) := by
  intro id f hf
  by_cases hi : id = run.id
  · subst hi
    obtain rfl := Option.some.inj ((AList.lookup_insert st).symm.trans hf)
    exact ⟨rfl, hw⟩
  · rw [AList.lookup_insert_ne hi] at hf
    exact h id f hf

/-- Whatever befalls a request, the records stay well formed. -/
theorem step_allWellFormed (h : AllWellFormed st) (c : Call) (fs : List Fault) :
    AllWellFormed (step uuid sha256 st (c, fs)) := by
  refine step_keeps_of_replaces fs h ?_ ?_
  · rintro a t - hv -
    exact allWellFormed_insert h (wellFormed_admittedRun t hv)
  · intro s run next _ hu hr hs
    exact allWellFormed_insert hs (hr.wellFormed (hs run.id run hu).2)

theorem run_allWellFormed (h : AllWellFormed st) (es : List (Call × List Fault)) :
    AllWellFormed (es.foldl (step uuid sha256) st) := by
  induction es generalizing st with
  | nil => exact h
  | cons e es ih => exact ih (step_allWellFormed h e.1 e.2)

end

/-! ### Loading a record -/

section

variable {uuid : String → Option String} {run next : Run} {store : RunStore}

/-- A Run record that can be loaded. -/
structure Loads (uuid : String → Option String) (id : String) (store : RunStore) (run : Run) :
    Prop where
  name : validateId uuid id = .ok ()
  stored : store.lookup id = some run
  valid : (run.schemaVersion == 4 && run.revision != 0 && run.id == id &&
    run.generatedWork.ceiling != 0 && run.parkTtlMs != 0) = true

theorem reads_loads (id : String) : Reads (loadRun uuid id) store (Loads uuid id store) := by
  unfold loadRun
  refine (reads_ofExcept fun _ h => h).bind fun _ hn => ?_
  refine (reads_query fun _ h => h).bind fun f hf => ?_
  obtain rfl := Except.ok.inj hf
  cases hr : store.lookup id with
  | none => exact reads_fail
  | some run =>
    refine (reads_ofExcept fun _ h => h).bind fun _ hv => ?_
    exact reads_pure ⟨hn, hr, require_ok.mp hv⟩

theorem Loads.id {id : String} (h : Loads uuid id store run) : run.id = id := by
  have hv := h.valid
  simp only [Bool.and_eq_true, beq_iff_eq] at hv
  exact hv.1.1.2

theorem Loads.unique {id : String} (h : Loads uuid id store run) (h' : Loads uuid id store next) :
    run = next := Option.some.inj (h.stored.symm.trans h'.stored)

theorem Loads.returns {id : String} (h : Loads uuid id store run) :
    Returns (loadRun uuid id) store run store := by
  unfold loadRun
  refine returns_bind (returns_ofExcept h.name store) ?_
  refine returns_bind (returns_query _ _ rfl) ?_
  simp only [h.stored]
  refine returns_bind (returns_ofExcept ((require_ok (u := ())).mpr h.valid) store) ?_
  exact returns_pure run store

/-- A record that is replaced by one of the same shape loads as that. -/
theorem Loads.insert {id : String} (h : Loads uuid id store run) (hi : next.id = run.id)
    (hv : (next.schemaVersion == 4 && next.revision != 0 && next.id == id &&
      next.generatedWork.ceiling != 0 && next.parkTtlMs != 0) = true) :
    Loads uuid id (store.insert next.id next) next := by
  refine ⟨h.name, ?_, hv⟩
  rw [← h.id, ← hi]
  exact AList.lookup_insert store

/-- What an answered update decided on the record it loaded. -/
theorem wp_update_loads {α : Type} (id : String) (d : Run → Except RunStoreError (Plan α)) :
    Wp (update uuid id d) ⟨fun a s => ∃ run p, Loads uuid id store run ∧ d run = .ok p ∧
          a = p.answer ∧ s = p.next.elim store fun next => store.insert next.id next,
        fun _ _ => True, fun _ => True⟩ store := by
  unfold update
  refine wp_locked ?_ trivial trivial
  refine (reads_loads id).wp_bind ?_ (fun _ => trivial) trivial
  intro run hl
  apply wp_bind
  refine wp_ofExcept ?_ (fun _ _ => trivial)
  intro p hp
  dsimp only
  split
  · next hn =>
    exact wp_pure.mpr ⟨⟨run, p, hl, hp, rfl, by rw [hn]; rfl⟩, trivial, trivial⟩
  · next next hn =>
    apply wp_bind
    refine wp_write ?_ trivial trivial trivial
    exact wp_pure.mpr ⟨⟨run, p, hl, hp, rfl, by rw [hn]; rfl⟩, trivial, trivial⟩

/-- An update that is not disturbed does what it decides. -/
theorem Loads.returns_update {α : Type} {id : String} {p : Plan α}
    {d : Run → Except RunStoreError (Plan α)} (h : Loads uuid id store run)
    (hp : d run = .ok p) : Returns (update uuid id d) store p.answer
      (p.next.elim store fun next => store.insert next.id next) := by
  refine returns_bind (returns_probe _ store) ?_
  refine returns_bind (?_ : Returns _ store p.answer
    (p.next.elim store fun next => store.insert next.id next))
    (returns_bind (returns_probe _ _) (returns_pure _ _))
  refine returns_bind h.returns ?_
  refine returns_bind (returns_ofExcept hp store) ?_
  cases hn : p.next with
  | none => exact returns_pure _ _
  | some next => exact returns_bind (returns_write _ _ _) (returns_pure _ _)

/-- A record whose revision does not overflow loads when it is written. -/
theorem Loads.advance {id : String} (h : Loads uuid id store run) (c : Run) (hi : c.id = run.id)
    (he : c.schemaVersion = run.schemaVersion)
    (hc : c.generatedWork.ceiling = run.generatedWork.ceiling) (ht : c.parkTtlMs = run.parkTtlMs)
    (hr : c.revision ≠ 0) : Loads uuid id (store.insert c.id c) c := by
  refine h.insert hi ?_
  have hv := h.valid
  simp only [Bool.and_eq_true, bne_iff_ne, beq_iff_eq] at hv ⊢
  rw [he, hi, hc, ht]
  exact ⟨⟨⟨⟨hv.1.1.1.1, hr⟩, hv.1.1.2⟩, hv.1.2⟩, hv.2⟩

end
end Louiselm.Capture
