import Louiselm.Admission.Undo
import Louiselm.Base.JsonCompact

/-!
# An activation happens or does not

Every stop of `activate_with` in `skills-core/src/admission/transaction.rs`, by a crash or by
an error, followed by any number of runs of `recover` that may themselves stop anywhere.
-/

namespace Louiselm.Admission
open Base Canonical UndoJournal
open Base.Program Compact

section

variable {sha256 : Sha256} {fmt : JsonFormat} {before store : Store} {j : Journal}
  {previous : Option GenerationRecord} {current : GenerationRecord} {w : List (Path × Bytes)}

/-! ### Any number of rollbacks -/

/-- Without a journal there is nothing to undo. -/
theorem wp_recover_settled (h : store.contents .journal = none) : Wp (recover sha256 fmt)
      ⟨fun _ s => store = s, fun _ s => store = s, fun s => store = s⟩ store := by
  unfold recover
  apply wp_bind
  refine wp_readOptional ?_ ?_ rfl rfl
  · intro _
    exact wp_pure.mpr rfl
  · intro t ht
    rw [h] at ht
    simp at ht

variable {c : Digest}

theorem Interrupted.journal_ne {previous : Option Digest}
    (h : Interrupted fmt before previous c w store) : store.contents .journal ≠ none := by
  obtain ⟨j, -, h⟩ := h
  simp [h.written]

variable (sha256) in
/-- Rolling back keeps to the old store once it has begun, and to a settled store at once. -/
theorem leaves_recover {previous : Option Digest} {se : Store → Prop}
    (hb : before.contents .journal = none) (hold : ∀ s, before.Same s → se s)
    (he : ∀ s, se s → s.contents .journal = none) (r : List (List Fault))
    (h : Interrupted fmt before previous c w store ∨ se store) :
    let final := r.foldl (fun s fs => (recover sha256 fmt).leaves fs s) store
    Interrupted fmt before previous c w final ∨ se final := by
  induction r generalizing store with
  | nil => exact h
  | cons fs r ih =>
    apply ih
    rcases h with h | h
    · have hs : ∀ s, Interrupted fmt before previous c w s ∨ before.Same s →
          Interrupted fmt before previous c w s ∨ se s :=
        fun s hs => hs.imp id (hold s)
      have hv : ∀ s, before.Same s →
          Interrupted fmt before previous c w s ∨ se s := fun s h => .inr (hold s h)
      exact ((wp_recover_interrupted hb h).mono (fun _ => hv) (fun _ => hs) hs).leaves fs
    · exact .inr (((wp_recover_settled (he _ h)).mono (fun _ _ hs => hs ▸ h)
        (fun _ _ hs => hs ▸ h) (fun _ hs => hs ▸ h)).leaves fs)

theorem activated_journal {aam : UInt64} (h : before.contents .journal = none) :
    (before.activated sha256 fmt previous current aam).contents .journal = none := by
  cases previous <;>
    simp [Store.activated, Store.putRecord, Store.superseded, h, Function.update]

/-! ### A rollback that nothing interrupts -/

variable (sha256 fmt) in
/-- A Generation is stored under its own identity. -/
structure StoredAs (store : Store) (digest : Digest) (record : GenerationRecord) : Prop where
  load : loadRecord fmt store digest = .ok record
  identity : record.digest sha256 fmt = digest
  generation : record.generation = digest.toString

theorem returns_readOptional {p : Path} {t : String} (h : store.contents p = some (utf8 t)) :
    Returns (readOptional p) store (some t) store := by
  apply returns_query
  rw [h]
  simp only [fromUTF8?_utf8]

theorem Backup.Of.path_ok {d : Digest} {b : Backup} {r : GenerationRecord} (h : b.Of before d)
    (hs : StoredAs sha256 fmt before d r) : b.path sha256 fmt = .ok (.record d) := by
  have hl := hs.load
  rw [loadRecord, h.bytes] at hl
  simp only [JsonFormat.fromSlice, fmt.readBytes_utf8] at hl
  split at hl
  · simp at hl
  · next f hf =>
    obtain rfl := Except.ok.inj hl
    rw [Backup.path, h.generation, Digest.parse_toString, JsonFormat.fromStr]
    simp [Except.mapError, hf, require, hs.identity, hs.generation, pure, Except.pure]

theorem Journal.Of.paths_ok {previous : Option Digest} (h : j.Of before previous c)
    (hn : previous ≠ some c) (hp : ∀ d ∈ previous, ∃ r, StoredAs sha256 fmt before d r)
    (hc : ∃ r, StoredAs sha256 fmt before c r) :
    j.paths sha256 fmt = .ok (previous.map Path.record, .record c) := by
  obtain ⟨r, hr⟩ := hc
  have ho : Backup.optionPath sha256 fmt j.previous = .ok (previous.map Path.record) := by
    have he := h.previous
    revert he
    cases j.previous with
    | none =>
      rintro ⟨⟩
      rfl
    | some b =>
      rintro ⟨hb⟩
      obtain ⟨r, hr⟩ := hp _ rfl
      simp [Backup.optionPath, hb.path_ok hr, pure, Except.pure]
  rw [Journal.paths, h.version, h.candidate.path_ok hr, ho]
  simp [require, hn, pure, Except.pure]

/-- When the backups name their own distinct Generations, undoing is only a matter of time. -/
theorem Interrupted.returns_recover {previous : Option Digest}
    (h : Interrupted fmt before previous c w store) (hn : previous ≠ some c)
    (hpr : ∀ d ∈ previous, ∃ r, StoredAs sha256 fmt before d r)
    (hc : ∃ r, StoredAs sha256 fmt before c r) : ∃ l, Returns (recover sha256 fmt) store () l := by
  obtain ⟨j, hj, h⟩ := h
  have hr : (fmt.fromStr (fmt.print (toJson j)) : Option Journal) = some j :=
    fmt.fromStr_toText (by decide) j
  have hq : ∀ s : Store, Returns (query
      (fun store => .ok (store.contents .pins).isSome) (.io .pins) : Action Bool) s
        (s.contents .pins).isSome s := fun _ => returns_query _ _ rfl
  have hi : ∀ s, ∃ l, Returns j.restorePins s () l := by
    intro s
    unfold Journal.restorePins
    split
    · exact ⟨_, returns_write ..⟩
    · by_cases hp : (s.contents .pins).isSome
      · refine ⟨s.delete .pins, returns_bind (hq s) ?_⟩
        rw [if_pos hp]
        exact returns_bind (returns_remove ..) (returns_probe ..)
      · refine ⟨s, returns_bind (hq s) ?_⟩
        rw [if_neg hp]
        exact returns_pure ..
  have he : ∀ s, ∃ l, Returns (j.restorePrevious (previous.map Path.record)) s () l := by
    intro s
    unfold Journal.restorePrevious
    split
    · exact ⟨_, returns_write ..⟩
    · exact ⟨_, returns_pure ..⟩
  obtain ⟨s₁, h₁⟩ := he store
  obtain ⟨s₂, h₂⟩ := hi (s₁.put (.record c) (utf8 j.candidate.bytes))
  refine ⟨s₂.delete .journal, ?_⟩
  unfold recover
  refine returns_bind (returns_readOptional h.written) ?_
  simp only [hr]
  refine returns_bind (returns_ofExcept (hj.paths_ok hn hpr hc) _) ?_
  refine returns_bind h₁ (returns_bind (returns_write ..) ?_)
  refine returns_bind h₂ (returns_bind (returns_remove ..) ?_)
  exact returns_probe ..

variable (sha256 fmt) in
/-- An activation happens or does not. However it stopped, and however often the rollback was
stopped and run again, once no journal is left the files are exactly the old or exactly the
new ones, and the new ones only when the activation itself had removed the journal. An error
that does not ask for recovery or report uncertainty left the old files. Backups that name
their own distinct Generations can always be rolled back. -/
theorem activateWith_atomic (before : Store) (hbefore : before.contents .journal = none)
    (previous : Option GenerationRecord) (current : GenerationRecord) (activatedAtMs : UInt64)
    (checkpoint : Checkpoint → Except AdmissionError Unit) (faults : List Fault)
    (rollbacks : List (List Fault)) :
    let activation := activateWith sha256 fmt previous current activatedAtMs checkpoint
    let st := activation.leaves faults before
    let f := rollbacks.foldl (fun s faults => (recover sha256 fmt).leaves faults s) st
    let l := before.activated sha256 fmt previous current activatedAtMs
    (f.contents .journal = none → before.Same f ∨ l.Same f ∧ st.contents .journal = none) ∧
    ((activation faults before).1 = .value () → l.Same st) ∧
    (∀ e, (activation faults before).1 = .error e → (∀ g so, e ≠ .commitUncertain g so) →
      (∀ fa so, e ≠ .recoveryRequired fa so) → before.SameData st) ∧
    (previous.map (·.digest sha256 fmt) ≠ some (current.digest sha256 fmt) → (∀ r ∈ previous, ∃ sto,
        StoredAs sha256 fmt before (r.digest sha256 fmt) sto) →
      (∃ sto, StoredAs sha256 fmt before (current.digest sha256 fmt) sto) →
      ∃ se, Program.Returns (recover sha256 fmt) f () se ∧ se.contents .journal = none) := by
  intro activation st f l
  have hp := wp_activateWith sha256 fmt previous current checkpoint activatedAtMs hbefore
  have ha : l.contents .journal = none := activated_journal hbefore
  have ht : Stopped sha256 fmt before previous current activatedAtMs st :=
    (wp_activateWith_stopped sha256 fmt previous current checkpoint activatedAtMs
      hbefore).leaves faults
  have hold : ∀ s, before.Same s → s.contents .journal = none :=
    fun s hs => by rw [hs.contents, hbefore]
  have hw : ∀ s, l.Same s → s.contents .journal = none :=
    fun s hs => by rw [hs.contents, ha]
  have hf := leaves_recover sha256 hbefore (fun _ h => Or.inl h)
    (fun s (hs : before.Same s ∨ l.Same s) => hs.elim (hold s) (hw s)) rollbacks ht
  refine ⟨?_, ?_, ?_, ?_⟩
  · intro hn
    rcases or_assoc.mpr ht with h | h
    · have hu := leaves_recover sha256 hbefore (fun _ h => h) hold rollbacks h
      exact .inl (hu.resolve_left fun h => h.journal_ne hn)
    · exact (hf.resolve_left fun h => h.journal_ne hn).imp_right fun hs => ⟨hs, hw _ h⟩
  · intro hv
    exact hp.value_of hv
  · intro e herr hc hre
    rcases hp.error_of herr with ⟨so, he, _⟩ | ⟨fa, so, he, _⟩ | ⟨hd, _⟩
    · exact absurd he (hc _ _)
    · exact absurd he (hre _ _)
    · exact hd
  · intro hne hpr hcur
    rcases hf with h | h
    · have ho : ∀ d ∈ previous.map (·.digest sha256 fmt),
          ∃ sto, StoredAs sha256 fmt before d sto := by
        intro d hi
        obtain ⟨r, hrec, rfl⟩ := Option.map_eq_some_iff.mp hi
        exact hpr r hrec
      obtain ⟨se, hr⟩ := h.returns_recover hne ho hcur
      refine ⟨se, hr, hold _ ?_⟩
      exact (wp_recover_interrupted hbefore h).returns hr
    · have hse := h.elim (hold _) (hw _)
      refine ⟨f, ?_, hse⟩
      exact Program.returns_bind (Program.returns_query _ _ (by rw [hse])) (Program.returns_pure ..)

end

private def candidateHash : Sha256 := fun bytes => Vector.replicate 32 (UInt8.ofNat bytes.length)

private def candidatePayload : GenerationPayload :=
  .new candidateHash format "domain" 1 none "policy" []

private def candidateRecord : GenerationRecord where
  schema := recordSchema
  generation := (candidatePayload.digest candidateHash format).toString
  payload := candidatePayload
  signature := "armored"
  state := .current
  witness := some ⟨"remote", "branch", "commit", "path", 1000⟩
  admittedAtMs := 1000
  invalidReason := none

private def candidateStore : Store :=
  (Store.mk ∅ none false).putRecord candidateHash format candidateRecord

/-- A first activation stopped before its pin is written, and one stopped rollback. -/
theorem activateWith_atomic_first :
    let activation := activateWith candidateHash format none candidateRecord 2000 fun _ => .ok ()
    let stopped := activation.leaves [.none, .none, .none, .none, .crash] candidateStore
    let final := [[.none, .unconfirmed], []].foldl
      (fun s fs => (recover candidateHash format).leaves fs s) stopped
    final.contents .journal = none → candidateStore.Same final ∨
        (candidateStore.activated candidateHash format none candidateRecord 2000).Same
          final ∧ stopped.contents .journal = none :=
  (activateWith_atomic candidateHash format candidateStore
    (by simp [candidateStore, Store.putRecord]; rfl) none candidateRecord 2000
    (fun _ => .ok ()) [.none, .none, .none, .none, .crash] [[.none, .unconfirmed], []]).1

end Louiselm.Admission
