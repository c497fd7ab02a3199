import Louiselm.Admission.Transaction
import Louiselm.Base.UndoJournal

/-!
# Undoing an activation

The undo journal of `skills-core/src/admission/transaction.rs` as an instance of undoing:
while it is present the store differs from the one before the activation at most at the
recorded paths, wherever the publication or an earlier rollback stopped.
-/

namespace Louiselm.Admission
open Base Canonical UndoJournal Option Except Function
open Base.Program Store Backup

/-- A read of a file that may be absent. -/
theorem wp_readOptional {path : Path} {p : Program.Post Store AdmissionError (Option String)}
    {store : Store} (hn : store.contents path = none → p.value none store)
    (hs : ∀ te, store.contents path = some (utf8 te) → p.value (some te) store)
    (he : p.error (.io path) store) (hc : p.crashed store) : Wp (readOptional path) p store := by
  apply wp_query
  · intro t h
    split at h
    · next hp =>
      rw [← ok.inj h]
      exact hn hp
    · next b hp =>
      split at h
      · simp at h
      · next te ht =>
        rw [← ok.inj h]
        exact hs te (by rw [hp, utf8_of_fromUTF8? ht])
  · intro error h
    split at h
    · simp at h
    · split at h
      · rw [← Except.error.inj h]
        exact he
      · simp at h
  · exact he
  · exact hc

/-- The same files and keys. -/
structure Store.Same (before after : Store) : Prop where
  contents : after.contents = before.contents
  trust : after.trust = before.trust
  trusted : after.trusted = before.trusted

theorem Store.Same.refl (store : Store) : store.Same store := ⟨rfl, rfl, rfl⟩

/-- The same files and keys but for the journal. -/
structure Store.SameData (before after : Store) : Prop where
  contents : ∀ path, path ≠ .journal → after.contents path = before.contents path
  trust : after.trust = before.trust
  trusted : after.trusted = before.trusted

theorem Store.Same.sameData {before l : Store} (h : before.Same l) :
    before.SameData l := ⟨fun path _ => congrFun h.contents path, h.trust, h.trusted⟩

/-! ### The captured journal -/

/-- The paths an activation replaces. -/
def touched (previous : Option Digest) (candidate : Digest) : List Path :=
  (previous.map Path.record).toList ++ [.record candidate, .pins]

/-- A backup holds the record file of a Generation as it was. -/
structure Backup.Of (before : Store) (digest : Digest) (backup : Backup) : Prop where
  generation : backup.generation = digest.toString
  bytes : before.contents (.record digest) = some (utf8 backup.bytes)

/-- A journal holds the three files as they were. -/
structure Journal.Of (before : Store) (previous : Option Digest) (candidate : Digest)
    (journal : Journal) : Prop where
  version : journal.version = 1
  previous : Option.Rel (Backup.Of before) previous journal.previous
  candidate : Backup.Of before candidate journal.candidate
  pins : before.contents .pins = journal.pins.map utf8

section

variable {sha256 : Sha256} {fmt : JsonFormat}

variable {pa : Path}

/-- A captured backup can only go back to where it came from. -/
theorem Backup.Of.path_eq {before : Store} {d : Digest} {b : Backup} (h : b.Of before d)
    (hp : b.path sha256 fmt = .ok pa) : pa = .record d := by
  rw [path, h.generation, Digest.parse_toString] at hp
  simp only [Except.mapError, ok_bind] at hp
  split at hp
  · simp at hp
  · rw [check_ok] at hp
    exact (ok.inj hp.2).symm

theorem Backup.Of.optionPath_eq {before : Store} {previous : Option Digest}
    {b : Option Backup} {pa : Option Path} (h : Option.Rel (Backup.Of before) previous b)
    (hp : optionPath sha256 fmt b = .ok pa) : pa = previous.map Path.record := by
  cases h with
  | none => exact (ok.inj hp).symm
  | some h =>
    obtain ⟨pa, hp, hs⟩ := bind_ok.mp hp
    rw [h.path_eq hp] at hs
    exact (ok.inj hs).symm

/-- Captured backups can only go back to where they came from. -/
theorem Journal.Of.paths_eq {before : Store} {previous : Option Digest} {candidate : Digest}
    {journal : Journal} {p : Option Path × Path}
    (h : journal.Of before previous candidate) (hp : journal.paths sha256 fmt = .ok p) :
    p = (previous.map Path.record, .record candidate) := by
  rw [Journal.paths, check_ok] at hp
  obtain ⟨cp, hc, hp⟩ := bind_ok.mp hp.2
  obtain ⟨pp, hr, hp⟩ := bind_ok.mp hp
  rw [check_ok] at hp
  rw [← ok.inj hp.2, h.candidate.path_eq hc, Of.optionPath_eq h.previous hr]

/-! ### Rolling back -/

variable (fmt)

/-- The journal is there and all that it does not record is as it was; `keys` of what it
records are still to be put back. No file holds anything but what it held or was to hold. -/
structure Undoing (before : Store) (journal : Journal) (writes : List (Path × Bytes))
    (keys : List Path) (store : Store) : Prop where
  written : store.contents .journal = some (fmt.toVec journal)
  within : Within ((.journal, fmt.toVec journal) :: writes) before.contents store.contents
  agree : AgreeOff (keys ++ [.journal]) before.contents store.contents
  trust : store.trust = before.trust
  trusted : store.trusted = before.trusted

/-- An activation was interrupted before its commit. -/
def Interrupted (before : Store) (previous : Option Digest) (candidate : Digest)
    (writes : List (Path × Bytes)) (store : Store) : Prop :=
  ∃ journal, journal.Of before previous candidate ∧
    Undoing fmt before journal writes (touched previous candidate) store

variable {fmt} {before store : Store} {journal : Journal} {previous : Option Digest}
  {candidate : Digest} {writes : List (Path × Bytes)} {keys : List Path}

theorem Undoing.mono {m : List Path} (h : Undoing fmt before journal writes keys store)
    (hs : keys ⊆ m) : Undoing fmt before journal writes m store :=
  ⟨h.written, h.within, h.agree.mono (List.append_subset.mpr ⟨fun _ hk => by simp [hs hk],
    fun _ hk => by simp at hk ⊢; exact .inr hk⟩), h.trust, h.trusted⟩

/-- A planned write to a recorded file stays undoable. -/
theorem Undoing.put (h : Undoing fmt before journal writes keys store) {b : Bytes} (hp : pa ∈ keys)
    (hn : pa ≠ .journal)
    (hw : (pa, b) ∈ writes) : Undoing fmt before journal writes keys (store.put pa b) where
  written := by
    rw [contents_put, update_of_ne hn.symm, h.written]
  within := by
    rw [contents_put]
    exact h.within.update (List.mem_cons_of_mem _ hw)
  agree := by
    rw [contents_put]
    exact h.agree.update (by simp [hp]) _
  trust := h.trust
  trusted := h.trusted

/-- A file was put back as it was. -/
theorem Undoing.restored (h : Undoing fmt before journal writes (pa :: keys) store)
    (hn : pa ≠ .journal) {l : Store} {b : Option Bytes} (hb : b = before.contents pa)
    (ha : l.contents = Function.update store.contents pa b) (hr : l.trust = store.trust)
    (ht : l.trusted = store.trusted) : Undoing fmt before journal writes keys l where
  written := by
    rw [ha, update_of_ne hn.symm, h.written]
  within := by
    rw [ha]
    exact h.within.update_restored hb
  agree := by
    rw [ha]
    exact h.agree.update_restored hb
  trust := hr.trans h.trust
  trusted := ht.trans h.trusted

/-- With nothing left to put back, removing the journal ends the rollback. -/
theorem Undoing.finish (h : Undoing fmt before journal writes [] store)
    (hb : before.contents .journal = none) : before.Same (store.delete .journal) where
  contents := by
    rw [contents_delete]
    have hc : Captures before.contents [(Path.journal, none)] := by
      simp [Captures, hb]
    exact restore_eq hc h.agree
  trust := h.trust
  trusted := h.trusted

/-- What a rollback leaves when it fails or stops. -/
def RollingBack (fmt : JsonFormat) (before : Store) (journal : Journal) (previous : Option Digest)
    (candidate : Digest) (writes : List (Path × Bytes)) (store : Store) : Prop :=
  Undoing fmt before journal writes (touched previous candidate) store ∨ before.Same store

/-- The specification of a part of the rollback that leaves `keys` to put back. -/
def rollbackPost (fmt : JsonFormat) (before : Store) (journal : Journal)
    (previous : Option Digest) (candidate : Digest) (writes : List (Path × Bytes))
    (keys : List Path) : Program.Post Store AdmissionError Unit where
  value _ := Undoing fmt before journal writes keys
  error _ := RollingBack fmt before journal previous candidate writes
  crashed := RollingBack fmt before journal previous candidate writes

/-- Putting one file back. -/
theorem wp_restoreFile {b : Bytes} (h : Undoing fmt before journal writes (pa :: keys) store)
    (hn : pa ≠ .journal) (hb : before.contents pa = some b)
    (hs : pa :: keys ⊆ touched previous candidate) : Wp (writeAtomic pa b)
      (rollbackPost fmt before journal previous candidate writes keys) store := by
  have ha : Undoing fmt before journal writes keys (store.put pa b) :=
    h.restored hn hb.symm (contents_put ..) rfl rfl
  exact wp_write ha (.inl (h.mono hs))
    (.inl (ha.mono (fun _ hk => hs (List.mem_cons_of_mem _ hk)))) (.inl (h.mono hs))

theorem wp_restorePrevious (hj : journal.Of before previous candidate)
    (h : Undoing fmt before journal writes (touched previous candidate) store) :
    Wp (journal.restorePrevious (previous.map Path.record))
      (rollbackPost fmt before journal previous candidate writes [.record candidate, .pins])
          store := by
  have hr := hj.previous
  unfold Journal.restorePrevious
  revert h hr
  cases journal.previous with
  | none =>
    rintro h ⟨⟩
    exact wp_pure.mpr h
  | some b =>
    rintro h ⟨hb⟩
    exact wp_restoreFile h (by simp) hb.bytes (fun _ hk => hk)

theorem wp_restorePins (hj : journal.Of before previous candidate)
    (h : Undoing fmt before journal writes [.pins] store) : Wp journal.restorePins
      (rollbackPost fmt before journal previous candidate writes []) store := by
  have hu : [Path.pins] ⊆ touched previous candidate := by simp [touched]
  have hs : RollingBack fmt before journal previous candidate writes store := .inl (h.mono hu)
  unfold Journal.restorePins
  have hp := hj.pins
  split
  · next pins ho =>
    rw [ho] at hp
    exact wp_restoreFile h (by simp) hp hu
  · next hn =>
    rw [hn] at hp
    have hd : Undoing fmt before journal writes [] (store.delete .pins) :=
      h.restored (by simp) hp.symm (contents_delete ..) rfl rfl
    apply wp_bind
    refine wp_query ?_ (by simp) hs hs
    intro p hpr
    obtain rfl := ok.inj hpr
    dsimp only
    split
    · apply wp_bind
      refine wp_remove ?_ hs hs
      have hr : RollingBack fmt before journal previous candidate writes (store.delete .pins) :=
        .inl (hd.mono (by simp))
      exact wp_probe hd hr hr
    · next ha =>
      refine wp_pure.mpr (h.restored (by simp) hp.symm ?_ rfl rfl)
      rw [not_isSome_iff_eq_none] at ha
      rw [map_none, ← ha, update_eq_self]

/-- A rollback puts everything back, however often it stopped before. -/
theorem wp_recover_interrupted (hb : before.contents .journal = none)
    (h : Interrupted fmt before previous candidate writes store) : Wp (recover sha256 fmt)
      ⟨fun _ => before.Same,
        fun _ s => Interrupted fmt before previous candidate writes s ∨ before.Same s,
        fun s => Interrupted fmt before previous candidate writes s ∨ before.Same s⟩ store := by
  obtain ⟨journal, hj, h⟩ := h
  have hst : ∀ s, RollingBack fmt before journal previous candidate writes s →
      Interrupted fmt before previous candidate writes s ∨ before.Same s :=
    fun s hs => hs.imp (fun hu => ⟨journal, hj, hu⟩) id
  suffices ho : Wp (recover sha256 fmt)
      ⟨fun _ => before.Same, fun _ => RollingBack fmt before journal previous candidate writes,
        RollingBack fmt before journal previous candidate writes⟩ store from
    ho.mono (fun _ _ hs => hs) (fun _ => hst) hst
  unfold recover
  apply wp_bind
  refine wp_readOptional ?_ ?_ (.inl h) (.inl h)
  · intro hn
    rw [h.written] at hn
    simp at hn
  · intro t ht
    rw [h.written, JsonFormat.toVec, some.injEq, utf8_inj] at ht
    have he : (fmt.fromStr t : Option Journal) = some journal := by
      rw [← ht]
      exact fmt.fromStr_toText (by decide) journal
    simp only [he]
    apply wp_bind
    refine wp_ofExcept ?_ (fun _ _ => .inl h)
    intro p hp
    obtain rfl := hj.paths_eq hp
    apply wp_bind
    refine (wp_restorePrevious hj h).mono ?_ (fun _ _ hs => hs) (fun _ hs => hs)
    intro _ s hs
    apply wp_bind
    refine (wp_restoreFile hs (by simp) hj.candidate.bytes (by simp [touched])).mono ?_
      (fun _ _ hs => hs) (fun _ hs => hs)
    intro _ s hs
    apply wp_bind
    refine (wp_restorePins hj hs).mono ?_ (fun _ _ hs => hs) (fun _ hs => hs)
    intro _ s hs
    have hr : RollingBack fmt before journal previous candidate writes s := .inl (hs.mono (by simp))
    have hd := hs.finish hb
    apply wp_bind
    refine wp_remove ?_ hr hr
    exact wp_probe hd (.inr hd) (.inr hd)

end

/-! ### Publishing -/

section

variable (sha256 : Sha256) (fmt : JsonFormat)

/-- A store with a record at the path of its identity. -/
def Store.putRecord (store : Store) (record : GenerationRecord) : Store :=
  store.put (.record (record.digest sha256 fmt)) (fmt.toVec record)

/-- A store whose replaced Generation, if any, is left superseded. -/
def Store.superseded (store : Store) (previous : Option GenerationRecord) : Store :=
  match previous with
  | none => store
  | some previous => store.putRecord sha256 fmt previous.supersede

/-- The Supply lineage of a store, empty when there is none. -/
def Store.lineage (store : Store) : String :=
  ((store.contents .pins).bind fun bytes => String.fromUTF8? ⟨bytes.toArray⟩).getD ""

/-- The store that a completed activation leaves. -/
def Store.activated (store : Store) (previous : Option GenerationRecord)
    (current : GenerationRecord) (activatedAtMs : UInt64) : Store :=
  ((store.superseded sha256 fmt previous).putRecord sha256 fmt current).put .pins
    (utf8 (store.lineage ++ pinLine fmt current activatedAtMs))

variable {sha256 fmt} {before store : Store} {journal : Journal}
  {previous : Option GenerationRecord} {current : GenerationRecord}
  {c : Checkpoint → Except AdmissionError Unit}

@[simp] theorem GenerationRecord.digest_supersede (r : GenerationRecord) :
    r.supersede.digest sha256 fmt = r.digest sha256 fmt := rfl

theorem Journal.Of.lineage {previous : Option Digest} {candidate : Digest}
    (h : journal.Of before previous candidate) : before.lineage = journal.pins.getD "" := by
  rw [Store.lineage, h.pins]
  cases journal.pins with
  | none => rfl
  | some pins => simp [fromUTF8?_utf8]

/-- Reading a backup changes nothing. -/
theorem wp_capture {d : Digest} : Wp (capture d)
      ⟨fun b s => before = s ∧ b.Of before d, fun _ s => before = s,
        fun s => before = s⟩ before := by
  unfold capture
  apply wp_bind
  refine wp_readOptional ?_ ?_ rfl rfl
  · intro _
    exact wp_fail.mpr rfl
  · intro t ht
    exact wp_pure.mpr ⟨rfl, rfl, ht⟩

theorem wp_captureOption {previous : Option Digest} : Wp (captureOption previous)
      ⟨fun b s => before = s ∧ Option.Rel (Backup.Of before) previous b,
        fun _ s => before = s, fun s => before = s⟩ before := by
  cases previous with
  | none => exact wp_pure.mpr ⟨rfl, .none⟩
  | some d =>
    apply wp_bind
    refine wp_capture.mono ?_ (fun _ _ hs => hs) (fun _ hs => hs)
    rintro b _ ⟨rfl, hb⟩
    exact wp_pure.mpr ⟨rfl, .some hb⟩

/-- The journal of an activation holds the three files as they are. -/
theorem wp_captureJournal : Wp (captureJournal sha256 fmt previous current)
      ⟨fun journal s => before = s ∧
          journal.Of before (previous.map (·.digest sha256 fmt)) (current.digest sha256 fmt),
        fun _ s => before = s, fun s => before = s⟩ before := by
  unfold captureJournal
  apply wp_bind
  refine wp_captureOption.mono ?_ (fun _ _ hs => hs) (fun _ hs => hs)
  rintro b _ ⟨rfl, hr⟩
  apply wp_bind
  refine wp_capture.mono ?_ (fun _ _ hs => hs) (fun _ hs => hs)
  rintro candidate s ⟨rfl, hc⟩
  apply wp_bind
  refine wp_readOptional ?_ ?_ rfl rfl
  · intro hp
    exact wp_pure.mpr ⟨rfl, rfl, hr, hc, hp⟩
  · intro t hp
    exact wp_pure.mpr ⟨rfl, rfl, hr, hc, hp⟩

variable (sha256 fmt) in
/-- The paths an activation of these records replaces. -/
def touchedBy (previous : Option GenerationRecord) (current : GenerationRecord) : List Path :=
  touched (previous.map (·.digest sha256 fmt)) (current.digest sha256 fmt)

variable (sha256 fmt) in
/-- The files an activation writes. -/
def plannedWrites (before : Store) (previous : Option GenerationRecord)
    (current : GenerationRecord) (activatedAtMs : UInt64) : List (Path × Bytes) :=
  (previous.map fun previous =>
      (Path.record (previous.digest sha256 fmt), fmt.toVec previous.supersede)).toList ++
    [(.record (current.digest sha256 fmt), fmt.toVec current),
      (.pins, utf8 (before.lineage ++ pinLine fmt current activatedAtMs))]

variable (sha256 fmt) in
/-- The journal is there and an activation of these records can be undone. -/
def Publishing (before : Store) (journal : Journal) (previous : Option GenerationRecord)
    (current : GenerationRecord) (activatedAtMs : UInt64) (store : Store) : Prop :=
  Undoing fmt before journal (plannedWrites sha256 fmt before previous current activatedAtMs)
    (touchedBy sha256 fmt previous current) store

variable (sha256 fmt) in
/-- An activation of these records was interrupted before its commit. -/
def ActivationInterrupted (before : Store) (previous : Option GenerationRecord)
    (current : GenerationRecord) (activatedAtMs : UInt64) (store : Store) : Prop :=
  Interrupted fmt before (previous.map (·.digest sha256 fmt)) (current.digest sha256 fmt)
    (plannedWrites sha256 fmt before previous current activatedAtMs) store

variable {activatedAtMs : UInt64}

theorem wp_supersedePrevious
    (h : Publishing sha256 fmt before journal previous current activatedAtMs store) :
    Wp (supersedePrevious sha256 fmt previous c)
      ⟨fun _ s => s = store.superseded sha256 fmt previous ∧
          Publishing sha256 fmt before journal previous current activatedAtMs s,
        fun _ => Publishing sha256 fmt before journal previous current activatedAtMs,
        Publishing sha256 fmt before journal previous current activatedAtMs⟩ store := by
  cases previous with
  | none => exact wp_pure.mpr ⟨rfl, h⟩
  | some previous =>
    have hp : Publishing sha256 fmt before journal (some previous) current activatedAtMs
        (store.putRecord sha256 fmt previous.supersede) :=
      h.put (by simp [touchedBy, touched]) (by simp) (by simp [plannedWrites])
    apply wp_bind
    refine wp_write ?_ h hp h
    exact wp_ofExcept (fun _ _ => ⟨rfl, hp⟩) (fun _ _ => hp)

/-- Removing the journal after the three files are replaced leaves the activated store. -/
theorem activated_delete {l : Store} (hb : before.contents .journal = none)
    (h : l = (((before.put .journal (fmt.toVec journal)).superseded sha256 fmt
      previous).putRecord sha256 fmt current).put .pins
        (utf8 (before.lineage ++ pinLine fmt current activatedAtMs))) :
    (before.activated sha256 fmt previous current activatedAtMs).Same (l.delete .journal) := by
  subst h
  refine ⟨?_, ?_, ?_⟩
  · funext path
    by_cases hp : path = .journal
    · subst hp
      cases previous <;>
        simp [activated, putRecord, superseded, hb, Function.update]
    · cases previous <;>
        simp [activated, putRecord, superseded, hp, Function.update]
  · cases previous <;> rfl
  · cases previous <;> rfl

/-- A publication that does not complete can be undone. -/
theorem wp_publish (hb : before.contents .journal = none)
    (h : Publishing sha256 fmt before journal previous current activatedAtMs
      (before.put .journal (fmt.toVec journal))) : Wp (publish sha256 fmt previous current c
        (before.lineage ++ pinLine fmt current activatedAtMs))
      ⟨fun _ => (before.activated sha256 fmt previous current activatedAtMs).Same,
        fun _ => Publishing sha256 fmt before journal previous current activatedAtMs,
        Publishing sha256 fmt before journal previous current activatedAtMs⟩
      (before.put .journal (fmt.toVec journal)) := by
  unfold publish
  apply wp_bind
  refine wp_ofExcept ?_ (fun _ _ => h)
  intro _ _
  apply wp_bind
  refine (wp_supersedePrevious h).mono ?_ (fun _ _ hs => hs) (fun _ hs => hs)
  rintro _ s ⟨hs, h⟩
  have hr : Publishing sha256 fmt before journal previous current activatedAtMs
      (s.putRecord sha256 fmt current) := h.put (by simp [touchedBy, touched]) (by simp)
          (by simp [plannedWrites])
  apply wp_bind
  refine wp_write ?_ h hr h
  apply wp_bind
  refine wp_ofExcept ?_ (fun _ _ => hr)
  intro _ _
  have hp : Publishing sha256 fmt before journal previous current activatedAtMs
      ((s.putRecord sha256 fmt current).put .pins
        (utf8 (before.lineage ++ pinLine fmt current activatedAtMs))) :=
    hr.put (by simp [touchedBy, touched]) (by simp) (by simp [plannedWrites])
  apply wp_bind
  refine wp_write ?_ hr hp hr
  apply wp_bind
  refine wp_ofExcept ?_ (fun _ _ => hp)
  intro _ _
  exact wp_remove (activated_delete hb (by rw [hs]; rfl)) hp hp

/-- Where an activation can stop: to be undone, as before, or in force. -/
def Stopped (sha256 : Sha256) (fmt : JsonFormat) (before : Store)
    (previous : Option GenerationRecord) (current : GenerationRecord) (activatedAtMs : UInt64)
    (store : Store) : Prop :=
  ActivationInterrupted sha256 fmt before previous current activatedAtMs store ∨
    before.Same store ∨ (before.activated sha256 fmt previous current activatedAtMs).Same store

/-- How an activation can end: in force, reported as uncertain but in force, undone, still to
be undone because undoing failed as well, or stopped with the journal in place. -/
def activationPost (sha256 : Sha256) (fmt : JsonFormat) (before : Store)
    (previous : Option GenerationRecord) (current : GenerationRecord) (activatedAtMs : UInt64) :
    Program.Post Store AdmissionError Unit where
  value _ s := (before.activated sha256 fmt previous current activatedAtMs).Same s
  error error s :=
    (∃ source, error = .commitUncertain current.generation source ∧
      (before.activated sha256 fmt previous current activatedAtMs).Same s) ∨
    (∃ failure source, error = .recoveryRequired failure source ∧
      (ActivationInterrupted sha256 fmt before previous current activatedAtMs s ∨ before.Same s)) ∨
    (before.SameData s ∧
      (ActivationInterrupted sha256 fmt before previous current activatedAtMs s ∨ before.Same s))
  crashed := Stopped sha256 fmt before previous current activatedAtMs

/-- Undoing a failed publication restores the old files or leaves them to be restored. -/
theorem wp_rollBack (hb : before.contents .journal = none)
    (h : ActivationInterrupted sha256 fmt before previous current activatedAtMs store)
    (f : AdmissionError) : Wp (rollBack sha256 fmt f)
      (activationPost sha256 fmt before previous current activatedAtMs) store := by
  unfold rollBack
  apply wp_bind
  apply wp_handle
  refine (wp_recover_interrupted hb h).mono ?_ ?_ ?_
  · intro _ s hs
    exact wp_fail.mpr (.inr (.inr ⟨hs.sameData, .inr hs⟩))
  · intro so s hs
    exact wp_fail.mpr (.inr (.inl ⟨f, so, rfl, hs⟩))
  · intro s hs
    exact hs.imp id .inl

theorem wp_settle (h : (before.activated sha256 fmt previous current activatedAtMs).Same store) :
    Wp (settle current c)
      (activationPost sha256 fmt before previous current activatedAtMs) store := by
  have hf : ∀ s, Wp (Program.fail (.commitUncertain current.generation s) : Action Unit)
      (activationPost sha256 fmt before previous current activatedAtMs) store :=
    fun s => wp_fail.mpr (.inl ⟨s, rfl, h⟩)
  unfold settle
  apply wp_handle
  apply wp_bind
  refine wp_ofExcept ?_ (fun s _ => hf s)
  intro _ _
  exact wp_probe h (hf _) (.inr (.inr h))

variable (sha256 fmt previous current c) in
/-- Every way an activation can end. -/
theorem wp_activateWith (activatedAtMs : UInt64) (hb : before.contents .journal = none) :
    Wp (activateWith sha256 fmt previous current activatedAtMs c)
      (activationPost sha256 fmt before previous current activatedAtMs) before := by
  have ha : before.SameData before ∧
      (ActivationInterrupted sha256 fmt before previous current activatedAtMs before ∨
        before.Same before) := ⟨(Same.refl before).sameData, .inr (.refl before)⟩
  unfold activateWith
  apply wp_bind
  refine wp_captureJournal.mono ?_ ?_ ?_
  · rintro journal _ ⟨rfl, hj⟩
    have ht : Publishing sha256 fmt before journal previous current activatedAtMs
        (before.put .journal (fmt.toVec journal)) := by
      refine ⟨by simp, ?_, ?_, rfl, rfl⟩
      · rw [contents_put]
        exact (Within.refl _ _).update (by simp)
      · rw [contents_put]
        exact (AgreeOff.refl _ _).update (by simp) _
    apply wp_bind
    refine wp_write ?_ (.inr (.inr ha)) ?_ (.inr (.inl (.refl _)))
    · apply wp_bind
      apply wp_handle
      rw [← hj.lineage]
      refine (wp_publish hb ht).mono ?_ ?_ ?_
      · intro _ s hs
        exact wp_settle hs
      · intro f s hs
        exact (wp_rollBack hb ⟨journal, hj, hs⟩ f).mono (fun _ _ hs => wp_settle hs)
          (fun _ _ hs => hs) (fun _ hs => hs)
      · intro s hs
        exact .inl ⟨journal, hj, hs⟩
    · refine .inr (.inr ⟨⟨?_, rfl, rfl⟩, .inl ⟨journal, hj, ht⟩⟩)
      intro path hp
      rw [contents_put, update_of_ne hp]
  · rintro e _ rfl
    exact .inr (.inr ha)
  · rintro _ rfl
    exact .inr (.inl (.refl _))

variable (sha256 fmt previous current c) in
/-- Whatever way an activation ends, it is undone, to be undone or in force. -/
theorem wp_activateWith_stopped (activatedAtMs : UInt64) (hb : before.contents .journal = none) :
    Wp (activateWith sha256 fmt previous current activatedAtMs c)
      ⟨fun _ => Stopped sha256 fmt before previous current activatedAtMs,
        fun _ => Stopped sha256 fmt before previous current activatedAtMs,
        Stopped sha256 fmt before previous current activatedAtMs⟩ before := by
  refine (wp_activateWith sha256 fmt previous current c activatedAtMs hb).mono ?_ ?_ (fun _ h => h)
  · intro _ s h
    exact .inr (.inr h)
  · rintro e s (⟨_, _, h⟩ | ⟨_, _, _, h⟩ | ⟨_, h⟩)
    · exact .inr (.inr h)
    · exact h.imp id .inl
    · exact h.imp id .inl

end
end Louiselm.Admission
