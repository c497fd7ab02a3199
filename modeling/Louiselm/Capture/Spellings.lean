import Louiselm.Attention.Wire
import Louiselm.Capture.Writes
import Louiselm.Transcription.Recovery

/-!
# Spellings of one UUID

`validate_id` in `capture-service/src/runs.rs` and `capture-service/src/store.rs` accepts a UUID
in letters of either case, while the stores find their records by the text. The check of
`capture-service/src/attention.rs` accepts lower case letters only.
-/

namespace Louiselm.Capture
open Base Canonical Program Attention

/-- A request with other texts for its Run and its mutation. -/
def Call.respell (f : String → String) : Call → Call
  | .admitRun admission token => .admitRun { admission with id := f admission.id } token
  | .attach session => .attach { session with id := f session.id }
  | .reserve reservation nowMs => .reserve
    { reservation with runId := f reservation.runId, mutationId := f reservation.mutationId } nowMs
  | .confirm runId token mutationId issueId => .confirm (f runId) token (f mutationId) issueId
  | .release runId token mutationId => .release (f runId) token (f mutationId)
  | .parkCold draft nowMs => .parkCold { draft with id := f draft.id } nowMs
  | .raise id expectedRevision ceiling => .raise (f id) expectedRevision ceiling
  | .beginResume id expectedRevision operationId nowMs leaseMs =>
    .beginResume (f id) expectedRevision operationId nowMs leaseMs
  | .finalizeResume id expectedRevision operationId succeeded =>
    .finalizeResume (f id) expectedRevision operationId succeeded
  | .reap cleanup listing nowMs => .reap cleanup listing nowMs

section

variable (uuid : String → Option String) (sha256 : Sha256) (id other : String)

/-- One text instead of the other. -/
def spelled (text : String) : String := if text = id then other else text

/-- Two texts stand for one Run, one mutation and one capture: no request and no answer tells
them apart. -/
structure Identified : Prop where
  request : ∀ (calls : List (Call × List Fault)) call faults,
      step uuid sha256 (calls.foldl (step uuid sha256) ∅)
    (call.respell (spelled id other), faults) =
      step uuid sha256 (calls.foldl (step uuid sha256) ∅) (call, faults)
  run : ∀ (calls : List (Call × List Fault)) faults,
      (loadRun uuid id faults (calls.foldl (step uuid sha256) ∅)).1 =
    (loadRun uuid other faults (calls.foldl (step uuid sha256) ∅)).1
  mutation : ∀ (calls : List (Call × List Fault)) faults (reservation : GeneratedWorkReservation)
      nowMs,
    (reserveGeneratedWork uuid sha256 { reservation with mutationId := id } nowMs faults
      (calls.foldl (step uuid sha256) ∅)).1 =
    (reserveGeneratedWork uuid sha256 { reservation with mutationId := other } nowMs faults
      (calls.foldl (step uuid sha256) ∅)).1
  capture : ∀ world, Transcription.Intact uuid world →
    (world.capture uuid id).toOption = (world.capture uuid other).toOption

/-- Attention accepts a condition of this Run. -/
def RunSubject : Prop := ∃ key : AttentionKey, key.subjectKind = .run ∧
  key.subjectId = id ∧ validateKey uuid key = .ok ()

/-- A UUID is printed without white space or control characters. -/
abbrev PrintsSubjects : Prop :=
  ∀ text printed, uuid text = some printed → validSubjectId printed = true

variable {uuid sha256 id other}

theorem validateId_ok : validateId uuid id = .ok () ↔ uuid id = some id.toLower := by
  unfold validateId
  split
  · next h => simp [h]
  · next c h => rw [require_ok, beq_iff_eq, h, Option.some.injEq]

/-- The subjects of Attention are the texts that are accepted and have no upper case letter. -/
theorem runSubject_iff (hu : PrintsSubjects uuid) (hi : validateId uuid id = .ok ()) :
    RunSubject uuid id ↔ id.toLower = id := by
  rw [validateId_ok] at hi
  constructor
  · rintro ⟨key, hk, rfl, he⟩
    have hc := (check_ok.mp he).2
    rw [if_pos hk] at hc
    have hu := (check_ok.mp hc).1
    rw [validateUuid, hi] at hu
    exact beq_iff_eq.mp (require_ok.mp hu)
  · intro hl
    rw [hl] at hi
    have hc : ∀ f, validateUuid uuid id f = .ok () := by
      simp [validateUuid, hi]
    refine ⟨⟨.run, id, .runParked, id⟩, rfl, rfl, ?_⟩
    exact validateKey_ok (require_ok.mpr (hu id id hi)) (fun _ => hc _) (by simp) (by simp) (hc _)

/-- A first admission leaves the record of its Run. -/
theorem returns_admitRun_new {a : RunAdmission} {t : String} {s : RunStore}
    (ha : validateAdmission uuid a = .ok ()) (ht : validateToken t = .ok ())
    (hn : s.lookup a.id = none) : Returns (admitRun uuid sha256 a t) s ()
      (s.insert a.id (admittedRun sha256 a t)) := by
  refine returns_bind (returns_ofExcept ha s) ?_
  refine returns_bind (returns_ofExcept ht s) ?_
  refine returns_bind (returns_probe _ s) ?_
  refine returns_bind (returns_bind (returns_observe _ s) ?_)
    (returns_bind (returns_probe _ _) (returns_pure _ _))
  rw [hn]
  exact returns_write _ _ s

/-- The first record of a Run is found under its text and no other one. -/
theorem Identified.eq (hi : validateId uuid id = .ok ()) (h : Identified uuid sha256 id other) :
    id = other := by
  by_contra hn
  have ha : Returns (admitRun uuid sha256 ⟨id, 1, 1⟩ "0123456789abcdef") ∅ () _ :=
    returns_admitRun_new (check_ok.mpr ⟨hi, rfl⟩) (by decide) rfl
  have ho : AList.lookup id (step uuid sha256 ∅
      (.admitRun ⟨other, 1, 1⟩ "0123456789abcdef", [])) = none :=
    (wp_admitRun_keeps (m := fun s => s.lookup id = none) rfl fun _ _ =>
      AList.lookup_insert_ne hn).leaves []
  have hs := h.request [] (.admitRun ⟨id, 1, 1⟩ "0123456789abcdef") []
  rw [Call.respell, spelled, if_pos rfl] at hs
  have hf := congrArg (AList.lookup id) (hs.trans ha.leaves)
  rw [AList.lookup_insert] at hf
  exact Option.some_ne_none _ (hf.symm.trans ho)

theorem Call.respell_self (c : Call) : c.respell (spelled id id) = c := by
  have hs : spelled id id = fun t => t :=
    funext fun t => if h : t = id then by rw [spelled, if_pos h, h] else if_neg h
  rw [hs]
  cases c <;> rfl

/-- Two texts of one UUID are one Run, one mutation and one capture exactly where they are the
same text. Then they are subjects of Attention, exactly where they have no upper case letter. -/
theorem identified_iff (huuid : PrintsSubjects uuid) (hid : validateId uuid id = .ok ())
    (hother : validateId uuid other = .ok ()) (hsame : uuid id = uuid other) :
    (Identified uuid sha256 id other ↔ id = other) ∧
    (Identified uuid sha256 id other ∧ RunSubject uuid id ∧ RunSubject uuid other ↔
      id.toLower = id ∧ other.toLower = other) := by
  have hs : Identified uuid sha256 id other ↔ id = other := by
    refine ⟨Identified.eq hid, ?_⟩
    rintro rfl
    exact ⟨fun _ c _ => by rw [c.respell_self], fun _ _ => rfl, fun _ _ _ _ => rfl, fun _ _ => rfl⟩
  refine ⟨hs, ?_⟩
  rw [hs, runSubject_iff huuid hid, runSubject_iff huuid hother, and_iff_right_iff_imp]
  rintro ⟨hl, ho⟩
  rw [validateId_ok.mp hid, validateId_ok.mp hother, hl, ho] at hsame
  exact Option.some.inj hsame

end

/-! ### A letter of either case -/

private def lowerId : String := "00000000-0000-4000-8000-00000000000a"

private def upperId : String := "00000000-0000-4000-8000-00000000000A"

/-- What parses and prints this UUID. -/
private def readsCase (text : String) : Option String :=
  if text.toLower = lowerId then some lowerId else none

private theorem readsCase_subject : PrintsSubjects readsCase := by
  intro t p h
  obtain rfl := Option.some.inj (Option.ite_none_right_eq_some.mp h).2
  decide +kernel

theorem identified_iff_case : (Identified readsCase (fun _ => default) lowerId upperId ↔
      lowerId = upperId) ∧
    (Identified readsCase (fun _ => default) lowerId upperId ∧ RunSubject readsCase lowerId ∧
        RunSubject readsCase upperId ↔ lowerId.toLower = lowerId ∧ upperId.toLower = upperId) :=
  identified_iff readsCase_subject (by decide +kernel) (by decide +kernel) (by decide +kernel)

/-- A Run that is admitted under the one text is not found under the other, which is no subject of
Attention. -/
theorem not_identified_upper : ¬∀ (uuid : String → Option String) (sha256 : Sha256)
    (id other : String), PrintsSubjects uuid → validateId uuid id = .ok () →
      validateId uuid other = .ok () → uuid id = uuid other →
      Identified uuid sha256 id other ∧ RunSubject uuid id ∧ RunSubject uuid other := by
  intro h
  obtain ⟨hi, -⟩ := h readsCase (fun _ => default) lowerId upperId
    readsCase_subject (by decide +kernel) (by decide +kernel) (by decide +kernel)
  exact absurd (hi.eq (by decide +kernel)) (by decide +kernel)

end Louiselm.Capture
