import Louiselm.Base.Runs
import Louiselm.Broker.SkillRequests

/-!
# Skill requests along every run

The requests of `Broker/SkillRequests` under calls that may stop at any of their operations,
and the outbox that other producers use as well. A request is settled once, by the call that a
permit names, and what was left of a call is made up for by a later one.
-/

namespace Louiselm.Broker.SkillRequests
open Base Canonical List Option Bool
open Base.Program
open Broker.Authorization (Records Stored)
open Guard Directory

/-! ### What a store says -/

/-- A request is in the store. -/
def Recorded (s : Store) (record : Record) : Prop := ∃ name, (name, .whole record) ∈ s.requests

/-- A request has an outcome. -/
def Final (s : Store) (record : Record) : Prop :=
  ∃ outcome, s.outcomes.lookup (outcomePath record.operationId) = some (.whole outcome)

/-- The outbox was told of a change. -/
def Told (s : Store) (item : Named) : Prop := ∃ log, s.outbox.Logs log ∧ item ∈ log

/-- A name that requests do not use. -/
def Foreign (name : String) : Prop :=
  ∀ operation, name ≠ "skill-pending-" ++ operation ∧ name ≠ "skill-finished-" ++ operation

/-- The outbox was told of a request, and of its end where it has one. -/
def Projected (s : Store) (record : Record) : Prop :=
  Told s record.pendingItem ∧ (Final s record → Told s record.finishedItem)

section

variable (format : Format)

/-- A subject has its end marker. -/
def Ended (s : Store) (subject : AttentionSubject) : Prop :=
  subject.isSupply = false ∧ s.ended.lookup (endedPath format subject) = some (.whole subject)

/-- The Run that is a subject was observed as disposed. -/
def Disposed (s : Store) (subject : AttentionSubject) : Prop :=
  ∃ observed, subject = .run observed.runId ∧ observed.state = .disposed ∧
    0 < observed.revision ∧ s.runs.lookup (runPath observed.runId) = some (.whole observed)

end

/-- What the outbox was told: every change once, of a request before its end, and of an end
only where there is one. -/
structure Tells (s : Store) (log : List Named) : Prop where
  nodup : (log.map Prod.fst).Nodup
  each : ∀ item ∈ log, Foreign item.1 ∨ ∃ record, Recorded s record ∧
    (item = record.pendingItem ∨ item = record.finishedItem ∧ Final s record)
  order : ∀ (record : Record) before after, log = before ++ record.finishedItem :: after →
    record.pendingItem ∈ before

/-- Requests have operations of their own, outcomes are those of requests, an approved one
has the digest of its Admission, and the outbox was told as it should. -/
structure Sound (s : Store) : Prop where
  operations : ∀ left right, Recorded s left → Recorded s right →
    left.operationId = right.operationId → left = right
  owned : ∀ operation stored, s.outcomes.lookup (outcomePath operation) = some stored →
    ∃ record, Recorded s record ∧ record.operationId = operation
  final : ∀ name outcome, s.outcomes.lookup name = some (.whole outcome) → outcome ≠ .pending
  approved : ∀ operation, s.outcomes.lookup (outcomePath operation) = some (.whole .approved) →
    ∃ digest, s.admissions.lookup operation = some (.whole digest)
  told : ∃ log, s.outbox.Logs log ∧ Tells s log

theorem sound_empty : Sound .empty where
  operations := fun _ _ h => by
    obtain ⟨_, h⟩ := h
    simp [Store.empty] at h
  owned := fun _ _ h => by simp [Store.empty] at h
  final := fun _ _ h => by simp [Store.empty] at h
  approved := fun _ h => by simp [Store.empty] at h
  told := by
    refine ⟨[], logs_empty, nodup_nil, forall_mem_nil _, fun _ _ _ h => ?_⟩
    simp at h

/-! ### What a call may do -/

/-- Which requests a call may add, which outcomes it may give, from which evidence, whose end
markers it may leave, and whether it may replace the observation of a Run. -/
structure Permit where
  accepts : Record → Prop
  settles : Record → SkillRequestOutcome → Prop
  verified : Record → String → Prop
  ends : AttentionSubject → Prop
  observes : Prop

/-- What becomes of a store: files stay, and new ones are those that a permit names. -/
structure Moves (format : Format) (permit : Permit) (s s' : Store) : Prop where
  stays : ∀ record, Recorded s record → Recorded s' record
  outcomes : Grows s.outcomes s'.outcomes
  admissions : Grows s.admissions s'.admissions
  ended : Grows s.ended s'.ended
  told : ∀ log, s.outbox.Logs log → ∃ later, s'.outbox.Logs later ∧ log <+: later
  accepted : ∀ record, Recorded s' record → Recorded s record ∨ permit.accepts record ∧
    s.outcomes.lookup (outcomePath record.operationId) = none ∧
    ¬ Ended format s record.subject ∧ ¬ Ended format s (.session record.binding.sessionId)
  settled : ∀ operation outcome, s.outcomes.lookup (outcomePath operation) = none →
    s'.outcomes.lookup (outcomePath operation) = some (.whole outcome) →
    ∃ record, Recorded s' record ∧ record.operationId = operation ∧
      permit.settles record outcome ∧ (outcome = .approved → ∃ digest,
        permit.verified record digest ∧ s'.admissions.lookup operation = some (.whole digest))
  ends : ∀ subject, Ended format s' subject → Ended format s subject ∨ permit.ends subject
  runs : permit.observes ∨ s'.runs = s.runs

section

variable {format : Format} {permit : Permit} {s t u : Store} {re : Record}
  {subject : AttentionSubject} {item : Named}

theorem Moves.refl (s : Store) : Moves format permit s s where
  stays := fun _ h => h
  outcomes := .refl _
  admissions := .refl _
  ended := .refl _
  told := fun log h => ⟨log, h, prefix_refl _⟩
  accepted := fun _ h => .inl h
  settled := fun _ _ hn hs => by simp [hn] at hs
  ends := fun _ h => .inl h
  runs := .inr rfl

theorem Ended.grows (h : Ended format s subject) (hg : Grows s.ended t.ended) :
    Ended format t subject := ⟨h.1, hg _ _ h.2⟩

theorem Moves.trans (h : Moves format permit s t) (hl : Moves format permit t u) :
    Moves format permit s u where
  stays := fun re hr => hl.stays re (h.stays re hr)
  outcomes := h.outcomes.trans hl.outcomes
  admissions := h.admissions.trans hl.admissions
  ended := h.ended.trans hl.ended
  told := fun log hg => by
    obtain ⟨mid, hm, hf⟩ := h.told log hg
    obtain ⟨l, hlo, hsc⟩ := hl.told mid hm
    exact ⟨l, hlo, hf.trans hsc⟩
  accepted := fun re hr => by
    rcases hl.accepted re hr with hm | ⟨hc, hn, hu, hse⟩
    · exact h.accepted re hm
    · exact .inr ⟨hc, h.outcomes.lookup_eq_none hn,
        fun he => hu (he.grows h.ended), fun he => hse (he.grows h.ended)⟩
  settled := fun op outcome hn hso => by
    cases hm : t.outcomes.lookup (outcomePath op) with
    | none => exact hl.settled op outcome hm hso
    | some st =>
      have hs := hl.outcomes _ _ hm
      rw [hso] at hs
      rw [← some.inj hs] at hm
      obtain ⟨re, hr, hop, hst, hv⟩ :=
        h.settled op outcome hn hm
      refine ⟨re, hl.stays re hr, hop, hst, fun ha => ?_⟩
      obtain ⟨d, hd, ht⟩ := hv ha
      exact ⟨d, hd, hl.admissions _ _ ht⟩
  ends := fun subject he => (hl.ends subject he).elim (h.ends subject) .inr
  runs := by
    rcases h.runs with ho | hs
    · exact .inl ho
    · exact hl.runs.imp id fun hla => hla.trans hs

theorem Final.moves (h : Final s re) (hm : Moves format permit s t) : Final t re := by
  obtain ⟨outcome, ho⟩ := h
  exact ⟨outcome, hm.outcomes _ _ ho⟩

theorem Told.moves (h : Told s item) (hm : Moves format permit s t) : Told t item := by
  obtain ⟨log, ho, hi⟩ := h
  obtain ⟨l, hl, hp⟩ := hm.told log ho
  exact ⟨l, hl, hp.subset hi⟩

/-- The requests of a store, and what a call may make of it. -/
def guard (format : Format) (permit : Permit) : Guard Store where
  invariant := Sound
  moves := Moves format permit
  refl := .refl
  trans := .trans

end

/-! ### Telling the outbox -/

section

variable {format : Format} {permit : Permit} {s : Store} {record : Record} {log : List Named}
  {item : Named}

theorem pendingItem_ne_finishedItem (l r : Record) : l.pendingItem ≠ r.finishedItem := by
  intro h
  have hc := congrArg Prod.snd h
  simp [Record.pendingItem, Record.finishedItem] at hc

/-- What a change needs for the outbox to be told of it. -/
def Sends (s : Store) (item : Named) : Prop :=
  Foreign item.1 ∨ ∃ record, Recorded s record ∧ (item = record.pendingItem ∨
    item = record.finishedItem ∧ Final s record ∧ Told s record.pendingItem)

theorem Tells.logged (h : Tells s log) (hg : s.outbox.Logs log) (hi : Sends s item) :
    Tells s (Mailbox.logged log item) := by
  unfold Mailbox.logged
  split
  · exact h
  · next hfr =>
    refine ⟨?_, ?_, fun record pre l hs => ?_⟩
    · rw [map_append, map_singleton]
      refine nodup_append.mpr ⟨h.nodup, nodup_singleton _, ?_⟩
      rintro n hn o ho rfl
      exact hfr (mem_singleton.mp ho ▸ hn)
    · refine forall_mem_append.mpr ⟨h.each, forall_mem_singleton.mpr ?_⟩
      refine hi.imp id ?_
      rintro ⟨record, hr, hp | ⟨hf, hfi, -⟩⟩
      · exact ⟨record, hr, .inl hp⟩
      · exact ⟨record, hr, .inr ⟨hf, hfi⟩⟩
    · rcases eq_nil_or_concat l with rfl | ⟨xs, la, rfl⟩
      · -- the end of the request is the change that is told
        obtain ⟨rfl, hl⟩ := append_inj' hs rfl
        obtain rfl : item = record.finishedItem := by simpa using hl
        rcases hi with hfo | ⟨held, -, hp | ⟨hf, -, hb⟩⟩
        · exact absurd rfl (hfo record.operationId).2
        · exact absurd hp.symm (pendingItem_ne_finishedItem held record)
        · have hop : "skill-finished-" ++ record.operationId =
              "skill-finished-" ++ held.operationId := congrArg Prod.fst hf
          have hc : ProjectionChange.clear record.condition = .clear held.condition :=
            congrArg Prod.snd hf
          have ha : record.pendingItem = held.pendingItem := by
            simp only [Record.pendingItem, Prod.mk.injEq]
            simp only [String.append_right_inj] at hop
            simp only [ProjectionChange.clear.injEq] at hc
            rw [hop, hc]
            exact ⟨rfl, rfl⟩
          obtain ⟨o, ho, hm⟩ := hb
          rw [hg.unique ho, ha]
          exact hm
      · have hl : pre ++ record.finishedItem :: (xs ++ [la]) =
            (pre ++ record.finishedItem :: xs) ++ [la] := by simp
        rw [concat_eq_append, hl] at hs
        exact h.order record pre xs (append_inj' hs rfl).1

/-- An outbox that has one more change that it may have. -/
theorem Sound.outbox (h : Sound s) (hlog : s.outbox.Logs log) (ht : Tells s log) (hi : Sends s item)
    {a : Outbox} (ha : a.Logs log ∨ a.Logs (Mailbox.logged log item)) :
    Sound { s with outbox := a } ∧ Moves format permit s { s with outbox := a } := by
  have hg : ∃ l, a.Logs l ∧ Tells s l ∧ log <+: l := by
    rcases ha with hsa | hlo
    · exact ⟨log, hsa, ht, prefix_refl _⟩
    · refine ⟨_, hlo, ht.logged hlog hi, ?_⟩
      unfold Mailbox.logged
      split
      · exact prefix_refl _
      · exact prefix_append _ _
  obtain ⟨l, hl, hs, hp⟩ := hg
  constructor
  · exact ⟨h.operations, h.owned, h.final, h.approved, l, hl, hs.nodup, hs.each, hs.order⟩
  · refine { Moves.refl s with told := fun o ho => ?_ }
    rw [ho.unique hlog]
    exact ⟨l, hl, hp⟩

theorem send_keeps (h : Sound s) (hi : Sends s item) :
    (guard format permit).Keeps ((mailbox format).send item) s fun _ s' => Told s' item := by
  obtain ⟨log, hl, ht⟩ := h.told
  refine Mailbox.wp_send hl (fun l ha hm => ?_) (fun _ l ha => ?_) fun l ha => ?_
  · exact ⟨h.outbox hl ht hi (.inr ha), _, ha, hm⟩
  · exact h.outbox hl ht hi ha
  · exact h.outbox hl ht hi ha

end

/-! ### Reading -/

section

variable {format : Format} {s : Store} {record : Record} {subject : AttentionSubject} {oi : String}

theorem syncFile_reads : Reads syncFile s fun _ => True := reads_look

/-- What a status says of a request. -/
def Answers (s : Store) (record : Record) (status : SkillRequestStatus) : Prop :=
  ∃ outcome admission, status = record.status outcome admission ∧
    (outcome = .pending ∧ s.outcomes.lookup (outcomePath record.operationId) = none ∨
      outcome ≠ .pending ∧
        s.outcomes.lookup (outcomePath record.operationId) = some (.whole outcome)) ∧
    admission.isSome = (outcome == .approved) ∧
    ∀ digest, admission = some digest → s.admissions.lookup record.operationId =
        some (.whole digest)

theorem result_reads : Reads (result format record) s (Answers s record) := by
  refine wp_bind (wp_read (fun hn => ?_) (fun outcome hu => ?_) (fun _ => rfl) rfl)
  · refine wp_pure.mpr ⟨rfl, .pending, none, rfl, .inl ⟨rfl, hn⟩, rfl, fun _ h => ?_⟩
    simp at h
  · have hp : outcome ≠ .pending → outcome ≠ .approved → Reads (do
          syncFile
          return record.status outcome none) s (Answers s record) := by
      intro he ha
      refine syncFile_reads.bind fun _ _ => reads_pure ?_
      refine ⟨outcome, none, rfl, .inr ⟨he, hu⟩, ?_, fun _ h => by simp at h⟩
      simpa using ha
    cases outcome with
    | pending => exact reads_fail
    | approved =>
      refine syncFile_reads.bind fun _ _ => ?_
      refine wp_bind (wp_read (fun _ => ?_) (fun d hd => ?_) (fun _ => rfl) rfl)
      · exact reads_fail
      · refine Reads.bind reads_check fun _ _ => ?_
        refine syncFile_reads.bind fun _ _ => reads_pure ?_
        refine ⟨.approved, some d, rfl, .inr ⟨by decide, hu⟩, rfl, fun o ho => ?_⟩
        rw [← some.inj ho]
        exact hd
    | rejected => exact hp (by decide) (by decide)
    | cancelled => exact hp (by decide) (by decide)

theorem ended_reads :
    Reads (ended format subject) s fun ie => ie = true ↔ Ended format s subject := by
  unfold ended
  split
  · next hs => exact reads_pure ⟨fun h => by simp at h, fun h => by simp [h.1] at hs⟩
  · next hs =>
    refine wp_bind (wp_read (fun hn => ?_) (fun p hp => ?_) (fun _ => rfl) rfl)
    · refine wp_pure.mpr ⟨rfl, fun h => by simp at h, fun he => ?_⟩
      have hl : s.ended.lookup (endedPath format subject) = none := hn
      simp [he.2] at hl
    · refine Reads.bind (reads_ofExcept fun _ h => require_ok.mp h) fun _ ha => ?_
      obtain rfl := eq_of_beq ha
      exact reads_pure ⟨fun _ => ⟨eq_false_of_not_eq_true hs, hp⟩, fun _ => rfl⟩

/-- The requests that are read are those of the store. -/
theorem records_reads :
    Reads (records format) s fun all => ∀ record, record ∈ all ↔ Recorded s record := by
  refine Reads.bind reads_look fun _ _ => ?_
  refine wp_bind (wp_scan (fun xs hi => ?_) (fun _ => rfl) rfl)
  refine reads_ofExcept fun all ha => ?_
  have hl : all = xs.map Prod.snd := by
    have hm := mapM_ok.mp ha
    clear hi ha
    induction hm with
    | nil => rfl
    | cons hit _ ih =>
      obtain ⟨-, hs⟩ := check_ok.mp hit
      rw [map_cons, ← ih, ← Except.ok.inj hs]
  intro record
  have hf : s.requests = xs.map fun item => (item.1, Stored.whole item.2) := hi
  unfold Recorded
  rw [hl, hf]
  simp

theorem record_reads : Reads (SkillRequests.record format oi) s fun record =>
    Recorded s record ∧ record.operationId = oi := by
  refine records_reads.bind fun all ha => ?_
  split
  · next record hf =>
    refine reads_pure ⟨(ha record).mp (mem_of_find?_eq_some hf), ?_⟩
    have hop := List.find?_some hf
    exact eq_of_beq hop
  · exact reads_fail

end

/-! ### Files that a call adds -/

section

variable {format : Format} {permit : Permit} {s : Store} {record : Record}
  {outcome : SkillRequestOutcome} {subject : AttentionSubject}

theorem outcomePath_inj {op o : String} :
    outcomePath op = outcomePath o ↔ op = o := String.append_left_inj _

/-- A permit lets a call give a request an outcome. -/
def MaySettle (permit : Permit) (s : Store) (record : Record) (outcome : SkillRequestOutcome) :
    Prop :=
  outcome ≠ .pending ∧ permit.settles record outcome ∧ (outcome = .approved → ∃ digest,
    permit.verified record digest ∧ s.admissions.lookup record.operationId = some (.whole digest))

theorem MaySettle.of_plain (hp : outcome ≠ .pending ∧ outcome ≠ .approved)
    (hs : permit.settles record outcome) : MaySettle permit s record outcome :=
  ⟨hp.1, hs, fun ha => absurd ha hp.2⟩

/-- A request with the file of an outcome that it may have. -/
theorem Sound.settle (h : Sound s) (hr : Recorded s record) (hm : MaySettle permit s record outcome)
    {st : Stored SkillRequestOutcome} (ht : ∀ f, st = .whole f → f = outcome) :
    let s' := { s with outcomes := s.outcomes ++ [(outcomePath record.operationId, st)] }
    Sound s' ∧ Moves format permit s s' := by
  constructor
  · refine { operations := h.operations, owned := fun op f hf => ?_,
             final := fun n f hf => ?_, approved := fun op hf => ?_, told := ?_ }
    · rcases of_lookup_append hf with hb | ⟨-, hn, -⟩
      · exact h.owned op f hb
      · exact ⟨record, hr, (outcomePath_inj.mp hn).symm⟩
    · rcases of_lookup_append hf with hb | ⟨-, -, hs⟩
      · exact h.final n f hb
      · rw [ht f hs.symm]
        exact hm.1
    · rcases of_lookup_append hf with hb | ⟨-, hn, hs⟩
      · exact h.approved op hb
      · obtain ⟨d, -, hd⟩ := hm.2.2 (ht _ hs.symm).symm
        rw [outcomePath_inj.mp hn]
        exact ⟨d, hd⟩
    · obtain ⟨log, hl, hno, he, ho⟩ := h.told
      refine ⟨log, hl, hno, fun item hi => (he item hi).imp id ?_, ho⟩
      rintro ⟨held, hh, hp | ⟨hfi, f, hfn⟩⟩
      · exact ⟨held, hh, .inl hp⟩
      · exact ⟨held, hh, .inr ⟨hfi, f, grows_append _ _ _ _ hfn⟩⟩
  · refine { Moves.refl s with
      outcomes := grows_append _ _
      settled := fun op f hb hf => ?_ }
    rcases of_lookup_append hf with hso | ⟨-, hn, hs⟩
    · simp [hb] at hso
    · obtain rfl := ht f hs.symm
      obtain rfl := outcomePath_inj.mp hn
      exact ⟨record, hr, rfl, hm.2⟩

theorem finishRecord_keeps (h : Sound s) (hr : Recorded s record)
    (hm : MaySettle permit s record outcome) :
    (guard format permit).Keeps (finishRecord format record outcome) s fun _ s' =>
      s'.outcomes.lookup (outcomePath record.operationId) = some (.whole outcome) := by
  refine wp_bind (wp_read (fun hn => ?_) (fun p hp => ?_) (fun _ => ⟨h, .refl s⟩) ⟨h, .refl s⟩)
  · have hn : s.outcomes.lookup (outcomePath record.operationId) = none := hn
    have hint : ∀ s', (outcomeFiles format).Interrupted (outcomePath record.operationId)
        outcome s s' → Sound s' ∧ Moves format permit s s' := by
      intro s' hs'
      cases hs' with
      | nothing => exact ⟨h, .refl s⟩
      | torn _ => exact h.settle hr hm fun _ hf => by simp at hf
      | whole _ => exact h.settle hr hm fun _ hf => (by simpa using hf.symm)
    refine wp_create (fun ha => ⟨hint _ (.whole ha), ?_⟩) (fun _ => hint) hint
    exact lookup_append_new hn
  · refine (reads_ofExcept fun _ h => require_ok.mp h).keeps_bind h fun _ hs => ?_
    obtain rfl := eq_of_beq hs
    refine (keeps_reads h syncFile_reads).mono ?_
    rintro _ _ - - ⟨rfl, -⟩
    exact hp

/-- The end marker of a subject that may have one. -/
theorem Sound.mark (h : Sound s) (he : permit.ends subject) {st : Stored AttentionSubject}
    (ht : ∀ f, st = .whole f → f = subject) :
    let s' := { s with ended := s.ended ++ [(endedPath format subject, st)] }
    Sound s' ∧ Moves format permit s s' := by
  constructor
  · obtain ⟨log, hl, hn, ha, hr⟩ := h.told
    exact ⟨h.operations, h.owned, h.final, h.approved, log, hl, hn, ha, hr⟩
  · refine { Moves.refl s with
      ended := grows_append _ _
      ends := fun o ho => ?_ }
    rcases of_lookup_append ho.2 with hb | ⟨-, -, hs⟩
    · exact .inl ⟨ho.1, hb⟩
    · rw [ht o hs.symm]
      exact .inr he

/-- The request that a call adds under an operation of its own. -/
theorem Sound.add (h : Sound s) (ha : permit.accepts record)
    (hf : ∀ held, Recorded s held → held.operationId ≠ record.operationId)
    (hu : ¬ Ended format s record.subject)
    (hse : ¬ Ended format s (.session record.binding.sessionId)) {name : String}
    {stored : Stored Record} (ht : ∀ found, stored = .whole found → found = record) :
    let s' := { s with requests := s.requests ++ [(name, stored)] }
    Sound s' ∧ Moves format permit s s' := by
  have hold : ∀ held, Recorded s held →
      Recorded { s with requests := s.requests ++ [(name, stored)] }
      held := fun held hh => by
    obtain ⟨other, hm⟩ := hh
    exact ⟨other, mem_append_left _ hm⟩
  have hw : ∀ held, Recorded { s with requests := s.requests ++ [(name, stored)] } held →
      Recorded s held ∨ held = record := by
    rintro held ⟨other, hm⟩
    rcases mem_append.mp hm with hb | hla
    · exact .inl ⟨other, hb⟩
    · have hp := mem_singleton.mp hla
      exact .inr (ht held (congrArg Prod.snd hp).symm)
  constructor
  · refine { operations := fun left right hl hr hs => ?_,
             owned := fun operation found hfo => ?_, final := h.final, approved := h.approved,
             told := ?_ }
    · rcases hw left hl with hl | rfl <;> rcases hw right hr with hr | rfl
      · exact h.operations left right hl hr hs
      · exact absurd hs (hf left hl)
      · exact absurd hs.symm (hf right hr)
      · rfl
    · obtain ⟨held, hh, hop⟩ := h.owned operation found hfo
      exact ⟨held, hold held hh, hop⟩
    · obtain ⟨log, hg, hn, he, ho⟩ := h.told
      refine ⟨log, hg, hn, fun item hi => (he item hi).imp id ?_, ho⟩
      rintro ⟨held, hh, hi⟩
      exact ⟨held, hold held hh, hi⟩
  · refine { Moves.refl s with
      stays := hold
      accepted := fun held hh => ?_
      settled := fun operation outcome hno hso => by simp [hno] at hso }
    rcases hw held hh with hb | rfl
    · exact .inl hb
    · refine .inr ⟨ha, ?_, hu, hse⟩
      cases hlo : s.outcomes.lookup (outcomePath held.operationId) with
      | none => rfl
      | some found =>
        obtain ⟨other, hot, hop⟩ := h.owned _ _ hlo
        exact absurd hop (hf other hot)

end

/-! ### Calls -/

/-- A settled request that the outbox knows of. -/
def Settled (s : Store) (record : Record) : Prop :=
  Final s record ∧ Told s record.pendingItem ∧ Told s record.finishedItem

section

variable {format : Format} {permit : Permit} {s : Store} {record : Record}
  {out : SkillRequestOutcome} {subject : AttentionSubject}

theorem Settled.moves {s' : Store} (h : Settled s record) (hm : Moves format permit s s') :
    Settled s' record :=
  ⟨h.1.moves hm, h.2.1.moves hm, h.2.2.moves hm⟩

theorem Projected.settled (h : Projected s record) (hf : Final s record) : Settled s record :=
  ⟨hf, h.1, h.2 hf⟩

/-- A status tells whether a request has an outcome. -/
theorem Answers.final {stt : SkillRequestStatus} (h : Answers s record stt) :
    stt.outcome ≠ .pending ↔ Final s record := by
  obtain ⟨out, a, rfl, ⟨rfl, hn⟩ | ⟨he, hs⟩, -⟩ := h
  · refine ⟨fun he => absurd rfl he, fun hf => ?_⟩
    obtain ⟨f, ho⟩ := hf
    simp [hn] at ho
  · exact ⟨fun _ => ⟨out, hs⟩, fun _ => he⟩

theorem project_keeps (h : Sound s) (hr : Recorded s record) :
    (guard format permit).Keeps (project format record) s fun _ s' => Projected s' record := by
  refine (send_keeps h (.inr ⟨record, hr, .inl rfl⟩)).bind fun _ t ht hm ho => ?_
  refine result_reads.keeps_bind ht fun stt hs => ?_
  split
  · next hn =>
    have hf := hs.final.mp hn
    refine (send_keeps ht (.inr ⟨record, hm.stays record hr,
      .inr ⟨rfl, hf, ho⟩⟩)).mono fun _ t' _ hl hi => ?_
    exact ⟨ho.moves hl, fun _ => hi⟩
  · next hp =>
    exact keeps_pure ht ⟨ho, fun hf => absurd (hs.final.mpr hf) hp⟩

theorem cancel_keeps (h : Sound s) (hr : Recorded s record)
    (hs : permit.settles record .cancelled) :
    (guard format permit).Keeps (cancel format record) s fun _ s' => Final s' record := by
  refine result_reads.keeps_bind h fun stt ht => ?_
  split
  · refine (finishRecord_keeps h hr (.of_plain (by decide) hs)).mono ?_
    exact fun _ t _ _ hl => ⟨_, hl⟩
  · next hn => exact keeps_pure h (ht.final.mp hn)

/-- A request that is cancelled and told of is settled. -/
theorem close_keeps (h : Sound s) (hr : Recorded s record)
    (hs : permit.settles record .cancelled) : (guard format permit).Keeps (do
      cancel format record
      project format record) s fun _ s' => Settled s' record := by
  refine (cancel_keeps h hr hs).bind fun _ t ht hm hf => ?_
  refine (project_keeps ht (hm.stays record hr)).mono fun _ t' _ hl hp => ?_
  exact hp.settled (hf.moves hl)

theorem markEnded_keeps (h : Sound s) (he : permit.ends subject) (hs : subject.isSupply = false) :
    (guard format permit).Keeps (markEnded format subject) s
      fun _ s' => Ended format s' subject := by
  refine wp_bind (wp_read (fun hn => ?_) (fun p hp => ?_) (fun _ => ⟨h, .refl s⟩) ⟨h, .refl s⟩)
  · have hint : ∀ s', (endedFiles format).Interrupted (endedPath format subject) subject s s' →
        Sound s' ∧ Moves format permit s s' := by
      intro s' hs'
      cases hs' with
      | nothing => exact ⟨h, .refl s⟩
      | torn _ => exact h.mark he fun _ hf => by simp at hf
      | whole _ => exact h.mark he fun _ hf => (by simpa using hf.symm)
    refine wp_create (fun ha => ⟨hint _ (.whole ha), hs, ?_⟩) (fun _ => hint) hint
    exact lookup_append_new hn
  · refine (reads_ofExcept fun _ h => require_ok.mp h).keeps_bind h fun _ hsa => ?_
    obtain rfl := eq_of_beq hsa
    refine (keeps_reads h syncFile_reads).mono ?_
    rintro _ _ - - ⟨rfl, -⟩
    exact ⟨hs, hp⟩

/-- An end leaves the marker of its subject and settles the requests of it. -/
theorem endLocked_keeps (h : Sound s) (hn : permit.ends subject)
    (hse : ∀ record : Record, record.subject = subject → permit.settles record .cancelled) :
    (guard format permit).Keeps (endLocked format subject) s fun _ s' =>
      Ended format s' subject ∧
        ∀ record, Recorded s' record → record.subject = subject → Settled s' record := by
  refine (reads_ofExcept fun _ h => require_ok.mp h).keeps_bind h fun _ hsu => ?_
  refine (markEnded_keeps h hn (by simpa using hsu)).bind fun _ t ht hm he => ?_
  refine records_reads.keeps_bind ht fun all ha => ?_
  have hlo : (guard format permit).Keeps
      ((all.filter fun record => record.subject == subject).forM fun record => do
        cancel format record
        project format record) t fun _ s' =>
      ∀ record ∈ all.filter fun record => record.subject == subject, Settled s' record :=
    keeps_forM (fun _ _ _ _ hm hs => hs.moves hm) ht fun record hmem u hu hl => close_keeps hu
        (hl.stays record ((ha record).mp (mem_of_mem_filter hmem)))
        (hse record (eq_of_beq (mem_filter.mp hmem).2))
  refine hlo.mono fun _ u _ hl hs => ⟨he.grows hl.ended, ?_⟩
  intro record hr hb
  -- a request that the loop did not see was added to a subject that had not ended
  rcases hl.accepted record hr with hf | ⟨-, -, ho, -⟩
  · exact hs record (mem_filter.mpr ⟨(ha record).mpr hf, beq_iff_eq.mpr hb⟩)
  · exact absurd (hb ▸ he) ho

theorem checkNew_reads : Reads (checkNew format record) s fun _ =>
    ¬ Ended format s (.session record.binding.sessionId) ∧ ¬ Ended format s record.subject := by
  have ho : ∀ {ie : Bool} {subject : AttentionSubject},
      (ie = true ↔ Ended format s subject) → (!ie) = true → ¬ Ended format s subject := by
    intro ie subject he hn ht
    simp [he.mpr ht] at hn
  refine Reads.bind reads_check fun _ _ => ?_
  refine ended_reads.bind fun _ hs => ?_
  refine Reads.bind (reads_ofExcept fun _ h => require_ok.mp h) fun _ hso => ?_
  refine ended_reads.bind fun _ hsu => ?_
  refine Reads.bind (reads_ofExcept fun _ h => require_ok.mp h) fun _ hu => ?_
  refine records_reads.bind fun _ _ => ?_
  refine Reads.bind reads_check fun _ _ => ?_
  have hv := And.intro (ho hs hso) (ho hsu hu)
  unfold checkRun
  split
  · exact reads_pure hv
  · refine wp_bind (wp_read (fun _ => ?_) (fun _ _ => ?_) (fun _ => rfl) rfl)
    · exact reads_fail
    · exact reads_ofExcept fun _ _ => hv

/-- What a call leaves that reports on a request. -/
def Reports (s : Store) (record : Record) (status : SkillRequestStatus) : Prop :=
  Recorded s record ∧ Projected s record ∧ Answers s record status

theorem report_keeps (h : Sound s) (hr : Recorded s record) : (guard format permit).Keeps (do
      project format record
      result format record) s fun stt s' => Reports s' record stt := by
  refine (project_keeps h hr).bind fun _ t ht hm hp => ?_
  refine (keeps_reads ht result_reads).mono ?_
  rintro stt _ - - ⟨rfl, ha⟩
  exact ⟨hm.stays record hr, hp, ha⟩

theorem accept_keeps {b : Binding} {req : SkillRequest} {p : Option ApprovedSkillRequests}
    {ms : UInt64} {ou : Except BrokerError String} (h : Sound s)
    (hacc : ∀ record : Record, record.binding = b → record.request = req → permit.accepts record)
    (hfr : ∀ opi, ou = .ok opi → ∀ held, Recorded s held → held.operationId ≠ opi) :
    (guard format permit).Keeps (accept format b req p ms ou) s
      fun stt s' => ∃ record, record.binding = b ∧ record.request = req ∧
        Reports s' record stt := by
  refine reads_check.keeps_bind h fun _ _ => ?_
  refine wp_bind (wp_read (fun hn => ?_) (fun record hre => ?_)
    (fun _ => ⟨h, .refl s⟩) ⟨h, .refl s⟩)
  · refine (reads_ofExcept fun _ h => h).keeps_bind h fun opi hi => ?_
    dsimp only
    refine checkNew_reads.keeps_bind h fun _ ho => ?_
    generalize hw : (⟨b, req, opi, ms⟩ : Record) = record at ho ⊢
    have hp : record.binding = b ∧ record.request = req ∧ record.operationId = opi := by
      rw [← hw]
      exact ⟨rfl, rfl, rfl⟩
    obtain ⟨hb, hq, hop⟩ := hp
    have ha : ∀ {st : Stored Record}, (∀ f, st = .whole f → f = record) →
        Sound { s with requests := s.requests ++
          [(requestPath format b.sessionId req.requestId, st)] } ∧
        Moves format permit s { s with requests := s.requests ++
          [(requestPath format b.sessionId req.requestId, st)] } := fun hst =>
      h.add (hacc record hb hq) (hop ▸ hfr opi hi) ho.2 ho.1
        hst
    have hint : ∀ s', (requestFiles format).Interrupted
        (requestPath format b.sessionId req.requestId) record s s' →
        Sound s' ∧ Moves format permit s s' := by
      intro s' hs'
      cases hs' with
      | nothing => exact ⟨h, .refl s⟩
      | torn _ => exact ha fun _ hf => by simp at hf
      | whole _ => exact ha fun _ hf => (by simpa using hf.symm)
    have hc : (guard format permit).Keeps ((requestFiles format).create
        (requestPath format b.sessionId req.requestId) record) s fun _ s' =>
        Recorded s' record :=
      wp_create (fun habs => ⟨hint _ (.whole habs), requestPath format b.sessionId req.requestId,
        mem_append_right _ (mem_singleton_self _)⟩) (fun _ => hint) hint
    refine hc.bind fun _ t ht hm he => ?_
    exact (report_keeps ht he).mono fun _ _ _ _ hr =>
      ⟨record, hb, hq, hr⟩
  · have he : Recorded s record := by
      obtain ⟨pre, l, hsp, -⟩ := lookup_eq_some_iff.mp hre
      have hfi : s.requests = _ := hsp
      refine ⟨requestPath format b.sessionId req.requestId, ?_⟩
      rw [hfi]
      exact mem_append_right _ mem_cons_self
    refine (reads_ofExcept fun _ h => require_ok.mp h).keeps_bind h fun _ hs => ?_
    simp only [and_eq_true, beq_iff_eq] at hs
    refine syncFile_reads.keeps_bind h fun _ _ => ?_
    exact (report_keeps h he).mono fun _ _ _ _ hr =>
      ⟨record, hs.1.2, hs.2, hr⟩

theorem finish_keeps {ou : UInt32} {opi : String} (h : Sound s)
    (hs : ∀ record : Record, record.operationId = opi →
      out = .rejected ∨ out = .cancelled → permit.settles record out) :
    (guard format permit).Keeps (finish format ou opi out) s
      fun stt s' => ∃ record, record.operationId = opi ∧
        s'.outcomes.lookup (outcomePath opi) = some (.whole out) ∧
        Reports s' record stt := by
  refine record_reads.keeps_bind h fun record hf => ?_
  obtain ⟨he, rfl⟩ := hf
  refine (reads_ofExcept fun _ h => require_ok.mp h).keeps_bind h fun _ hc => ?_
  simp only [and_eq_true, or_eq_true, beq_iff_eq] at hc
  have ha : MaySettle permit s record out := by
    refine .of_plain ?_ (hs record rfl hc.2)
    rcases hc.2 with rfl | rfl
    · decide
    · decide
  refine (finishRecord_keeps h he ha).bind fun _ t ht hm hl => ?_
  refine (report_keeps ht (hm.stays record he)).mono fun _ u _ hla hr => ?_
  exact ⟨record, rfl, hla.outcomes _ _ hl, hr⟩

theorem recordAdmission_keeps {g : String} (h : Sound s) :
    (guard format permit).Keeps (recordAdmission format record g) s fun _ s' =>
      s'.admissions.lookup record.operationId = some (.whole g) := by
  have ha : ∀ st, Sound { s with admissions := s.admissions ++ [(record.operationId, st)] } ∧
      Moves format permit s
        { s with admissions := s.admissions ++ [(record.operationId, st)] } := by
    intro st
    obtain ⟨log, hl, hno, he, ho⟩ := h.told
    refine ⟨⟨h.operations, h.owned, h.final, fun op hf => ?_, log, hl, hno, he,
      ho⟩, { Moves.refl s with
        admissions := grows_append _ _
        settled := fun _ _ hn hs => by simp [hn] at hs }⟩
    obtain ⟨d, hd⟩ := h.approved op hf
    exact ⟨d, grows_append _ _ _ _ hd⟩
  refine wp_bind (wp_read (fun hn => ?_) (fun p hp => ?_) (fun _ => ⟨h, .refl s⟩) ⟨h, .refl s⟩)
  · have hint : ∀ s', (admissionFiles format).Interrupted record.operationId g s s' →
        Sound s' ∧ Moves format permit s s' := by
      intro s' hs'
      cases hs' with
      | nothing => exact ⟨h, .refl s⟩
      | torn _ => exact ha _
      | whole _ => exact ha _
    refine wp_create (fun hb => ⟨hint _ (.whole hb), ?_⟩) (fun _ => hint) hint
    exact lookup_append_new hn
  · refine (reads_ofExcept fun _ h => require_ok.mp h).keeps_bind h fun _ hsa => ?_
    obtain rfl := eq_of_beq hsa
    refine (keeps_reads h syncFile_reads).mono ?_
    rintro _ _ - - ⟨rfl, -⟩
    exact hp

section

variable {so : AdmissionSource} (h : Sound s) (hr : Recorded s record)
  (hc : Ended format s record.subject → permit.settles record .cancelled)
  (ha : ∀ d, so record.operationId record.request = .ok (some d) →
    ¬ Ended format s record.subject → permit.settles record .approved ∧ permit.verified record d)
include h hr hc ha

theorem settle_keeps :
    (guard format permit).Keeps (settle format record so) s fun _ _ => True := by
  refine ended_reads.keeps_bind h fun ie he => ?_
  split
  · next hy =>
    exact (finishRecord_keeps h hr (.of_plain (by decide) (hc (he.mp hy)))).mono
      fun _ _ _ _ _ => trivial
  · next hn =>
    refine (reads_ofExcept fun _ h => h).keeps_bind h fun f hf => ?_
    cases f with
    | none => exact keeps_pure h trivial
    | some d =>
      obtain ⟨hs, hv⟩ := ha d hf fun hh => hn (he.mpr hh)
      refine (recordAdmission_keeps h).bind fun _ t ht hm hd => ?_
      exact (finishRecord_keeps ht (hm.stays record hr) ⟨by decide, hs,
        fun _ => ⟨d, hv, hd⟩⟩).mono fun _ _ _ _ _ => trivial

theorem resolve_keeps :
    (guard format permit).Keeps (resolve format record so) s fun _ s' => Projected s' record := by
  refine result_reads.keeps_bind h fun stt _ => ?_
  split
  · exact project_keeps h hr
  · refine (settle_keeps h hr hc ha).bind fun _ t ht hm _ => ?_
    exact project_keeps ht (hm.stays record hr)

end

theorem observeRun_keeps {o : RunLifecycle} (h : Sound s) (ho : permit.observes)
    (hen : o.state = .disposed → permit.ends (.run o.runId))
    (hs : o.state = .disposed → ∀ record : Record,
      record.subject = .run o.runId → permit.settles record .cancelled) :
    (guard format permit).Keeps (observeRun format o) s fun _ s' =>
      o.state = .disposed → Ended format s' (.run o.runId) ∧
        ∀ record, Recorded s' record → record.subject = .run o.runId →
          Settled s' record := by
  refine reads_check.keeps_bind h fun _ _ => ?_
  refine read_reads.keeps_bind h fun _ _ => ?_
  refine reads_check.keeps_bind h fun _ _ => ?_
  have hw : ∀ runs, Sound { s with runs } ∧ Moves format permit s { s with runs } := by
    intro runs
    obtain ⟨log, hl, hn, ha, hr⟩ := h.told
    exact ⟨⟨h.operations, h.owned, h.final, h.approved, log, hl, hn, ha, hr⟩, { Moves.refl s with
        settled := fun _ _ hno hso => by simp [hno] at hso
        runs := .inl ho }⟩
  refine (keeps_write h (hw _)).bind fun _ t ht _ _ => ?_
  split
  · next hd =>
    exact (endLocked_keeps ht (hen hd) (hs hd)).mono fun _ _ _ _ he _ => he
  · next hot => exact keeps_pure ht fun hd => absurd hd hot

end

/-! ### Reconciling -/

/-- What a reconciliation may do: end the Runs that were observed as disposed, and cancel the
requests of what has ended. -/
def reconcilePermit (format : Format) (start : Store) : Permit where
  accepts := fun _ => False
  settles := fun record outcome => outcome = .cancelled ∧
    (Ended format start record.subject ∨ Disposed start record.subject)
  verified := fun _ _ => False
  ends := Disposed start
  observes := False

section

variable {format : Format} {start s : Store} {record : Record}

theorem disposed_settles (subject : AttentionSubject) (hd : Disposed start subject) :
    ∀ record : Record, record.subject = subject →
      (reconcilePermit format start).settles record .cancelled := by
  rintro record rfl
  exact ⟨rfl, .inr hd⟩

theorem endDisposed_keeps (h : Sound s) (hm : Moves format (reconcilePermit format start) start s) :
    (guard format (reconcilePermit format start)).Keeps (endDisposed format record) s fun _ s' =>
      Disposed start record.subject → Ended format s' record.subject := by
  have hr : s.runs = start.runs := hm.runs.resolve_left id
  unfold endDisposed
  split
  · next id hsu =>
    rw [hsu]
    refine read_reads.keeps_bind h fun f hfo => ?_
    have hl : start.runs.lookup (runPath id) = f.map .whole := by
      rw [← hr]
      exact hfo
    split
    · next ha =>
      obtain ⟨fa, rfl, hf⟩ := (any_eq_true _ _).mp ha
      simp only [and_eq_true, beq_iff_eq, decide_eq_true_eq] at hf
      obtain ⟨⟨rfl, hv⟩, ht⟩ := hf
      have hd : Disposed start (.run fa.runId) := ⟨fa, rfl, ht, hv, hl⟩
      exact (endLocked_keeps h hd (disposed_settles _ hd)).mono fun _ _ _ _ he _ => he.1
    · next hn =>
      refine keeps_pure h fun hd => absurd ?_ hn
      obtain ⟨fa, hu, ht, hv, hs⟩ := hd
      obtain rfl := AttentionSubject.run.inj hu
      rw [hl] at hs
      obtain ⟨held, rfl, hh⟩ := map_eq_some_iff.mp hs
      obtain rfl : held = fa := by simpa using hh
      simpa [ht] using hv
  · next ho =>
    refine keeps_pure h fun hd => ?_
    obtain ⟨fa, hu, -⟩ := hd
    exact absurd hu (ho fa.runId)

theorem cancelEnded_keeps (h : Sound s) (hr : Recorded s record)
    (hm : Moves format (reconcilePermit format start) start s) :
    (guard format (reconcilePermit format start)).Keeps (cancelEnded format record) s fun _ s' =>
      Ended format s record.subject → Final s' record := by
  refine ended_reads.keeps_bind h fun ie he => ?_
  split
  · next hy =>
    have hs : (reconcilePermit format start).settles record .cancelled :=
      ⟨rfl, hm.ends _ (he.mp hy)⟩
    exact (cancel_keeps h hr hs).mono fun _ _ _ _ hf _ => hf
  · next hn => exact keeps_pure h fun ht => absurd (he.mpr ht) hn

/-- What a reconciliation has done for a request: the outbox knows what there is to know, and
where its subject has ended the request has an outcome. -/
structure Reconciled (format : Format) (start s : Store) (record : Record) : Prop where
  recorded : Recorded s record
  projected : Projected s record
  final : Ended format start record.subject ∨ Disposed start record.subject → Final s record

/-- The rest of the reconciliation undoes nothing of it. -/
theorem Reconciled.moves {t : Store} (h : Reconciled format start s record) (ht : Sound t)
    (hm : Moves format (reconcilePermit format start) s t) : Reconciled format start t record := by
  refine ⟨hm.stays record h.recorded, ⟨h.projected.1.moves hm, fun hf => ?_⟩,
    fun he => (h.final he).moves hm⟩
  suffices hb : Final s record from (h.projected.2 hb).moves hm
  obtain ⟨outcome, hu⟩ := hf
  cases hl : s.outcomes.lookup (outcomePath record.operationId) with
  | none =>
    obtain ⟨o, ho, hop, ⟨-, he⟩, -⟩ := hm.settled _ _ hl hu
    rw [ht.operations o record ho (hm.stays record h.recorded) hop] at he
    exact h.final he
  | some st =>
    have hs := hm.outcomes _ _ hl
    rw [hu] at hs
    rw [← some.inj hs] at hl
    exact ⟨outcome, hl⟩

theorem reconcileRecord_keeps (h : Sound s) (hr : Recorded s record)
    (hm : Moves format (reconcilePermit format start) start s) :
    (guard format (reconcilePermit format start)).Keeps (reconcileRecord format record) s fun _
    s' =>
      Reconciled format start s' record := by
  refine (endDisposed_keeps h hm).bind fun _ t ht hf hd => ?_
  have ht' := hm.trans hf
  refine (cancelEnded_keeps ht (hf.stays record hr) ht').bind fun _ u hu hs hi => ?_
  have hc := hs.stays record (hf.stays record hr)
  refine (project_keeps hu hc).mono fun _ v _ hh hp => ?_
  refine ⟨hh.stays record hc, hp, fun he => ?_⟩
  refine (hi ?_).moves hh
  exact he.elim (fun hb => hb.grows ht'.ended) hd

/-- After a reconciliation the outbox knows of every request and of every end, and no request
of a subject that has ended is pending. -/
theorem reconcile_keeps (h : Sound s) :
    (guard format (reconcilePermit format s)).Keeps (reconcile format) s fun _ s' =>
      ∀ record, Recorded s' record →
        Projected s' record ∧ (Ended format s' record.subject → Final s' record) := by
  refine records_reads.keeps_bind h fun all ha => ?_
  have hl : (guard format (reconcilePermit format s)).Keeps
      (all.forM (reconcileRecord format)) s fun _ s' =>
        ∀ record ∈ all, Reconciled format s s' record :=
    keeps_forM (fun _ _ _ ht hm hd => hd.moves ht hm) h fun record hmem t ht hm =>
        reconcileRecord_keeps ht (hm.stays record ((ha record).mp hmem)) hm
  refine hl.mono fun _ t _ hm hd record hc => ?_
  rcases hm.accepted record hc with hb | ⟨hacc, -⟩
  · have hr := hd record ((ha record).mpr hb)
    exact ⟨hr.projected, fun he => hr.final (hm.ends _ he)⟩
  · exact absurd hacc id

end

/-! ### Runs -/

/-- One call, with what befalls its operations, or a change that another producer enqueues. -/
inductive Event where
  | accept (binding : Binding) (request : SkillRequest) (permission : Option ApprovedSkillRequests)
      (nowMs : UInt64) (operationUuid : Except BrokerError String) (faults : List Fault)
  | finish (operatorUid : UInt32) (operationId : String) (outcome : SkillRequestOutcome)
      (faults : List Fault)
  | resolve (record : Record) (source : AdmissionSource) (faults : List Fault)
  | endSubject (subject : AttentionSubject) (faults : List Fault)
  | terminalReceipt (subject : AttentionSubject) (append : Except BrokerError Unit)
      (faults : List Fault)
  | reconcile (faults : List Fault)
  | observeRun (observed : RunLifecycle) (faults : List Fault)
  | other (item : Named) (faults : List Fault)

namespace Event

/-- The call, and the status that it may return. -/
def program (format : Format) : Event → Program Store BrokerError (Option SkillRequestStatus)
  | .accept binding request permission nowMs operationUuid _ => do
    let status ← SkillRequests.accept format binding request permission nowMs operationUuid
    return some status
  | .finish operatorUid operationId outcome _ => do
    let status ← SkillRequests.finish format operatorUid operationId outcome
    return some status
  | .resolve record source _ => do
    SkillRequests.resolve format record source
    return none
  | .endSubject subject _ => do
    SkillRequests.endSubject format subject
    return none
  | .terminalReceipt subject append _ => do
    SkillRequests.terminalReceipt format subject append
    return none
  | .reconcile _ => do
    SkillRequests.reconcile format
    return none
  | .observeRun observed _ => do
    SkillRequests.observeRun format observed
    return none
  | .other item _ => do
    (mailbox format).send item
    return none

def faults : Event → List Fault
  | .accept _ _ _ _ _ faults => faults
  | .finish _ _ _ faults => faults
  | .resolve _ _ faults => faults
  | .endSubject _ faults => faults
  | .terminalReceipt _ _ faults => faults
  | .reconcile faults => faults
  | .observeRun _ faults => faults
  | .other _ faults => faults

/-- A permit for no more than some outcomes and some end markers. -/
def only (settles : Record → SkillRequestOutcome → Prop) (ends : AttentionSubject → Prop) :
    Permit :=
  ⟨fun _ => False, settles, fun _ _ => False, ends, False⟩

/-- What a call may do. A request is approved only by a call that has the evidence for exactly
its operation and content, while its subject has no end marker. -/
def permit (format : Format) (s : Store) : Event → Permit
  | .accept binding request _ _ _ _ =>
    { only (fun _ _ => False) (fun _ => False) with
      accepts := fun record => record.binding = binding ∧ record.request = request }
  | .finish _ operationId outcome _ => only (fun record settled =>
      record.operationId = operationId ∧ settled = outcome ∧
        (outcome = .rejected ∨ outcome = .cancelled)) fun _ => False
  | .resolve record source _ =>
    { only (fun settled outcome => settled = record ∧
        (outcome = .cancelled ∧ Ended format s record.subject ∨
          outcome = .approved ∧ ¬ Ended format s record.subject)) (fun _ => False) with
      verified := fun settled digest => settled = record ∧
        source record.operationId record.request = .ok (some digest) }
  | .endSubject subject _ => only (fun record outcome => outcome = .cancelled ∧
      record.subject = subject) (· = subject)
  | .terminalReceipt subject _ _ => only (fun record outcome => outcome = .cancelled ∧
      record.subject = subject) (· = subject)
  | .reconcile _ => reconcilePermit format s
  | .observeRun observed _ =>
    { only (fun record outcome => outcome = .cancelled ∧ observed.state = .disposed ∧
        record.subject = .run observed.runId)
        (fun subject => observed.state = .disposed ∧ subject = .run observed.runId) with
      observes := True }
  | .other _ _ => only (fun _ _ => False) fun _ => False

/-- What a call leaves where it succeeds. -/
def Done (format : Format) (s' : Store) : Event → Option SkillRequestStatus → Prop
  | .accept binding request _ _ _ _, reply => ∃ record status, reply = some status ∧
    record.binding = binding ∧ record.request = request ∧ Reports s' record status
  | .finish _ operationId outcome _, reply => ∃ record status, reply = some status ∧
    record.operationId = operationId ∧
    s'.outcomes.lookup (outcomePath operationId) = some (.whole outcome) ∧ Reports s' record status
  | .resolve record _ _, _ => Projected s' record
  | .endSubject subject _, _ => Ended format s' subject ∧
    ∀ record, Recorded s' record → record.subject = subject → Settled s' record
  | .terminalReceipt subject _ _, _ => Ended format s' subject ∧
    ∀ record, Recorded s' record → record.subject = subject → Settled s' record
  | .reconcile _, _ => ∀ record, Recorded s' record →
    Projected s' record ∧ (Ended format s' record.subject → Final s' record)
  | .observeRun observed _, _ => observed.state = .disposed →
    Ended format s' (.run observed.runId) ∧
      ∀ record, Recorded s' record → record.subject = .run observed.runId → Settled s' record
  | .other item _, _ => Told s' item

end Event

section

variable (format : Format)

def step (s : Store) (event : Event) : Store := (event.program format).leaves event.faults s

/-- The identity that a call draws is new, a request that it settles is one that was read from
the store, and another producer uses names of its own. -/
def Formed (s : Store) : Event → Prop
  | .accept _ _ _ _ operationUuid _ => ∀ operationId, operationUuid = .ok operationId →
    ∀ held, Recorded s held → held.operationId ≠ operationId
  | .resolve record _ _ => Recorded s record
  | .other item _ => Foreign item.1
  | _ => True

/-- A call does what it may, and where it succeeds it has done what it should. -/
def Follows (s : Store) (event : Event) : Prop :=
  Moves format (event.permit format s) s (step format s event) ∧
    ∀ reply, (event.program format event.faults s).1 = .value reply →
      event.Done format (step format s event) reply

/-- A subject has ended, and none of its requests is pending. -/
def Barred (s : Store) (subject : AttentionSubject) : Prop :=
  Ended format s subject ∧ ∀ record, Recorded s record → record.subject = subject → Final s record

variable {format} {s : Store} {e : Event}

theorem program_keeps (format : Format) (h : Sound s) (hf : Formed s e) :
    (guard format (e.permit format s)).Keeps (e.program format) s fun r s' =>
      e.Done format s' r := by
  cases e with
  | accept b req p ms ou fs =>
    refine Keeps.bind (accept_keeps h ?_ hf) ?_
    · exact fun _ hb hq => ⟨hb, hq⟩
    · rintro stt t ht - ⟨record, hb, hq, hr⟩
      exact keeps_pure ht ⟨record, stt, rfl, hb, hq, hr⟩
  | finish opu opi outcome fs =>
    refine Keeps.bind (finish_keeps h ?_) ?_
    · exact fun _ hop hpl => ⟨hop, rfl, hpl⟩
    · rintro stt t ht - ⟨record, hop, hl, hr⟩
      exact keeps_pure ht ⟨record, stt, rfl, hop, hl, hr⟩
  | resolve record sou fs =>
    refine Keeps.bind (resolve_keeps h hf ?_ ?_) ?_
    · exact fun he => ⟨rfl, .inl ⟨rfl, he⟩⟩
    · exact fun d hg ho => ⟨⟨rfl, .inr ⟨rfl, ho⟩⟩, rfl, hg⟩
    · exact fun _ t ht _ hp => keeps_pure ht hp
  | endSubject subject fs =>
    refine Keeps.bind (endLocked_keeps h ?_ ?_) ?_
    · exact rfl
    · exact fun _ hs => ⟨rfl, hs⟩
    · exact fun _ t ht _ he => keeps_pure ht he
  | terminalReceipt subject a fs =>
    refine Keeps.bind ((reads_ofExcept (Q := fun _ => True) ?_).keeps_bind h
      fun _ _ => endLocked_keeps h ?_ ?_) ?_
    · exact fun _ _ => trivial
    · exact rfl
    · exact fun _ hs => ⟨rfl, hs⟩
    · exact fun _ t ht _ he => keeps_pure ht he
  | reconcile fs =>
    refine Keeps.bind (reconcile_keeps h) ?_
    exact fun _ t ht _ hd => keeps_pure ht hd
  | observeRun o fs =>
    refine Keeps.bind (observeRun_keeps h ?_ ?_ ?_) ?_
    · exact trivial
    · exact fun hi => ⟨hi, rfl⟩
    · exact fun hi _ hs => ⟨rfl, hi, hs⟩
    · exact fun _ t ht _ he => keeps_pure ht he
  | other item fs =>
    refine Keeps.bind (send_keeps h (.inl hf)) ?_
    exact fun _ t ht _ hto => keeps_pure ht hto

theorem Sound.step (h : Sound s) (hf : Formed s e) :
    Sound (step format s e) ∧ Follows format s e := by
  have hk := program_keeps format h hf
  obtain ⟨hs, hm⟩ := hk.leaves e.faults
  exact ⟨hs, hm, fun r hr => hk.value_of hr⟩

/-- Whatever a call may do. -/
def anyPermit : Permit :=
  ⟨fun _ => True, fun _ _ => True, fun _ _ => True, fun _ => True, True⟩

theorem Moves.any {permit : Permit} {s' : Store} (h : Moves format permit s s') :
    Moves format anyPermit s s' :=
  { h with
    accepted := fun record hr => (h.accepted record hr).imp id fun he => ⟨trivial, he.2⟩
    settled := fun op outcome hn hs => by
      obtain ⟨record, hr, hop, -, hv⟩ := h.settled op outcome hn hs
      refine ⟨record, hr, hop, trivial, fun ha => ?_⟩
      obtain ⟨d, -, hd⟩ := hv ha
      exact ⟨d, trivial, hd⟩
    ends := fun _ _ => .inr trivial
    runs := .inl trivial }

theorem moves_run {es : List Event} (h : Throughout (step format) (Follows format) s es) :
    Moves format anyPermit s (es.foldl (step format) s) := by
  induction es generalizing s with
  | nil => exact .refl s
  | cons e es ih => exact h.1.1.any.trans (ih h.2)

/-- No request of a subject that has ended comes up again. -/
theorem Barred.moves {permit : Permit} {s' : Store} {subject : AttentionSubject}
    (h : Barred format s subject) (hm : Moves format permit s s') : Barred format s' subject := by
  refine ⟨h.1.grows hm.ended, fun record hr hs => ?_⟩
  rcases hm.accepted record hr with hb | ⟨-, -, ho, -⟩
  · exact (h.2 record hb hs).moves hm
  · exact absurd (hs ▸ h.1) ho

end

def sampleFormat : Format where
  sha256 := fun bytes => Vector.replicate 32 (bytes.foldl (· + ·) 0)
  recordBytes := fun _ => 0
  outcomeBytes := fun _ => 0
  subjectBytes := fun _ => 0
  runBytes := fun _ => 0
  digestBytes := fun _ => 0
  entryBytes := fun _ => 0

def sampleRequest : SkillRequest where
  requestId := "q"
  subject := .session
  packages := ["sha256:0000000000000000000000000000000000000000000000000000000000000000"]
  agents := ["a"]

def sampleBinding : Binding := ⟨"s", "r", 1, 7⟩

/-- A call that asks for the sample, permitted for its Agent. -/
def sampleAccept (faults : List Fault) : Event :=
  .accept sampleBinding sampleRequest (some ⟨["a"], false, false, 9⟩) 5
    (.ok "00000000-0000-4000-8000-000000000000") faults

end Louiselm.Broker.SkillRequests
