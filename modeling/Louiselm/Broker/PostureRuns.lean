import Louiselm.Base.Runs
import Louiselm.Broker.Postures

/-!
# Posture conditions along every run

The record of `Broker/Postures` and the outbox under calls that may stop at any of their
operations. What the outbox was told and what the record has pending are together one log,
after which the slots of the record are what is open. An end closes them for good where there
is a record to close.
-/

namespace Louiselm.Broker.PostureAttention
open Base Canonical List Option Function
open Base.Program
open Broker.Authorization (Records Stored)
open Reads DimensionName ProjectionChange Record
open Except (ok.inj)

/-! ### Names -/

theorem changeName_inj {sha256 : Sha256} {session : String} {revision other : UInt64} {i p : Nat} :
    changeName sha256 session revision i = changeName sha256 session other p ↔
      revision = other ∧ i = p :=
  (Text.numbered_inj '-' (by simp) rfl).trans (and_congr_right' Text.toString_inj)

theorem conditionBytes_inj {requestDigest : String} {revision other : UInt64}
    {dimension a : DimensionName} :
    conditionBytes requestDigest revision dimension = conditionBytes requestDigest other a ↔
      revision = other ∧ dimension = a :=
  utf8_inj.trans <|
    (Text.numbered_inj ':' (by simp) rfl).trans (and_congr_right' name_inj)

/-! ### One slot -/

/-- Some conditions are those in the slots. -/
def Fills (opened : List AttentionCondition) (slots : Slots) : Prop :=
  ∀ condition, condition ∈ opened ↔ ∃ dimension, slots dimension = some condition

/-- A condition of a dimension, with the identity of a revision up to some one. -/
structure Owned (sha256 : Sha256) (contents : Set Bytes) (session requestDigest : String)
    (revision : UInt64) (dimension : DimensionName) (condition : AttentionCondition) : Prop where
  subject : condition.subject = .session session
  kind : condition.reason.fields.1 = "skill_unverified"
  operation : ∃ since ≤ revision, conditionBytes requestDigest since dimension ∈ contents ∧
    condition.operationId = conditionId sha256 (conditionBytes requestDigest since dimension)

section

variable {sha256 : Sha256} {cts : Set Bytes} {se rd : String}
  {revision later : UInt64} {dimension other : DimensionName} {condition old : AttentionCondition}
  {observation : Observation} {slots : Slots} {opened : List AttentionCondition}

theorem Owned.mono (h : Owned sha256 cts se rd revision dimension condition)
    (hl : revision ≤ later) :
    Owned sha256 cts se rd later dimension condition := by
  obtain ⟨si, hs, hr⟩ := h.operation
  exact ⟨h.subject, h.kind, si, UInt64.le_trans hs hl, hr⟩

/-- Conditions of different dimensions have different names. -/
theorem Owned.dimension_eq (hfree : Set.InjOn (conditionId sha256) cts)
    (h : Owned sha256 cts se rd revision dimension condition)
    (hold : Owned sha256 cts se rd later other old)
    (hn : condition.operationId = old.operationId) : dimension = other := by
  obtain ⟨si, -, hc, hop⟩ := h.operation
  obtain ⟨pre, -, ho, hoo⟩ := hold.operation
  have hb := hfree hc ho (hop.symm.trans (hn.trans hoo))
  exact (conditionBytes_inj.mp hb).2

/-- A condition with the subject, the kind and the operation of another has its name. -/
theorem Owned.name_eq (h : Owned sha256 cts se rd revision dimension condition)
    (hold : Owned sha256 cts se rd later other old) :
    condition.name = old.name ↔ condition.operationId = old.operationId := by
  simp [AttentionCondition.name, h.subject, hold.subject, h.kind, hold.kind]

/-- What a turn does to one slot: nothing, or it closes it, or it puts a condition there that
has the identity and the time of the one before. -/
inductive Turns (sha256 : Sha256) (observation : Observation) (revision : UInt64)
    (dimension : DimensionName) (previous : Option AttentionCondition) :
    Option AttentionCondition → List ProjectionChange → Prop where
  | same : Turns sha256 observation revision dimension previous previous []
  | closes (condition : AttentionCondition) (hprevious : previous = some condition) :
      Turns sha256 observation revision dimension previous none [.clear condition]
  | puts (condition : AttentionCondition) (code : FailureCode)
      (hcondition : condition = { previous.getD (conditionOf sha256 observation revision dimension
        (.skillUnverified code)) with reason := .skillUnverified code }) :
      Turns sha256 observation revision dimension previous (some condition) [.upsert condition]

theorem recover_turns (p : Option AttentionCondition) :
    Turns sha256 observation revision dimension p (recover p).1 (recover p).2 := by
  cases p with
  | none => exact .same
  | some condition => exact .closes condition rfl

theorem reasonOf_ok {r : AttentionReason} (h : reasonOf observation dimension = .ok r) :
    ∃ c, r = .skillUnverified c ∧ (if observation.quarantined then c = .quarantined
        else (observation.posture.dimensions dimension).failureCode = some c) := by
  unfold reasonOf at h
  split at h
  · next hq => exact ⟨_, (ok.inj h).symm, by rw [if_pos hq]⟩
  · next hq =>
    split at h
    · next c hc => exact ⟨c, (ok.inj h).symm, by rw [if_neg hq]; exact hc⟩
    · simp at h

variable {prev slot : Option AttentionCondition} {cs : List ProjectionChange}

theorem turn_turns (h : turn sha256 observation revision dimension prev = .ok (slot, cs)) :
    Turns sha256 observation revision dimension prev slot cs := by
  unfold turn at h
  have hr : ∀ {r}, Except.ok (recover prev) = Except.ok (ε := BrokerError) r →
      Turns sha256 observation revision dimension prev r.1 r.2 := by
    intro r he
    rw [← ok.inj he]
    exact recover_turns prev
  split at h
  · exact hr h
  · split at h
    · split at h
      · obtain ⟨why, hre, h⟩ := bind_ok.mp h
        obtain ⟨c, rfl, -⟩ := reasonOf_ok hre
        split at h
        · obtain ⟨rfl, rfl⟩ := Prod.mk.inj (ok.inj h)
          exact .same
        · obtain ⟨rfl, rfl⟩ := Prod.mk.inj (ok.inj h)
          exact .puts _ c rfl
      · obtain ⟨rfl, rfl⟩ := Prod.mk.inj (ok.inj h)
        exact .same
    · exact hr h
    · exact hr h

/-- A turn that tells of nothing changes nothing. -/
theorem Turns.eq_of_nil (h : Turns sha256 observation revision dimension prev slot []) :
    slot = prev := by
  cases h
  rfl

/-- What a turn leaves in a slot is the dimension's own. -/
theorem Turns.owned (h : Turns sha256 observation revision dimension prev slot cs)
    (ha : observation.auth.sessionId = se ∧ observation.auth.requestDigest = rd)
    (hf : conditionBytes rd revision dimension ∈ cts) (hp : ∀ condition, prev = some condition →
      Owned sha256 cts se rd revision dimension condition) : (∀ condition, slot = some condition →
      Owned sha256 cts se rd revision dimension condition) ∧ ∀ c ∈ cs, ∀ condition ∈ conditionsOf c,
      Owned sha256 cts se rd revision dimension condition := by
  obtain ⟨rfl, rfl⟩ := ha
  cases h with
  | same => exact ⟨hp, forall_mem_nil _⟩
  | closes condition hs => simpa [conditionsOf] using hp condition hs
  | puts condition code hc =>
    have ho : Owned sha256 cts observation.auth.sessionId observation.auth.requestDigest
        revision dimension condition := by
      cases prev with
      | none =>
        rw [hc]
        exact ⟨rfl, rfl, revision, UInt64.le_refl _, hf, rfl⟩
      | some old =>
        have hold := hp old rfl
        rw [hc]
        exact ⟨hold.subject, rfl, hold.operation⟩
    simpa [conditionsOf] using ho

variable (hfree : Set.InjOn (conditionId sha256) cts)
include hfree

/-- A change tells of what a turn does to its slot, and of no other slot. -/
theorem Turns.fills (h : Turns sha256 observation revision dimension prev slot cs)
    (hs : Fills opened slots) (hp : slots dimension = prev)
    (ho : ∀ dimension condition, slots dimension = some condition →
      Owned sha256 cts se rd revision dimension condition)
    (hsl : ∀ condition, slot = some condition →
      Owned sha256 cts se rd revision dimension condition) :
    Fills (cs.foldl apply opened) (Function.update slots dimension slot) := by
  have hn : ∀ {i j : DimensionName} {left right : AttentionCondition},
      Owned sha256 cts se rd revision i left →
      Owned sha256 cts se rd revision j right → left.name = right.name → i = j := fun hl hr hn =>
    hl.dimension_eq hfree hr ((hl.name_eq hr).mp hn)
  cases h with
  | same =>
    rw [← hp, update_eq_self]
    exact hs
  | closes condition hso =>
    have ht := hp.trans hso
    intro f
    rw [foldl_cons, foldl_nil, mem_apply_clear, hs]
    constructor
    · rintro ⟨⟨i, hi⟩, he⟩
      refine ⟨i, ?_⟩
      rwa [update_of_ne]
      rintro rfl
      exact he (congrArg _ (some.inj (hi.symm.trans ht)))
    · rintro ⟨i, hi⟩
      by_cases heq : i = dimension
      · subst heq
        simp at hi
      · rw [update_of_ne heq] at hi
        exact ⟨⟨i, hi⟩, fun ha => heq (hn (ho i _ hi) (ho _ _ ht) ha)⟩
  | puts condition c hc =>
    have hw := hsl condition rfl
    intro f
    rw [foldl_cons, foldl_nil, mem_apply_upsert, hs]
    constructor
    · rintro (rfl | ⟨⟨i, hi⟩, he⟩)
      · exact ⟨dimension, update_self ..⟩
      · refine ⟨i, ?_⟩
        rwa [update_of_ne]
        rintro rfl
        refine he (((ho i _ hi).name_eq hw).mpr ?_)
        rw [hc, ← hp, hi]
        rfl
    · rintro ⟨i, hi⟩
      by_cases heq : i = dimension
      · subst heq
        rw [update_self] at hi
        exact .inl (some.inj hi).symm
      · rw [update_of_ne heq] at hi
        exact .inr ⟨⟨i, hi⟩, fun ha => heq (hn (ho i _ hi) hw ha)⟩

end

/-! ### The loop -/

section

variable {sha256 : Sha256} {contents : Set Bytes} {session requestDigest : String}
  {revision : UInt64} {dimensions : List DimensionName} {observation : Observation}
  {record turned : Record}

/-- What the loop does to a record: each slot has its turn, and the changes tell of it. -/
structure Turned (sha256 : Sha256) (contents : Set Bytes) (observation : Observation)
    (revision : UInt64) (dimensions : List DimensionName) (record turned : Record) : Prop where
  rest : turned = { record with conditions := turned.conditions, pending := turned.pending }
  each : ∀ dimension ∈ dimensions, ∃ changes,
    turn sha256 observation revision dimension (record.conditions dimension) =
      .ok (turned.conditions dimension, changes)
  others : ∀ dimension ∉ dimensions, turned.conditions dimension = record.conditions dimension
  told : ∃ changes, turned.pending = record.pending ++ changes ∧
    (changes = [] → turned.conditions = record.conditions) ∧
    (∀ opened, Fills opened record.conditions →
      Fills (changes.foldl apply opened) turned.conditions) ∧
    ∀ change ∈ changes, ∀ condition ∈ conditionsOf change, ∃ dimension,
      Owned sha256 contents observation.auth.sessionId observation.auth.requestDigest revision
        dimension condition

theorem turnAll_turned (hfree : Set.InjOn (conditionId sha256) contents) (hfo : ∀ dimension,
      conditionBytes observation.auth.requestDigest revision dimension ∈ contents)
    (hw : ∀ dimension condition, record.conditions dimension = some condition →
      Owned sha256 contents observation.auth.sessionId observation.auth.requestDigest revision
        dimension condition) (hd : dimensions.Nodup)
    (h : turnAll sha256 observation revision record dimensions = .ok turned) :
    Turned sha256 contents observation revision dimensions record turned ∧
      ∀ dimension condition, turned.conditions dimension = some condition →
        Owned sha256 contents observation.auth.sessionId observation.auth.requestDigest revision
          dimension condition := by
  induction dimensions generalizing record with
  | nil =>
    obtain rfl := ok.inj h
    refine ⟨⟨rfl, forall_mem_nil _, fun _ _ => rfl, [], (append_nil _).symm,
      fun _ => rfl, ?_, ?_⟩, hw⟩
    · exact fun _ hf => hf
    · exact forall_mem_nil _
  | cons dimension dimensions ih =>
    obtain ⟨hfr, hd⟩ := nodup_cons.mp hd
    unfold turnAll at h
    obtain ⟨⟨slot, changes⟩, hu, h⟩ := bind_ok.mp h
    have ht := turn_turns hu
    obtain ⟨hs, hh⟩ := ht.owned ⟨rfl, rfl⟩ (hfo dimension) (hw dimension)
    have hn : ∀ other condition,
        Function.update record.conditions dimension slot other = some condition →
        Owned sha256 contents observation.auth.sessionId observation.auth.requestDigest revision
          other condition := by
      intro other condition hco
      by_cases heq : other = dimension
      · subst heq
        rw [update_self] at hco
        exact hs condition hco
      · rw [update_of_ne heq] at hco
        exact hw other condition hco
    obtain ⟨⟨hr, he, hot, later, hp, ha, hf, hl⟩, hall⟩ :=
      ih hn hd h
    dsimp only at he hot hp ha hf
    refine ⟨⟨hr, ?_, fun other ho => ?_, changes ++ later, ?_, fun hno => ?_,
      fun opened hop => ?_, ?_⟩, hall⟩
    · refine forall_mem_cons.mpr ⟨⟨changes, ?_⟩, fun other ho => ?_⟩
      · rw [hot dimension hfr, update_self]
        exact hu
      · obtain ⟨m, hm⟩ := he other ho
        have hne : other ≠ dimension := fun heq => hfr (heq ▸ ho)
        rw [update_of_ne hne] at hm
        exact ⟨m, hm⟩
    · obtain ⟨hne, ho⟩ := not_or.mp (mem_cons.not.mp ho)
      rw [hot other ho, update_of_ne hne]
    · rw [hp, append_assoc]
    · obtain ⟨hh, hl⟩ := append_eq_nil_iff.mp hno
      subst hh
      rw [ha hl, ht.eq_of_nil, update_eq_self]
    · rw [foldl_append]
      exact hf _ (ht.fills hfree hop rfl hw hs)
    · exact forall_mem_append.mpr ⟨fun c hc condition hco =>
          ⟨dimension, hh c hc condition hco⟩, hl⟩

end

/-! ### The log -/

/-- What a record says of the log that has all its pending changes: its slots are what is open,
and the names and the identities are those of its revisions. -/
structure Recorded (sha256 : Sha256) (contents : Set Bytes) (record : Record) (log : List Named) :
    Prop where
  fills : Fills (openAfter (log.map Prod.snd)) record.conditions
  names : ∀ item ∈ log, ∃ revision ≤ record.revision, ∃ index,
    item.1 = changeName sha256 record.sessionId revision index
  nodup : (log.map Prod.fst).Nodup
  told : ∀ change ∈ log.map Prod.snd, ∀ condition ∈ conditionsOf change, ∃ dimension,
    Owned sha256 contents record.sessionId record.requestDigest record.revision dimension condition
  current : ∀ dimension condition, record.conditions dimension = some condition →
    Owned sha256 contents record.sessionId record.requestDigest record.revision dimension condition

/-- The pending changes of a record under their names. -/
def Record.named (sha256 : Sha256) (record : Record) : List Named :=
  numbered (changeName sha256 record.sessionId record.revision) record.pending

section

variable {sh2 : Sha256} {co : Set Bytes} {re ne : Record} {log : List Named}

theorem recorded_new (a : Authorization) : Recorded sh2 co (.new a) [] where
  fills := fun condition => by simp [openAfter, new]
  names := forall_mem_nil _
  nodup := nodup_nil
  told := forall_mem_nil _
  current := fun _ _ h => by simp [new] at h

/-- The log is about the slots and the revision of the record alone. -/
theorem Recorded.congr (h : Recorded sh2 co re log) (hs : ne.sessionId = re.sessionId)
    (hd : ne.requestDigest = re.requestDigest) (hr : ne.revision = re.revision)
    (hc : ne.conditions = re.conditions) : Recorded sh2 co ne log := by
  constructor
  · exact hc ▸ h.fills
  · rw [hr, hs]
    exact h.names
  · exact h.nodup
  · rw [hr, hs, hd]
    exact h.told
  · rw [hr, hs, hd, hc]
    exact h.current

/-- The record with the changes of one more revision. -/
theorem Recorded.advance (h : Recorded sh2 co re log) (hs : ne.sessionId = re.sessionId)
    (hd : ne.requestDigest = re.requestDigest) (ha : ne.revision.toNat = re.revision.toNat + 1)
    (hf : Fills (ne.pending.foldl apply (openAfter (log.map Prod.snd))) ne.conditions)
      (ht : ∀ c ∈ ne.pending, ∀ condition ∈ conditionsOf c, ∃ dimension,
      Owned sh2 co re.sessionId re.requestDigest ne.revision dimension condition)
    (hu : ∀ dimension condition, ne.conditions dimension = some condition →
      Owned sh2 co re.sessionId re.requestDigest ne.revision dimension
        condition) : Recorded sh2 co ne (log ++ ne.named sh2) := by
  have hl : re.revision ≤ ne.revision := UInt64.le_iff_toNat_le.mpr (by omega)
  have hh : (log ++ ne.named sh2).map Prod.snd = log.map Prod.snd ++ ne.pending := by
    rw [map_append, named, numbered_changes]
  constructor
  · rw [hh, openAfter_append]
    exact hf
  · rw [hs]
    refine forall_mem_append.mpr ⟨fun x hi => ?_, fun x hi => ?_⟩
    · obtain ⟨si, hsi, i, hn⟩ := h.names x hi
      exact ⟨si, UInt64.le_trans hsi hl, i, hn⟩
    · obtain ⟨-, i, hn⟩ := mem_numbered hi
      exact ⟨ne.revision, UInt64.le_refl _, i, hs ▸ hn⟩
  · rw [map_append]
    refine nodup_append.mpr ⟨h.nodup, numbered_nodup fun _ _ hn => (changeName_inj.mp hn).2, ?_⟩
    intro nm hn other ho heq
    obtain ⟨x, hi, rfl⟩ := mem_map.mp hn
    obtain ⟨n, hne, rfl⟩ := mem_map.mp ho
    obtain ⟨si, hsi, i, hold⟩ := h.names x hi
    obtain ⟨-, p, he⟩ := mem_numbered hne
    rw [hold, he, hs] at heq
    rw [(changeName_inj.mp heq).1] at hsi
    have := UInt64.le_iff_toNat_le.mp hsi
    omega
  · rw [hh, hs, hd]
    refine forall_mem_append.mpr ⟨fun c hc condition hco => ?_, ht⟩
    obtain ⟨dimension, hw⟩ := h.told c hc condition hco
    exact ⟨dimension, hw.mono hl⟩
  · rw [hs, hd]
    exact hu

end

/-! ### Calls -/

/-- A Run has its mark. -/
def Marked (s : Store) (run : String) : Prop :=
  s.endedRuns.lookup (run ++ ".json") = some (.whole run)

/-- The slots of the record there is. -/
def Store.conditions (s : Store) : Slots :=
  (s.file.map (·.conditions)).getD fun _ => none

/-- The revision of the record there is. -/
def Store.revision (s : Store) : UInt64 := (s.file.map (·.revision)).getD 0

/-- The outbox was told of exactly the conditions that the record has. -/
def Agrees (s : Store) : Prop :=
  ∃ log, s.outbox.Logs log ∧ Fills (openAfter (log.map Prod.snd)) s.conditions

/-- Marks and records stay, and where the Session or its Run has ended nothing opens. -/
structure Steady (s s' : Store) : Prop where
  marks : Grows s.endedRuns s'.endedRuns
  kept : ∀ record, s.file = some record → ∃ next, s'.file = some next ∧
    next.runId = record.runId ∧ (record.ended = true → next.ended = true) ∧
    (record.ended = true ∨ Marked s record.runId → ∀ dimension condition,
      next.conditions dimension = some condition → record.conditions dimension = some condition)
  fresh : s.file = none → ∀ next, s'.file = some next → ¬ Marked s next.runId

theorem Steady.refl (s : Store) : Steady s s where
  marks := .refl _
  kept := fun record hr => ⟨record, hr, rfl, id, fun _ _ _ h => h⟩
  fresh := fun hn next he => by simp [hn] at he

variable {s : Store}

theorem Steady.trans {t u : Store} (h : Steady s t) (hl : Steady t u) : Steady s u where
  marks := fun n st ht => hl.marks _ _ (h.marks _ _ ht)
  kept := fun record hrec => by
    obtain ⟨next, hn, hr, he, hcn⟩ := h.kept record hrec
    obtain ⟨l, ha, hlr, hle, hlc⟩ := hl.kept next hn
    refine ⟨l, ha, hlr.trans hr, fun h => hle (he h), fun hc dimension condition ho => ?_⟩
    have hs : next.ended = true ∨ Marked t next.runId :=
      hc.imp he fun hm => hr ▸ h.marks _ _ hm
    exact hcn hc _ _ (hlc hs _ _ ho)
  fresh := fun hno l ha hm => by
    cases hf : t.file with
    | none => exact hl.fresh hf l ha (h.marks _ _ hm)
    | some next =>
      obtain ⟨sa, hsa, hr, -⟩ := hl.kept next hf
      obtain rfl := some.inj (hsa.symm.trans ha)
      exact h.fresh hno next hf (hr ▸ hm)

/-- Telling the outbox changes no record. -/
theorem steady_outbox (s : Store) (outbox : Outbox) : Steady s { s with outbox } where
  marks := .refl _
  kept := fun record hr => ⟨record, hr, rfl, id, fun _ _ _ h => h⟩
  fresh := fun hn next he => by
    have hs : s.file = some next := he
    simp [hn] at hs

/-- A record may be replaced by one of the same Run that opens nothing. -/
theorem steady_replaced {record next : Record} (hf : s.file = some record)
    (hr : next.runId = record.runId) (he : record.ended = true → next.ended = true)
    (hc : ∀ dimension condition, next.conditions dimension = some condition →
      record.conditions dimension = some condition) (outbox : Outbox) :
    Steady s { s with file := some next, outbox } where
  marks := .refl _
  kept := fun held hh => by
    obtain rfl := some.inj (hf.symm.trans hh)
    exact ⟨next, rfl, hr, he, fun _ => hc⟩
  fresh := fun hn => by simp [hf] at hn

/-- Where nothing has ended, everything may become of the record. -/
theorem steady_of_open {next : Record}
    (ho : ∀ record, s.file = some record → record.ended = false ∧ record.runId = next.runId)
    (hm : ¬ Marked s next.runId) (outbox : Outbox) :
    Steady s { s with file := some next, outbox } where
  marks := .refl _
  kept := fun record hrec => by
    obtain ⟨he, hr⟩ := ho record hrec
    refine ⟨next, rfl, hr.symm, fun h => by simp [he] at h, fun hc => ?_⟩
    rw [hr, he] at hc
    simp [hm] at hc
  fresh := fun _ found hf => by
    obtain rfl := some.inj hf
    exact hm

section

variable (format : Format) (contents : Set Bytes) (session : String)

/-- The record of the store, or a new one, and the log that has all it has pending: the outbox
has the log up to some of the pending changes. -/
structure Loaded (s : Store) (record : Record) (log : List Named) : Prop where
  file : s.file = some record ∧ (episodes format).Fits record ∨
    s.file = none ∧ log = [] ∧ ∃ auth, record = .new auth
  session : record.sessionId = session
  recorded : Recorded format.sha256 contents record log
  told : ∃ done part, log = done ++ record.named format.sha256 ∧
    part <+: record.named format.sha256 ∧ s.outbox.Logs (done ++ part)

/-- The store has a record that says what the outbox holds. -/
def Sound (s : Store) : Prop := ∃ record log, Loaded format contents session s record log

variable {format contents session} {s : Store} {record : Record} {log : List Named}

theorem Loaded.sound (h : Loaded format contents session s record log) :
    Sound format contents session s := ⟨record, log, h⟩

theorem sound_empty : Sound format contents session ⟨none, [], .empty⟩ :=
  ⟨.new ⟨session, "", ""⟩, [], .inr ⟨rfl, rfl, _, rfl⟩, rfl, recorded_new _, [], [], rfl,
    nil_prefix, logs_empty⟩

theorem Loaded.conditions (h : Loaded format contents session s record log) :
    s.conditions = record.conditions := by
  unfold Store.conditions
  rcases h.file with ⟨hf, -⟩ | ⟨hf, -, a, rfl⟩
  · rw [hf]
    rfl
  · rw [hf]
    rfl

/-- With nothing pending the outbox has the log. -/
theorem Loaded.logs (h : Loaded format contents session s record log)
    (he : record.pending = []) : s.outbox.Logs log := by
  obtain ⟨done, p, rfl, hp, hl⟩ := h.told
  have hn : record.named format.sha256 = [] := by simp [named, numbered, he]
  rw [hn] at hp ⊢
  rwa [prefix_nil.mp hp] at hl

theorem Loaded.agrees (h : Loaded format contents session s record log)
    (hp : record.pending = []) : Agrees s :=
  ⟨log, h.logs hp, h.conditions ▸ h.recorded.fills⟩

theorem Loaded.earlier (h : Loaded format contents session s record log) :
    ∃ e, s.outbox.Logs e ∧ e ⊆ log := by
  obtain ⟨done, p, rfl, hp, hl⟩ := h.told
  exact ⟨_, hl, append_subset.mpr ⟨subset_append_left _ _,
    subset_append_of_subset_right _ hp.subset⟩⟩

/-- A store without a record is as good for the new record of any authorization. -/
theorem Sound.loaded_new (h : Sound format contents session s) (hn : s.file = none)
    {a : Authorization} (ha : a.sessionId = session) :
    Loaded format contents session s (.new a) [] := by
  obtain ⟨record, log, hl⟩ := h
  rcases hl.file with ⟨hs, -⟩ | ⟨-, rfl, other, rfl⟩
  · simp [hn] at hs
  · exact ⟨.inr ⟨hn, rfl, a, rfl⟩, ha, recorded_new _, [], [], rfl, nil_prefix, hl.logs rfl⟩

theorem Sound.loaded_some (h : Sound format contents session s) (hs : s.file = some record) :
    ∃ log, Loaded format contents session s record log := by
  obtain ⟨held, log, hl⟩ := h
  rcases hl.file with ⟨hh, -⟩ | ⟨hn, -⟩
  · obtain rfl := some.inj (hh.symm.trans hs)
    exact ⟨log, hl⟩
  · simp [hn] at hs

/-- A flush tells the outbox what is pending and changes nothing else. -/
theorem wp_flush {post : Post Store BrokerError Record}
    (h : Loaded format contents session s record log)
    (hv : ∀ s', Loaded format contents session s' { record with pending := [] } log →
      Steady s s' → s'.endedRuns = s.endedRuns →
      s'.file = s.file.map (fun _ => { record with pending := [] }) →
      post.value { record with pending := [] } s')
    (hr : ∀ error s', Sound format contents session s' → Steady s s' → post.error error s')
    (hc : ∀ s', Sound format contents session s' → Steady s s' → post.crashed s') :
    Wp (flush format record) post s := by
  obtain ⟨done, part, rfl, hp, ho⟩ := h.told
  rcases h.file with ⟨hi, hf⟩ | ⟨hi, hg, auth, rfl⟩
  · have ht : ∀ after part, part <+: record.named format.sha256 → after.Logs (done ++ part) →
        Sound format contents session { s with outbox := after } ∧
          Steady s { s with outbox := after } := fun after part hp ha =>
      ⟨⟨record, _, .inl ⟨hi, hf⟩, h.session, h.recorded, done, part, rfl, hp, ha⟩,
        steady_outbox s after⟩
    have hse : ∀ after, after.Logs (done ++ record.named format.sha256) →
        (episodes format).Fits { record with pending := [] } → Loaded format contents session
          { s with outbox := after, file := some { record with pending := [] } }
          { record with pending := [] } (done ++ record.named format.sha256) ∧
        Steady s { s with outbox := after, file := some { record with pending := [] } } := by
      intro after ha hf
      have hs :
          Steady s { s with outbox := after, file := some { record with pending := [] } } := by
        apply steady_replaced hi
        · rfl
        · exact id
        · exact fun _ _ h => h
      refine ⟨⟨.inl ⟨rfl, hf⟩, h.session, h.recorded.congr rfl rfl rfl rfl,
        done ++ record.named format.sha256, [], by simp [named, numbered], nil_prefix,
        by rwa [append_nil]⟩, hs⟩
    refine Episodes.wp_flush hp h.recorded.nodup ho (fun hn => ?_) (fun after ha hf => ?_)
      (fun _ after part hp ha => ?_) (fun _ after ha hf => ?_) fun after part hp ha => ?_
    · have he : record.pending = [] := hn
      have hsa : ({ record with pending := [] } : Record) = record := by rw [← he]
      have hk := hv s
      rw [hsa] at hk
      exact hk h (.refl s) rfl (by rw [hi, map_some])
    · obtain ⟨hl, hs⟩ := hse after ha hf
      refine hv _ hl hs rfl ?_
      rw [hi]
      rfl
    · exact hr _ _ (ht after part hp ha).1 (ht after part hp ha).2
    · obtain ⟨hl, hs⟩ := hse after ha hf
      exact hr _ _ hl.sound hs
    · exact hc _ (ht after part hp ha).1 (ht after part hp ha).2
  · -- a new record has nothing pending
    unfold flush Episodes.flush
    rw [if_pos (by rfl)]
    exact wp_pure.mpr (hv s h (.refl s) rfl (by rw [hi, map_none]))

end

/-! ### What an observation shows -/

/-- What an observation makes of one slot. -/
def ShowsAt (observation : Observation) (dimension : DimensionName)
    (before after : Option AttentionCondition) : Prop :=
  if observation.quarantined then
    if dimension = .managedSupply then
      ∃ condition, after = some condition ∧ condition.reason = .skillUnverified .quarantined
    else after = none
  else if (observation.posture.dimensions dimension).state ≠ .failed then after = none
  else if observation.waiting = true ∨ before.isSome = true then
    ∃ condition code, after = some condition ∧
      (observation.posture.dimensions dimension).failureCode = some code ∧
      condition.reason = .skillUnverified code
  else after = none

/-- A slot that stays filled keeps the identity and the time of its condition, and one that is
filled anew has an identity that was never told of. -/
structure ContinuesAt (before after : Option AttentionCondition) (earlier : List Named) : Prop where
  stays : ∀ old new, before = some old → after = some new →
    new.operationId = old.operationId ∧ new.createdAtMs = old.createdAtMs
  comes : ∀ new, before = none → after = some new →
    ∀ change ∈ earlier.map Prod.snd, ∀ condition ∈ conditionsOf change,
      condition.operationId ≠ new.operationId

section

variable {sha256 : Sha256} {o : Observation} {rev : UInt64} {d : DimensionName}
  {pr slot : Option AttentionCondition} {changes : List ProjectionChange}

theorem turn_shows (h : turn sha256 o rev d pr = .ok (slot, changes)) :
    ShowsAt o d pr slot := by
  have hf : ∀ {r : Option AttentionCondition × List ProjectionChange} {c : FailureCode},
      (if pr.any (·.reason = .skillUnverified c) then
          Except.ok (ε := BrokerError) (pr, [])
        else .ok (some { pr.getD (conditionOf sha256 o rev d
            (.skillUnverified c)) with reason := .skillUnverified c },
          [.upsert { pr.getD (conditionOf sha256 o rev d
            (.skillUnverified c)) with reason := .skillUnverified c }])) = .ok r →
      ∃ condition, r.1 = some condition ∧ condition.reason = .skillUnverified c := by
    intro r c he
    split at he
    · next hn =>
      obtain ⟨condition, hs, hr⟩ := (any_eq_true _ _).mp hn
      rw [← ok.inj he]
      exact ⟨condition, hs, of_decide_eq_true hr⟩
    · rw [← ok.inj he]
      exact ⟨_, rfl, rfl⟩
  unfold turn at h
  unfold ShowsAt
  cases hq : o.quarantined with
  | true =>
    rw [if_pos rfl]
    simp only [hq, Bool.true_and, bne_iff_ne, ne_eq, if_true, Bool.or_true, Bool.true_or] at h
    by_cases hd : d = .managedSupply
    · rw [if_pos hd]
      rw [if_neg (not_not.mpr hd)] at h
      obtain ⟨reason, hr, h⟩ := bind_ok.mp h
      obtain ⟨c, rfl, hc⟩ := reasonOf_ok hr
      rw [hq, if_pos rfl] at hc
      subst hc
      exact hf h
    · rw [if_neg hd]
      rw [if_pos hd] at h
      rw [← (Prod.mk.inj (ok.inj h)).1]
  | false =>
    rw [if_neg Bool.false_ne_true]
    simp only [hq, Bool.false_and, Bool.false_eq_true, if_false, Bool.or_false] at h
    cases ht : (o.posture.dimensions d).state with
    | failed =>
      rw [if_neg (by simp)]
      rw [ht] at h
      by_cases ha : o.waiting = true ∨ pr.isSome = true
      · rw [if_pos ha]
        dsimp only at h
        rw [if_pos (by simpa using ha)] at h
        obtain ⟨reason, hr, h⟩ := bind_ok.mp h
        obtain ⟨c, rfl, hc⟩ := reasonOf_ok hr
        rw [hq, if_neg Bool.false_ne_true] at hc
        obtain ⟨condition, hs, ho⟩ := hf h
        exact ⟨condition, c, hs, hc, ho⟩
      · rw [if_neg ha]
        dsimp only at h
        rw [if_neg (by simpa using ha)] at h
        rw [← (Prod.mk.inj (ok.inj h)).1]
        simpa using (not_or.mp ha).2
    | verified =>
      rw [if_pos (by simp)]
      rw [ht] at h
      rw [← (Prod.mk.inj (ok.inj h)).1]
    | waived =>
      rw [if_pos (by simp)]
      rw [ht] at h
      rw [← (Prod.mk.inj (ok.inj h)).1]

/-- What a turn puts into a slot continues what was there. -/
theorem Turns.continues {contents : Set Bytes} {record : Record} {log : List Named}
    (h : Turns sha256 o rev d pr slot changes) (hr : Recorded sha256 contents record log)
    (hd : o.auth.requestDigest = record.requestDigest) (ha : rev.toNat = record.revision.toNat + 1)
    (hf : conditionBytes record.requestDigest rev d ∈ contents)
    (hfree : Set.InjOn (conditionId sha256) contents) : ContinuesAt pr slot log := by
  refine ⟨fun old new hold he => ?_, fun new hn he c hh condition hco => ?_⟩
  · cases h with
    | same =>
      obtain rfl := some.inj (hold.symm.trans he)
      exact ⟨rfl, rfl⟩
    | closes _ _ => simp at he
    | puts condition code hco =>
      obtain rfl := some.inj he
      rw [hco, hold]
      exact ⟨rfl, rfl⟩
  · have hi : new.operationId = conditionId sha256 (conditionBytes record.requestDigest rev d) := by
      cases h with
      | same => simp [hn] at he
      | closes _ _ => simp at he
      | puts condition code hco =>
        obtain rfl := some.inj he
        rw [hco, hn, ← hd]
        rfl
    obtain ⟨other, ho⟩ := hr.told c hh condition hco
    obtain ⟨si, hs, hc, hop⟩ := ho.operation
    rw [hi, hop]
    intro heq
    have hl := UInt64.le_iff_toNat_le.mp hs
    rw [(conditionBytes_inj.mp (hfree hc hf heq)).1] at hl
    omega

end

/-! ### Operations -/

/-- What an observation that succeeded leaves, unless its Run or the Session has ended. -/
structure Observed (observation : Observation) (s s' : Store) : Prop where
  agrees : Agrees s'
  shows : ∀ dimension, ShowsAt observation dimension (s.conditions dimension)
      (s'.conditions dimension)
  continues : ∃ earlier, s.outbox.Logs earlier ∧
    ∀ dimension, ContinuesAt (s.conditions dimension) (s'.conditions dimension) earlier

/-- The Session has ended: its record says so, nothing is open, and the outbox knows. -/
structure Closed (s : Store) : Prop where
  agrees : Agrees s
  ended : ∃ record, s.file = some record ∧ record.ended = true
  none : ∀ dimension, s.conditions dimension = none

section

variable {fo : Format} {con : Set Bytes} {session : String} {s : Store}
  {record : Record} {log : List Named}

theorem listed_eq_nil {slots : Slots} :
    listed slots = [] ↔ ∀ dimension, slots dimension = none := by
  rw [listed, filterMap_eq_nil_iff]
  exact forall_congr' fun dimension => by simp [mem_all]

theorem mem_listed {slots : Slots} {condition : AttentionCondition} :
    condition ∈ listed slots ↔ ∃ dimension, slots dimension = some condition := by
  simp [listed, mem_all]

/-- A valid record of an ended Session has no condition. -/
theorem validate_ended (h : record.validate = .ok ()) (he : record.ended = true)
    (dimension : DimensionName) : record.conditions dimension = none := by
  obtain ⟨h, -⟩ := check_ok.mp h
  simp only [require_ok, he, Bool.true_and, Bool.not_eq_true', Bool.or_eq_false_iff,
    Bool.not_eq_false', List.isEmpty_iff] at h
  exact listed_eq_nil.mp h.2 dimension

theorem runEnded_reads (run : String) :
    Reads (runEnded fo run) s fun e => e = true ↔ Marked s run := by
  refine bind (reads_ofExcept fun _ h => h) fun n hn => ?_
  unfold recordName at hn
  split at hn
  · obtain rfl := ok.inj hn
    refine wp_bind (Directory.wp_read (fun ho => ?_) (fun p hp => ?_) (fun _ => rfl) rfl)
    · refine wp_pure.mpr ⟨rfl, fun h => by simp at h, fun hm => ?_⟩
      have hl : s.endedRuns.lookup (run ++ ".json") = none := ho
      simp [Marked, hl] at hm
    · refine bind (reads_ofExcept fun _ h => require_ok.mp h) fun _ hs => ?_
      obtain rfl := eq_of_beq hs
      exact reads_pure ⟨fun _ => hp, fun _ => rfl⟩
  · simp at hn

theorem read_reads : Reads (read fo session) s fun f =>
    f = s.file ∧ ∀ record, f = some record → record.validate = .ok () := by
  refine bind reads_check fun _ _ => ?_
  refine bind (reads_query fun file h => (ok.inj h)) fun file hf => ?_
  subst hf
  cases hf : s.file with
  | none => exact reads_pure ⟨rfl, fun _ h => by simp at h⟩
  | some record =>
    refine bind reads_check fun _ _ => ?_
    refine bind (reads_ofExcept fun _ h => h) fun _ hv => ?_
    refine bind reads_check fun _ _ => ?_
    refine reads_pure ⟨rfl, fun held hh => ?_⟩
    rwa [← some.inj hh]

theorem recordsLocked_reads : Reads (recordsLocked fo session) s fun f =>
    f = s.file ∧ ∀ record, f = some record → record.validate = .ok () := by
  refine bind (reads_query fun file h => (ok.inj h)) fun file hf => ?_
  subst hf
  cases hf : s.file with
  | none => exact reads_pure ⟨rfl, fun _ h => by simp at h⟩
  | some record =>
    refine bind reads_check fun _ _ => ?_
    refine bind (reads_ofExcept fun _ h => h) fun _ hv => ?_
    refine bind reads_check fun _ _ => ?_
    refine reads_pure ⟨rfl, fun held hh => ?_⟩
    rwa [← some.inj hh]

/-- A saved record that says what the outbox will hold. -/
theorem Loaded.of_save (hs : record.sessionId = session) (hf : (episodes fo).Fits record)
    {done : List Named} (hr : Recorded fo.sha256 con record (done ++ record.named fo.sha256))
    (hl : s.outbox.Logs done) : Loaded fo con session { s with file := some record } record
      (done ++ record.named fo.sha256) :=
  ⟨.inl ⟨rfl, hf⟩, hs, hr, done, [], rfl, nil_prefix,
    by rwa [append_nil]⟩

variable {obs : Observation}

/-- The record that an observation saves says what its changes make of the log. -/
theorem turned_recorded {turned : Record} (hc : Recorded fo.sha256 con record log)
    (hpe : record.pending = []) (ha : obs.auth.sessionId = record.sessionId ∧
      obs.auth.requestDigest = record.requestDigest) (hr : record.revision.toNat + 1 < UInt64.size)
    (hfree : Set.InjOn (conditionId fo.sha256) con) (hf : ∀ dimension,
      conditionBytes record.requestDigest (record.revision + 1) dimension ∈ con)
    (htrn : turnAll fo.sha256 obs (record.revision + 1) record DimensionName.all = .ok turned) :
    let next := if turned.pending.isEmpty then turned else
        { turned with revision := record.revision + 1 }
    next.sessionId = record.sessionId ∧ next.runId = record.runId ∧
      next.conditions = turned.conditions ∧
      Recorded fo.sha256 con next (log ++ next.named fo.sha256) ∧
      ∀ dimension, ShowsAt obs dimension (record.conditions dimension)
          (turned.conditions dimension) ∧
        ContinuesAt (record.conditions dimension) (turned.conditions dimension) log := by
  obtain ⟨hs, hd⟩ := ha
  have haft : (record.revision + 1).toNat = record.revision.toNat + 1 := by
    rw [UInt64.toNat_add, UInt64.toNat_one]
    exact Nat.mod_eq_of_lt hr
  have hle : record.revision ≤ record.revision + 1 := UInt64.le_iff_toNat_le.mpr (by omega)
  obtain ⟨⟨hre, he, -, changes, hh, hsa, hi, ht⟩, hl⟩ :=
    turnAll_turned hfree (hd ▸ hf)
      (fun dimension condition h => hs ▸ hd ▸ (hc.current _ _ h).mono hle) nodup_all htrn
  rw [hs, hd] at ht hl
  rw [hpe, nil_append] at hh
  subst hh
  have hsl : ∀ dimension, ShowsAt obs dimension (record.conditions dimension)
      (turned.conditions dimension) ∧
      ContinuesAt (record.conditions dimension) (turned.conditions dimension) log := by
    intro dimension
    obtain ⟨m, hu⟩ := he dimension (mem_all dimension)
    exact ⟨turn_shows hu, (turn_turns hu).continues hc hd haft (hf dimension) hfree⟩
  have hp : turned.sessionId = record.sessionId ∧ turned.runId = record.runId ∧
      turned.requestDigest = record.requestDigest ∧ turned.revision = record.revision := by
    rw [hre]
    exact ⟨rfl, rfl, rfl, rfl⟩
  obtain ⟨hts, htr, htd, htur⟩ := hp
  by_cases hn : turned.pending = []
  · rw [if_pos (by simp [hn])]
    refine ⟨hts, htr, rfl, ?_, hsl⟩
    have hna : turned.named fo.sha256 = [] := by simp [named, numbered, hn]
    rw [hna, append_nil]
    exact hc.congr hts htd htur (hsa hn)
  · rw [if_neg (by simpa using hn)]
    exact ⟨hts, htr, rfl, hc.advance hts htd haft (hi _ hc.fills) ht hl, hsl⟩

/-- Turning a record that has nothing pending shows the observation; what it is interrupted at
stays sound. -/
theorem wp_project {held : Record} {e : List Named} {st : Store}
    (h : Loaded fo con session s held log) (hp : record.pending = [])
    (hh : held.sessionId = record.sessionId ∧ held.requestDigest = record.requestDigest ∧
      held.revision = record.revision ∧ held.conditions = record.conditions)
    (ho : ∀ held, s.file = some held → held.ended = false ∧ held.runId = record.runId)
    (hm : ¬ Marked s record.runId) (hlg : s.outbox.Logs log)
    (hst : st.conditions = record.conditions)
    (he : st.outbox.Logs e) (hu : e ⊆ log) (ha : obs.auth.sessionId = record.sessionId ∧
      obs.auth.requestDigest = record.requestDigest) (hfree : Set.InjOn (conditionId fo.sha256) con)
    (hfo : ∀ dimension, conditionBytes record.requestDigest (record.revision + 1) dimension ∈ con) :
    Wp (project fo obs record)
      ⟨fun _ s' => Sound fo con session s' ∧ Steady s s' ∧ Observed obs st s',
        fun _ s' => Sound fo con session s' ∧ Steady s s',
        fun s' => Sound fo con session s' ∧ Steady s s'⟩ s := by
  obtain ⟨hse, hd, hv, hco⟩ := hh
  have hrec : Recorded fo.sha256 con record log :=
    h.recorded.congr hse.symm hd.symm hv.symm hco.symm
  refine wp_bind (wp_ofExcept (fun _ hr => ?_) fun _ _ => ⟨h.sound, .refl s⟩)
  refine wp_bind (wp_ofExcept (fun turned ht => ?_) fun _ _ => ⟨h.sound, .refl s⟩)
  obtain ⟨hns, hnr, hnc, hn, hsl⟩ := turned_recorded hrec
    hp ha (of_decide_eq_true (require_ok.mp hr)) hfree hfo ht
  dsimp only at hns hnr hnc hn ⊢
  revert hns hnr hnc hn
  generalize (if turned.pending.isEmpty then turned
    else { turned with revision := record.revision + 1 }) = next
  intro hns hnr hnc hn
  have hsa : (episodes fo).Fits next → Loaded fo con session
      { s with file := some next } next (log ++ next.named fo.sha256) := fun hf =>
    .of_save (hns.trans (hse.symm.trans h.session)) hf hn hlg
  have hs : Steady s { s with file := some next } :=
    steady_of_open (fun held hh => hnr ▸ ho held hh) (hnr ▸ hm) s.outbox
  refine wp_bind (Episodes.wp_save (fun hf => ?_) (fun _ => ⟨h.sound, .refl s⟩)
    (fun _ hf => ⟨(hsa hf).sound, hs⟩) ⟨h.sound, .refl s⟩)
  refine wp_bind (wp_flush (hsa hf) (fun s' hlo hl _ _ => wp_pure.mpr ?_)
    (fun _ s' hso hl => ⟨hso, hs.trans hl⟩) fun s' hso hl => ⟨hso, hs.trans hl⟩)
  refine ⟨hlo.sound, hs.trans hl, hlo.agrees rfl, fun dimension => ?_, e, he, fun dimension => ?_⟩
  · rw [hst, hlo.conditions]
    dsimp only
    rw [hnc]
    exact (hsl dimension).1
  · rw [hst, hlo.conditions]
    dsimp only
    rw [hnc]
    obtain ⟨hsta, hc⟩ := (hsl dimension).2
    exact ⟨hsta, fun new hno hw c hg =>
      hc new hno hw c (map_subset _ hu hg)⟩

/-- What an observation that succeeded leaves where its Run has no mark. -/
theorem wp_observe_found {a : Authorization} (ha : a = obs.auth)
    (h : Loaded fo con session s record log)
    (hn : s.file = some record ∨ s.file = none ∧ record = .new a)
    (hv : ∀ record, s.file = some record → record.validate = .ok ()) (hma : ¬ Marked s a.runId)
    (hse : a.sessionId = session) (hfree : Set.InjOn (conditionId fo.sha256) con)
    (hfo : ∀ dimension,
      conditionBytes a.requestDigest (record.revision + 1) dimension ∈ con) : Wp (do
        ofExcept (require (record.requestDigest == a.requestDigest &&
          record.runId == a.runId) .requestMismatch)
        let flushed ← flush fo record
        if flushed.ended then return
        else
          ofExcept (require (decide (flushed.observedAtMs ≤ obs.nowMs)) .invalidGrant)
          project fo obs { flushed with observedAtMs := obs.nowMs })
      ⟨fun _ s' => Sound fo con session s' ∧ Steady s s' ∧
          (Marked s a.runId ∧ s' = s ∨ Closed s' ∨ Observed obs s s'),
        fun _ s' => Sound fo con session s' ∧ Steady s s',
        fun s' => Sound fo con session s' ∧ Steady s s'⟩ s := by
  subst ha
  have hsta : Sound fo con session s ∧ Steady s s := ⟨h.sound, .refl s⟩
  obtain ⟨e, hea, hb⟩ := h.earlier
  refine wp_bind (wp_ofExcept (fun _ hsa => ?_) fun _ _ => hsta)
  simp only [require_ok, Bool.and_eq_true, beq_iff_eq] at hsa
  obtain ⟨hd, hr⟩ := hsa
  refine wp_bind (wp_flush h (fun flushed hf ht hm hk => ?_)
    (fun _ _ hs hl => ⟨hs, hl⟩) fun _ hs hl => ⟨hs, hl⟩)
  dsimp only
  split
  · next he =>
    have hso : s.file = some record := by
      rcases hn with hso | ⟨-, rfl⟩
      · exact hso
      · simp [new] at he
    rw [hso, map_some] at hk
    refine wp_pure.mpr ⟨hf.sound, ht, .inr (.inl ⟨hf.agrees rfl, ⟨_, hk, he⟩, fun dimension => ?_⟩)⟩
    rw [hf.conditions]
    exact validate_ended (hv record hso) he dimension
  · next hop =>
    refine wp_bind (wp_ofExcept (fun _ _ => ?_) fun _ _ => ⟨hf.sound, ht⟩)
    have hi : ∀ held, flushed.file = some held →
        held.ended = false ∧ held.runId = record.runId := by
      intro held hh
      rw [hk] at hh
      obtain ⟨_, -, rfl⟩ := map_eq_some_iff.mp hh
      exact ⟨Bool.eq_false_of_not_eq_true hop, rfl⟩
    have hu : ¬ Marked flushed record.runId := by
      rwa [Marked, hm, hr]
    have hp : Wp (project fo obs
        { record with pending := [], observedAtMs := obs.nowMs }) _ flushed :=
      wp_project hf rfl ⟨rfl, rfl, rfl, rfl⟩ hi hu (hf.logs rfl)
        h.conditions hea hb ⟨hse.trans h.session.symm, hd.symm⟩ hfree
        (fun dimension => hd ▸ hfo dimension)
    refine hp.mono ?_ ?_ ?_
    · rintro _ s' ⟨hs, hl, ho⟩
      exact ⟨hs, ht.trans hl, .inr (.inr ho)⟩
    · rintro _ s' ⟨hs, hl⟩
      exact ⟨hs, ht.trans hl⟩
    · rintro s' ⟨hs, hl⟩
      exact ⟨hs, ht.trans hl⟩

/-- Ending a Session closes the record it has. -/
theorem wp_endLocked (h : Sound fo con session s) : Wp (endLocked fo session)
      ⟨fun _ s' => Sound fo con session s' ∧ Steady s s' ∧ (s.file = none ∧ s' = s ∨ Closed s'),
        fun _ s' => Sound fo con session s' ∧ Steady s s',
        fun s' => Sound fo con session s' ∧ Steady s s'⟩ s := by
  refine wp_bind read_reads (fun f ho => ?_) (fun _ => ⟨h, .refl s⟩) ⟨h, .refl s⟩
  obtain ⟨rfl, hv⟩ := ho
  cases hfl : s.file with
  | none => exact wp_pure.mpr ⟨h, .refl s, .inl ⟨rfl, rfl⟩⟩
  | some record =>
    have hv := hv record hfl
    obtain ⟨log, hl⟩ := h.loaded_some hfl
    refine wp_bind (wp_flush hl (fun flushed hf ht _ hk => ?_)
      (fun _ _ hs ht => ⟨hs, ht⟩) fun _ hs ht => ⟨hs, ht⟩)
    rw [hfl, map_some] at hk
    dsimp only
    split
    · next he =>
      refine wp_pure.mpr ⟨hf.sound, ht, .inr ⟨hf.agrees rfl, ⟨_, hk, he⟩, ?_⟩⟩
      intro dimension
      rw [hf.conditions]
      exact validate_ended hv he dimension
    · refine wp_bind (wp_ofExcept (fun _ hr => ?_) fun _ _ => ⟨hf.sound, ht⟩)
      have hr := of_decide_eq_true (require_ok.mp hr)
      have haft : (record.revision + 1).toNat = record.revision.toNat + 1 := by
        rw [UInt64.toNat_add, UInt64.toNat_one]
        exact Nat.mod_eq_of_lt hr
      have hle : record.revision ≤ record.revision + 1 := UInt64.le_iff_toNat_le.mpr (by omega)
      -- the record that is saved, with what clears its slots
      generalize hn : ({ record with
        pending := (listed record.conditions).map clear, ended := true
        revision := record.revision + 1, conditions := fun _ => none } : Record) = next
      have hrec : Recorded fo.sha256 con next (log ++ next.named fo.sha256) := by
        subst hn
        refine hl.recorded.advance rfl rfl haft (fun condition => ?_) (fun c hh => ?_)
          (fun _ _ h => by simp at h)
        · rw [mem_foldl_clear, hl.recorded.fills]
          simp only [reduceCtorEq, exists_false, iff_false, not_and]
          exact fun hfil hall => hall condition (mem_listed.mpr hfil) rfl
        · obtain ⟨old, hold, rfl⟩ := mem_map.mp hh
          simp only [conditionsOf, mem_singleton, forall_eq]
          obtain ⟨dimension, hd⟩ := mem_listed.mp hold
          exact ⟨dimension, (hl.recorded.current dimension old hd).mono hle⟩
      have hp : next.sessionId = record.sessionId ∧ next.runId = record.runId ∧
          next.ended = true ∧ ∀ dimension, next.conditions dimension = none := by
        subst hn
        exact ⟨rfl, rfl, rfl, fun _ => rfl⟩
      obtain ⟨hnes, hnr, hne, hnn⟩ := hp
      have hsa : (episodes fo).Fits next → Loaded fo con session
          { flushed with file := some next } next (log ++ next.named fo.sha256) ∧
          Steady s { flushed with file := some next } := fun hi => by
        refine ⟨.of_save (hnes.trans hl.session) hi hrec (hf.logs rfl),
          ht.trans (steady_replaced hk hnr (fun _ => hne) ?_ flushed.outbox)⟩
        intro dimension condition hc
        simp [hnn dimension] at hc
      refine wp_bind (Episodes.wp_save (fun hi => ?_) (fun _ => ⟨hf.sound, ht⟩)
        (fun _ hi => ⟨(hsa hi).1.sound, (hsa hi).2⟩) ⟨hf.sound, ht⟩)
      obtain ⟨hnl, hns⟩ := hsa hi
      refine wp_bind (wp_flush hnl (fun l hls ha _ hlf => wp_pure.mpr ?_)
        (fun _ _ hs ha => ⟨hs, hns.trans ha⟩) fun _ hs ha => ⟨hs, hns.trans ha⟩)
      refine ⟨hls.sound, hns.trans ha, .inr ⟨hls.agrees rfl, ⟨_, hlf, hne⟩, fun dimension => ?_⟩⟩
      rw [hls.conditions]
      exact hnn dimension

/-- An observation keeps the store sound. Where it succeeds its Run has the mark and nothing
was done, or the Session has ended, or the conditions are those of the posture. -/
theorem wp_observe (h : Sound fo con session s) (hse : obs.auth.sessionId = session)
    (hfree : Set.InjOn (conditionId fo.sha256) con) (hf : ∀ dimension,
      conditionBytes obs.auth.requestDigest (s.revision + 1) dimension ∈ con) :
    Wp (observe fo session obs) ⟨fun _ s' => Sound fo con session s' ∧ Steady s s' ∧
          (Marked s obs.auth.runId ∧ s' = s ∨ Closed s' ∨ Observed obs s s'),
        fun _ s' => Sound fo con session s' ∧ Steady s s',
        fun s' => Sound fo con session s' ∧ Steady s s'⟩ s := by
  have hs : Sound fo con session s ∧ Steady s s := ⟨h, .refl s⟩
  refine wp_bind (wp_ofExcept (fun _ _ => ?_) fun _ _ => hs)
  refine wp_bind (runEnded_reads _) (fun e he => ?_) (fun _ => hs) hs
  split
  · next hy => exact wp_pure.mpr ⟨h, .refl s, .inl ⟨he.mp hy, rfl⟩⟩
  · next ho =>
    have ha : ¬ Marked s obs.auth.runId := fun hm => ho (he.mpr hm)
    rw [hse]
    refine wp_bind read_reads (fun p hp => ?_) (fun _ => hs) hs
    obtain ⟨rfl, hv⟩ := hp
    -- a new record is as good as the one of a store that has none
    have hl : ∃ log, Loaded fo con session s (s.file.getD (.new obs.auth)) log ∧
        (s.file = some (s.file.getD (.new obs.auth)) ∨
          s.file = none ∧ s.file.getD (.new obs.auth) = .new obs.auth) ∧
        s.revision = (s.file.getD (.new obs.auth)).revision := by
      unfold Store.revision
      cases hi : s.file with
      | none => exact ⟨[], h.loaded_new hi hse, .inr ⟨rfl, rfl⟩, rfl⟩
      | some record =>
        obtain ⟨log, hl⟩ := h.loaded_some hi
        exact ⟨log, hl, .inl rfl, rfl⟩
    obtain ⟨log, hl, hfo, hrev⟩ := hl
    rw [hrev] at hf
    split
    · next hn =>
      simp only [Bool.and_eq_true, isNone_iff_eq_none, Bool.not_eq_true'] at hn
      obtain ⟨⟨hnn, hw⟩, hq⟩ := hn
      have hnew := h.loaded_new hnn hse
      have hsl : ∀ dimension, s.conditions dimension = none := by
        intro dimension
        rw [hnew.conditions]
        rfl
      refine wp_pure.mpr ⟨h, .refl s, .inr (.inr ⟨hnew.agrees rfl, fun dimension => ?_,
        [], hnew.logs rfl, fun dimension => ⟨?_, ?_⟩⟩)⟩
      · simp [ShowsAt, hsl, hw, hq]
      · exact fun old _ hold => by simp [hsl] at hold
      · exact fun new _ hnew => by simp [hsl] at hnew
    · have hr := wp_observe_found rfl hl hfo hv ha hse hfree hf
      split
      · refine wp_bind recordsLocked_reads (fun _ _ => ?_) (fun _ => hs) hs
        exact hr
      · exact hr

theorem Sound.agrees_none (h : Sound fo con session s) (hn : s.file = none) :
    Agrees s := by
  obtain ⟨record, log, hl⟩ := h
  rcases hl.file with ⟨hs, -⟩ | ⟨-, -, a, rfl⟩
  · simp [hn] at hs
  · exact hl.agrees rfl

/-- A reconciliation tells the outbox what a call before it left, and ends a Session whose Run
has ended. -/
theorem wp_reconcile (h : Sound fo con session s) : Wp (reconcile fo session)
      ⟨fun _ s' => Sound fo con session s' ∧ Steady s s' ∧ Agrees s' ∧
          ∀ record, s.file = some record → Marked s record.runId → Closed s',
        fun _ s' => Sound fo con session s' ∧ Steady s s',
        fun s' => Sound fo con session s' ∧ Steady s s'⟩ s := by
  have hst : Sound fo con session s ∧ Steady s s := ⟨h, .refl s⟩
  refine wp_bind recordsLocked_reads (fun f hfo => ?_) (fun _ => hst) hst
  obtain ⟨rfl, -⟩ := hfo
  cases hi : s.file with
  | none => exact wp_pure.mpr ⟨h, .refl s, h.agrees_none hi, fun _ hso => by simp at hso⟩
  | some record =>
    obtain ⟨log, hlo⟩ := h.loaded_some hi
    refine wp_bind (runEnded_reads _) (fun e he => ?_) (fun _ => hst) hst
    split
    · rw [hlo.session]
      refine (wp_endLocked h).mono ?_ (fun _ _ hs => hs) fun _ hs => hs
      rintro _ s' ⟨hs, ht, ⟨hn, -⟩ | hc⟩
      · simp [hi] at hn
      · exact ⟨hs, ht, hc.agrees, fun _ _ _ => hc⟩
    · next ho =>
      refine wp_bind (wp_flush hlo (fun s' hf ht _ _ => wp_pure.mpr ?_)
        (fun _ _ hs hl => ⟨hs, hl⟩) fun _ hs hl => ⟨hs, hl⟩)
      refine ⟨hf.sound, ht, hf.agrees rfl, fun held hh hm => ?_⟩
      obtain rfl := some.inj hh
      exact absurd (he.mpr hm) ho

/-- The marks that a Run's end leaves keep the store sound. -/
theorem Sound.interrupted {run n : String} {s' : Store} (h : Sound fo con session s)
    (hm : (endedRunFiles fo).Interrupted n run s s') : Sound fo con session s' ∧ Steady s s' := by
  have hg : ∀ os, Sound fo con session { s with endedRuns := s.endedRuns ++ os } ∧
      Steady s { s with endedRuns := s.endedRuns ++ os } := by
    intro os
    obtain ⟨record, log, hf, hs, he, ht⟩ := h
    refine ⟨⟨record, log, hf, hs, he, ht⟩, grows_append _ _,
      fun record hr => ⟨record, hr, rfl, id, fun _ _ _ h => h⟩, fun hn next hne => ?_⟩
    have ho : s.file = some next := hne
    simp [hn] at ho
  cases hm with
  | nothing => exact ⟨h, .refl s⟩
  | torn _ => exact hg _
  | whole _ => exact hg _

/-- The end of a Run leaves its mark and ends its Session. -/
theorem wp_endRun {run : String} (h : Sound fo con session s) : Wp (endRun fo session run)
      ⟨fun _ s' => Sound fo con session s' ∧ Steady s s' ∧ Marked s' run ∧
          ∀ record, s.file = some record → record.runId = run → Closed s',
        fun _ s' => Sound fo con session s' ∧ Steady s s',
        fun s' => Sound fo con session s' ∧ Steady s s'⟩ s := by
  have ha : Sound fo con session s ∧ Steady s s := ⟨h, .refl s⟩
  have hr : ∀ m, Sound fo con session m → Steady s m → m.file = s.file → Marked m run →
      Wp (endSessions fo session run)
        ⟨fun _ s' => Sound fo con session s' ∧ Steady s s' ∧ Marked s' run ∧
            ∀ record, s.file = some record → record.runId = run → Closed s',
          fun _ s' => Sound fo con session s' ∧ Steady s s',
          fun s' => Sound fo con session s' ∧ Steady s s'⟩ m := by
    intro m hso ht hk hm
    refine wp_bind recordsLocked_reads (fun f hfo => ?_) (fun _ => ⟨hso, ht⟩) ⟨hso, ht⟩
    obtain ⟨rfl, -⟩ := hfo
    cases hf : m.file with
    | none =>
      refine wp_pure.mpr ⟨hso, ht, hm, fun record hrec => ?_⟩
      rw [hk, hrec] at hf
      simp at hf
    | some record =>
      obtain ⟨log, hlo⟩ := hso.loaded_some hf
      dsimp only
      split
      · rw [hlo.session]
        refine (wp_endLocked hso).mono ?_ ?_ ?_
        · rintro _ s' ⟨hs, hl, ⟨hn, -⟩ | hc⟩
          · simp [hf] at hn
          · exact ⟨hs, ht.trans hl, hl.marks _ _ hm, fun _ _ _ => hc⟩
        · rintro _ s' ⟨hs, hl⟩
          exact ⟨hs, ht.trans hl⟩
        · rintro s' ⟨hs, hl⟩
          exact ⟨hs, ht.trans hl⟩
      · next ho =>
        refine wp_pure.mpr ⟨hso, ht, hm, fun held hh hu => ?_⟩
        rw [hk, hh] at hf
        obtain rfl := some.inj hf
        exact absurd hu ho
  refine wp_bind (wp_ofExcept (fun _ _ => ?_) fun _ _ => ha)
  refine wp_bind (runEnded_reads _) (fun e he => ?_) (fun _ => ha) ha
  cases e with
  | true => exact hr s h (.refl s) rfl (he.mp rfl)
  | false =>
    refine wp_bind (wp_ofExcept (fun n hna => ?_) fun _ _ => ha)
    unfold recordName at hna
    split at hna
    · obtain rfl := ok.inj hna
      refine wp_bind (Directory.wp_create (fun hn => ?_) (fun _ _ hma => h.interrupted hma)
        fun _ hma => h.interrupted hma)
      obtain ⟨hso, ht⟩ := h.interrupted (.whole hn)
      exact hr _ hso ht rfl (lookup_append_new hn)
    · simp at hna

end

/-! ### Runs -/

/-- One call about the Session, with what befalls its operations. -/
inductive Event where
  | observe (observation : Observation) (faults : List Fault)
  | close (faults : List Fault)
  | endRun (run : String) (faults : List Fault)
  | reconcile (faults : List Fault)

section

variable (format : Format) (contents : Set Bytes) (session : String)

/-- The store that a call leaves, and whether it succeeded. -/
def Event.result (s : Store) : Event → Ending BrokerError Unit × List Fault × Store
  | .observe observation faults => PostureAttention.observe format session observation faults s
  | .close faults => endLocked format session faults s
  | .endRun run faults => PostureAttention.endRun format session run faults s
  | .reconcile faults => PostureAttention.reconcile format session faults s

def step (s : Store) (event : Event) : Store := (event.result format session s).2.2

/-- An observation is of the Session, and the names of the conditions that it may open are
among some bytes. -/
def Formed (s : Store) : Event → Prop
  | .observe observation _ => observation.auth.sessionId = session ∧ ∀ dimension,
    conditionBytes observation.auth.requestDigest (s.revision + 1) dimension ∈ contents
  | _ => True

/-- What a call leaves where it succeeds. -/
def Follows (s : Store) (event : Event) : Prop :=
  let s' := step format session s event
  (event.result format session s).1 = .value () →
    match event with
    | .observe observation _ =>
      Marked s observation.auth.runId ∧ s' = s ∨ Closed s' ∨ Observed observation s s'
    | .close _ => s.file = none ∧ s' = s ∨ Closed s'
    | .endRun run _ => Marked s' run ∧
      ∀ record, s.file = some record → record.runId = run → Closed s'
    | .reconcile _ => Agrees s' ∧ ∀ record, s.file = some record → Marked s record.runId → Closed s'

/-- The record there is can be read back. -/
def Kept (s : Store) : Prop :=
  ∀ record, s.file = some record → Returns (read format session) s (some record) s

variable {format contents session} {s : Store}

theorem Sound.kept (h : Sound format contents session s) : Kept format session s := by
  intro record hr
  obtain ⟨log, hl⟩ := h.loaded_some hr
  rcases hl.file with ⟨-, hv, hs⟩ | ⟨hn, -⟩
  · have ha : recordName session = .ok (session ++ ".json") := by
      have hi : isRecordIdentifier session = true := by
        rw [← hl.session]
        obtain ⟨h, -⟩ := check_ok.mp hv
        simp only [require_ok, Bool.not_eq_true', Bool.or_eq_false_iff, Bool.not_eq_false'] at h
        exact h.1.1.1.1.1.1
      rw [recordName, if_pos hi]
    refine returns_bind (returns_ofExcept ha _) (returns_bind (returns_query _ _ rfl) ?_)
    rw [hr]
    refine returns_bind (returns_ofExcept (a := ()) ?_ _) (returns_bind (returns_ofExcept hv _) ?_)
    · exact require_ok.mpr (decide_eq_true hs)
    · refine returns_bind (returns_ofExcept (a := ()) ?_ _) (returns_pure _ _)
      simpa using hl.session
  · simp [hr] at hn

/-- Each call keeps the store sound and steady, and where it succeeds leaves what it should. -/
theorem Sound.step (h : Sound format contents session s)
    (hfree : Set.InjOn (conditionId format.sha256) contents) {e : Event}
    (hf : Formed contents session s e) : Sound format contents session (step format session s e) ∧
      Steady s (step format session s e) ∧ Follows format session s e := by
  have hc : ∀ {p : Program Store BrokerError Unit} {Q : Store → Prop} (fs : List Fault),
      Wp p ⟨fun _ s' => Sound format contents session s' ∧ Steady s s' ∧ Q s',
        fun _ s' => Sound format contents session s' ∧ Steady s s',
        fun s' => Sound format contents session s' ∧ Steady s s'⟩ s →
      (Sound format contents session (p.leaves fs s) ∧ Steady s (p.leaves fs s)) ∧
        ((p fs s).1 = .value () → Q (p.leaves fs s)) := by
    intro p Q fs hw
    exact ⟨Wp.leaves (Q := fun s' => Sound format contents session s' ∧ Steady s s')
      (hw.mono (fun _ _ hs => ⟨hs.1, hs.2.1⟩) (fun _ _ hs => hs) fun _ hs => hs) fs,
      fun hv => (hw.value_of hv).2.2⟩
  cases e with
  | observe observation fs =>
    obtain ⟨⟨hs, ht⟩, hv⟩ := hc fs (wp_observe h hf.1 hfree hf.2)
    exact ⟨hs, ht, hv⟩
  | close fs =>
    obtain ⟨⟨hs, ht⟩, hv⟩ := hc fs (wp_endLocked h)
    exact ⟨hs, ht, hv⟩
  | endRun run fs =>
    obtain ⟨⟨hs, ht⟩, hv⟩ := hc fs (wp_endRun h)
    exact ⟨hs, ht, hv⟩
  | reconcile fs =>
    obtain ⟨⟨hs, ht⟩, hv⟩ := hc fs (wp_reconcile h)
    exact ⟨hs, ht, hv⟩

/-- Where every call keeps the store sound, a run is steady. -/
theorem Sound.steady_run (h : Sound format contents session s)
    (hfree : Set.InjOn (conditionId format.sha256) contents) {es : List Event}
    (hf : Throughout (PostureAttention.step format session) (Formed contents session) s es) :
    Steady s (es.foldl (PostureAttention.step format session) s) := by
  induction es generalizing s with
  | nil => exact .refl s
  | cons e es ih =>
    obtain ⟨hs, ht, -⟩ := h.step hfree hf.1
    exact ht.trans (ih hs hf.2)

end

/-- However the calls about a Session are ordered and interrupted: where one succeeds the outbox
knows exactly the conditions of the record, unless it was an observation of a Run that has its
mark, which does nothing. After an observation the conditions are those that the posture asks
for, under identities that stay with a slot until it is cleared and are not used again. Where
the Session or its Run has ended nothing opens. What was saved can be read back. Identities are
free of collisions on the names that the calls form. -/
theorem alerts_follow_posture (format : Format) (contents : Set Bytes) (session : String)
    (hfree : Set.InjOn (conditionId format.sha256) contents) (events : List Event)
    (hformed : Throughout (step format session) (Formed contents session) ⟨none, [], .empty⟩
      events) : Always (step format session) (Kept format session) ⟨none, [], .empty⟩ events ∧
      Throughout (step format session) (Follows format session) ⟨none, [], .empty⟩ events ∧
      ∀ before after, events = before ++ after →
        Steady (before.foldl (step format session) ⟨none, [], .empty⟩)
          (events.foldl (step format session) ⟨none, [], .empty⟩) := by
  have hs : Always (step format session) (Sound format contents session) ⟨none, [], .empty⟩
      events :=
    always_of_throughout (fun _ _ h hformed => (h.step hfree hformed).1) sound_empty hformed
  refine ⟨hs.mono fun _ h => h.kept,
    hs.throughout_imp hformed fun _ _ h hformed => (h.step hfree hformed).2.2, ?_⟩
  rintro before after rfl
  rw [foldl_append]
  exact (always_append.mp hs).2.first.steady_run hfree (throughout_append.mp hformed).2

/-! ### An example -/

/-- A Session of the run `00000000-0000-4000-8000-000000000000`. -/
def sampleAuth : Authorization :=
  ⟨"s", "00000000-0000-4000-8000-000000000000",
    "sha256:0000000000000000000000000000000000000000000000000000000000000000"⟩

/-- The runtime has failed. -/
def sampleObservation (waiting : Bool) (nowMs : UInt64) : Observation where
  auth := sampleAuth
  posture := ⟨sampleAuth.sessionId, sampleAuth.runId, fun dimension =>
    if dimension = .runtime then ⟨.failed, some .runtimeDrift⟩ else ⟨.verified, none⟩⟩
  waiting := waiting
  quarantined := false
  nowMs := nowMs

/-- Files without any bytes, and a digest that adds bytes up. -/
def sampleFormat : Format where
  sha256 := fun bytes => Vector.replicate 32 (bytes.foldl (· + ·) 0)
  recordBytes := fun _ => 0
  runBytes := fun _ => 0
  entryBytes := fun _ => 0

/-- A dimension fails without a condition while its Session does not wait; a Session that was
ended before it had a record opens a condition; and a Run with its mark still has one after an
observation, where the end of the Run was interrupted. -/
theorem alerts_miss_posture :
    let after := List.foldl (step sampleFormat "s") ⟨none, [], .empty⟩
    let waits := Event.observe (sampleObservation true 5) []
    let works := Event.observe (sampleObservation false 5) []
    let stops := Event.endRun sampleAuth.runId [.none, .none, .none, .none, .crash]
    ((works.result sampleFormat "s" (after [])).1 = .value () ∧
      (after [works]).conditions .runtime = none) ∧
    (((Event.close []).result sampleFormat "s" (after [])).1 = .value () ∧
      (waits.result sampleFormat "s" (after [.close []])).1 = .value () ∧
      (after [.close [], waits]).conditions .runtime ≠ none) ∧
    (Marked (after [waits, stops]) sampleAuth.runId ∧
      (waits.result sampleFormat "s" (after [waits, stops])).1 = .value () ∧
      (after [waits, stops, waits]).conditions .runtime ≠ none) := by
  refine ⟨⟨rfl, rfl⟩, ⟨rfl, ?_⟩, ?_⟩
  · decide +kernel
  · unfold Marked
    decide +kernel

/-- The names that the first observation forms have identities of their own. -/
theorem sample_injOn : Set.InjOn (conditionId sampleFormat.sha256)
    (Set.range (conditionBytes sampleAuth.requestDigest 1)) := by
  have ha : ∀ dimension ∈ DimensionName.all, ∀ other ∈ DimensionName.all,
      conditionId sampleFormat.sha256 (conditionBytes sampleAuth.requestDigest 1 dimension) =
        conditionId sampleFormat.sha256 (conditionBytes sampleAuth.requestDigest 1 other) →
      dimension = other := by
    decide +kernel
  rintro _ ⟨dimension, rfl⟩ _ ⟨other, rfl⟩ hs
  rw [ha _ dimension.mem_all _ other.mem_all hs]

theorem alerts_follow_posture_sample :
    let events : List Event :=
      [.observe (sampleObservation true 5) [.none, .crash], .endRun sampleAuth.runId [],
        .reconcile []]
    Always (step sampleFormat "s") (Kept sampleFormat "s") ⟨none, [], .empty⟩ events ∧
      Throughout (step sampleFormat "s") (Follows sampleFormat "s") ⟨none, [], .empty⟩ events ∧
      ∀ pre l, events = pre ++ l → Steady (pre.foldl (step sampleFormat "s") ⟨none, [], .empty⟩)
          (events.foldl (step sampleFormat "s") ⟨none, [], .empty⟩) :=
  alerts_follow_posture sampleFormat _ "s" sample_injOn _
    ⟨⟨rfl, fun dimension => ⟨dimension, rfl⟩⟩, trivial, trivial, trivial⟩

end Louiselm.Broker.PostureAttention
