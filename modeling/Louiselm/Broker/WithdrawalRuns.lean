import Louiselm.Base.Runs
import Louiselm.Broker.Withdrawals

/-!
# Withdrawal conditions along every run

The record of `Broker/Withdrawals` and the outbox under calls that may stop at any of their
operations. What the outbox was told and what the record has pending are together one log,
after which the conditions of the record are open.
-/

namespace Louiselm.Broker.WithdrawalAttention
open Base Canonical List Except
open Base.Program
open Endorsement (Urgency WithdrawalAlert)
open ProjectionChange Record

/-! ### What a valid record is -/

section

variable {re : Record} {cond : AttentionCondition}

theorem checkConditions_ok {seen : List (Option (String × String))} {ops : List String}
    {conditions : List AttentionCondition} (h : re.checkConditions seen ops conditions = .ok ()) :
    (conditions.map conditionKey).Nodup ∧ (conditions.map (·.operationId)).Nodup ∧
      (∀ cond ∈ conditions, re.condition cond = .ok ()) ∧
      ∀ cond ∈ conditions, conditionKey cond ∉ seen ∧ cond.operationId ∉ ops := by
  induction conditions generalizing seen ops with
  | nil => simp
  | cons cond conditions ih =>
    unfold checkConditions at h
    obtain ⟨hc, h⟩ := check_ok.mp h
    obtain ⟨hf, h⟩ := check_ok.mp h
    simp only [require_ok, Bool.not_eq_true', Bool.or_eq_false_iff, contains_eq_mem,
      decide_eq_false_iff_not] at hf
    obtain ⟨hk, hi, ha, hs⟩ := ih h
    simp only [mem_cons, not_or] at hs
    refine ⟨nodup_cons.mpr ⟨?_, hk⟩, nodup_cons.mpr ⟨?_, hi⟩,
      forall_mem_cons.mpr ⟨hc, ha⟩, forall_mem_cons.mpr ⟨hf, ?_⟩⟩
    · intro hm
      obtain ⟨x, ho, he⟩ := mem_map.mp hm
      exact (hs x ho).1.1 he
    · intro hm
      obtain ⟨x, ho, hd⟩ := mem_map.mp hm
      exact (hs x ho).2.1 hd
    · exact fun x ho => ⟨(hs x ho).1.2, (hs x ho).2.2⟩

/-- The conditions of a valid record are about different pairs, under different identities. -/
structure Distinct (conditions : List AttentionCondition) : Prop where
  keys : (conditions.map conditionKey).Nodup
  operations : (conditions.map (·.operationId)).Nodup

theorem validate_ok (h : re.validate = .ok ()) : Distinct re.conditions ∧
    ∀ cond ∈ re.conditions, re.condition cond = .ok () := by
  obtain ⟨-, h⟩ := check_ok.mp h
  obtain ⟨h, -⟩ := check_ok.mp h
  obtain ⟨hk, hi, ha, -⟩ := checkConditions_ok h
  exact ⟨⟨hk, hi⟩, ha⟩

variable {co : List AttentionCondition} {o : AttentionCondition}

theorem Distinct.eq_of_key (h : Distinct co) (hc : cond ∈ co) (ho : o ∈ co)
    (hk : conditionKey cond = conditionKey o) : cond = o :=
  inj_on_of_nodup_map h.keys hc ho hk

theorem Distinct.eq_of_operation (h : Distinct co) (hc : cond ∈ co) (ho : o ∈ co)
    (hi : cond.operationId = o.operationId) : cond = o :=
  inj_on_of_nodup_map h.operations hc ho hi

end

/-! ### Names -/

theorem changeName_inj {operatorUid : UInt32} {revision x : UInt64} {i p : Nat} :
    changeName operatorUid revision i = changeName operatorUid x p ↔ revision = x ∧ i = p :=
  (Text.numbered_inj '-' (by simp) rfl).trans (and_congr_right' Text.toString_inj)

/-- Conditions that are open since different revisions have different names. -/
theorem conditionBytes_revision {operatorUid : UInt32} {revision x : UInt64}
    {pair : String × String} {a : String × String}
    (h : conditionBytes operatorUid revision pair = conditionBytes operatorUid x a) :
    revision = x := by
  have hc := congrArg String.toList (utf8_inj.mp h)
  simp only [String.toList_append, append_assoc, append_cancel_left_eq,
    Text.toList_toString_uint64] at hc
  exact UInt64.toNat_inj.mp ((Text.digits_inj (by decide)).mp hc).1

/-! ### What some alerts ask for -/

/-- How much a pair matters, by all its alerts. -/
def urgencyOf (alerts : List WithdrawalAlert) (pair : String × String) : Urgency :=
  if ∃ alert ∈ alerts, pairOf alert = pair ∧ alert.urgency = .reliedOn then .reliedOn
  else .subjectOnly

section

variable {sha256 : Sha256} {record : Record} {revision nowMs : UInt64} {desired next : Desired}
  {alerts se : List WithdrawalAlert} {alert : WithdrawalAlert}

/-- The condition of an alert, as urgent as its pair. -/
def urgentOf (sha256 : Sha256) (record : Record) (revision nowMs : UInt64)
    (alerts : List WithdrawalAlert) (alert : WithdrawalAlert) : AttentionCondition :=
  { conditionOf sha256 record revision nowMs alert with
    reason := .endorsementWithdrawn
      { detailsOf alert with urgency := urgencyOf alerts (pairOf alert) } }

/-- The desired conditions are one for each pair of the alerts. -/
structure Takes (sha256 : Sha256) (record : Record) (revision nowMs : UInt64)
    (alerts : List WithdrawalAlert) (desired : Desired) : Prop where
  keys : (desired.map Prod.fst).Nodup
  each : ∀ item ∈ desired, ∃ alert ∈ alerts, pairOf alert = item.1 ∧
    item.2 = urgentOf sha256 record revision nowMs alerts alert
  all : ∀ alert ∈ alerts, pairOf alert ∈ desired.map Prod.fst

variable {pair : String × String}

theorem urgencyOf_append_of_ne (h : pairOf alert ≠ pair) :
    urgencyOf (se ++ [alert]) pair = urgencyOf se pair := by
  simp [urgencyOf, or_and_right, exists_or, h]

theorem urgencyOf_append_of_subjectOnly (h : alert.urgency ≠ .reliedOn) :
    urgencyOf (se ++ [alert]) pair = urgencyOf se pair := by
  simp [urgencyOf, or_and_right, exists_or, h]

theorem urgencyOf_append_of_reliedOn (h : alert.urgency = .reliedOn) :
    urgencyOf (se ++ [alert]) (pairOf alert) = .reliedOn := by
  unfold urgencyOf
  rw [if_pos]
  exact ⟨alert, by simp, rfl, h⟩

theorem urgencyOf_append_of_new (h : ∀ x ∈ se, pairOf x ≠ pairOf alert) :
    urgencyOf (se ++ [alert]) (pairOf alert) = alert.urgency := by
  cases hu : alert.urgency with
  | reliedOn => exact urgencyOf_append_of_reliedOn hu
  | subjectOnly =>
    rw [urgencyOf_append_of_subjectOnly (by simp [hu])]
    unfold urgencyOf
    rw [if_neg]
    rintro ⟨x, ho, hp, -⟩
    exact h x ho hp

/-- Where the urgency of the pair stays, so does its condition. -/
theorem Takes.each_append (h : Takes sha256 record revision nowMs se desired)
    {x : (String × String) × AttentionCondition} (hi : x ∈ desired)
    (hs : urgencyOf (se ++ [alert]) x.1 = urgencyOf se x.1) :
    ∃ ot ∈ se ++ [alert], pairOf ot = x.1 ∧
      x.2 = urgentOf sha256 record revision nowMs (se ++ [alert]) ot := by
  obtain ⟨ot, ho, hp, hc⟩ := h.each x hi
  refine ⟨ot, mem_append_left _ ho, hp, hc.trans ?_⟩
  unfold urgentOf
  rw [hp, hs]

theorem lookup_some {condition : AttentionCondition} (h : desired.lookup pair = some condition) :
    (pair, condition) ∈ desired := by
  obtain ⟨pre, l, rfl, -⟩ := lookup_eq_some_iff.mp h
  exact mem_append_right _ mem_cons_self

/-- One more alert is taken up. -/
theorem addAlert_takes (h : Takes sha256 record revision nowMs se desired)
    (ha : addAlert sha256 record revision nowMs desired alert = .ok next) :
    Takes sha256 record revision nowMs (se ++ [alert]) next := by
  unfold addAlert at ha
  split at ha
  · -- a pair that is there already
    next e hl =>
    have hm := lookup_some hl
    have hall : ∀ x ∈ se ++ [alert], pairOf x ∈ desired.map Prod.fst := by
      refine forall_mem_append.mpr ⟨h.all, forall_mem_singleton.mpr ?_⟩
      exact mem_map_of_mem (f := Prod.fst) hm
    split at ha
    · simp at ha
    · next p hr =>
      split at ha
      · simp at ha
      · split at ha
        · next hu =>
          obtain rfl := ok.inj ha
          have hk : (desired.map fun it => if it.1 = pairOf alert then
              (pairOf alert, urgent e p) else it).map Prod.fst =
              desired.map Prod.fst := by
            rw [map_map]
            refine map_congr_left fun it _ => ?_
            simp only [Function.comp_apply]
            split
            · next heq => exact heq.symm
            · rfl
          refine ⟨hk ▸ h.keys, fun it hi => ?_, fun x ho => hk ▸ hall x ho⟩
          obtain ⟨held, hh, rfl⟩ := mem_map.mp hi
          split
          · obtain ⟨x, ho, hp, hc⟩ := h.each _ hm
            refine ⟨x, mem_append_left _ ho, hp, ?_⟩
            dsimp only at hp hc
            rw [hc] at hr ⊢
            obtain rfl := Option.some.inj hr
            unfold urgentOf urgent
            rw [hp, urgencyOf_append_of_reliedOn hu]
          · next hn =>
            exact h.each_append hh (urgencyOf_append_of_ne fun heq => hn heq.symm)
        · next hu =>
          obtain rfl := ok.inj ha
          exact ⟨h.keys, fun it hi =>
            h.each_append hi (urgencyOf_append_of_subjectOnly hu), hall⟩
  · -- a new pair
    next hl =>
    obtain ⟨-, ha⟩ := check_ok.mp ha
    obtain rfl := ok.inj ha
    have hf : pairOf alert ∉ desired.map Prod.fst := by
      intro hm
      obtain ⟨it, hi, hp⟩ := mem_map.mp hm
      have hn := lookup_eq_none_iff.mp hl it hi
      simp [hp] at hn
    have he := perm_orderedInsert (fun a b : (String × String) × AttentionCondition =>
      toLex a.1 ≤ toLex b.1) (pairOf alert, conditionOf sha256 record revision nowMs alert) desired
    refine ⟨?_, fun it hi => ?_, fun x ho => ?_⟩
    · rw [(he.map Prod.fst).nodup_iff, map_cons]
      exact nodup_cons.mpr ⟨hf, h.keys⟩
    · rcases mem_cons.mp (he.mem_iff.mp hi) with rfl | hi
      · refine ⟨alert, by simp, rfl, ?_⟩
        unfold urgentOf
        rw [urgencyOf_append_of_new fun x ho heq => hf (heq ▸ h.all x ho)]
        rfl
      · refine h.each_append hi (urgencyOf_append_of_ne fun heq => hf ?_)
        exact heq ▸ mem_map_of_mem hi
    · rw [(he.map Prod.fst).mem_iff, map_cons]
      rcases mem_append.mp ho with ho | ho
      · exact mem_cons_of_mem _ (h.all x ho)
      · rw [mem_singleton.mp ho]
        exact mem_cons_self

/-- What is left of the alerts is taken up one by one. -/
theorem foldlM_takes (h : Takes sha256 record revision nowMs se desired)
    (hf : alerts.foldlM (addAlert sha256 record revision nowMs) desired = .ok next) :
    Takes sha256 record revision nowMs (se ++ alerts) next := by
  induction alerts generalizing se desired with
  | nil =>
    obtain rfl := ok.inj hf
    rwa [append_nil]
  | cons alert alerts ih =>
    rw [foldlM_cons] at hf
    obtain ⟨t, ha, hf⟩ := bind_ok.mp hf
    have hl := ih (addAlert_takes h ha) hf
    rwa [append_assoc, singleton_append] at hl

theorem desired_takes (hf : alerts.foldlM (addAlert sha256 record revision nowMs) [] = .ok next) :
    Takes sha256 record revision nowMs alerts next := by
  have hn : Takes sha256 record revision nowMs [] [] := ⟨by simp, by simp, by simp⟩
  exact foldlM_takes hn hf

end

/-! ### The log -/

/-- Whether a change clears an operation. -/
def clearsOperation (operationId : String) : ProjectionChange → Bool
  | .clear condition => condition.operationId == operationId
  | _ => false

/-- A condition is one of the operator's, and has the identity of a revision up to some one. -/
structure Owned (sha256 : Sha256) (contents : Set Bytes) (operatorUid : UInt32)
    (revision : UInt64) (condition : AttentionCondition) : Prop where
  subject : condition.subject = .supply (toString operatorUid)
  kind : condition.reason.fields.1 = "endorsement_withdrawn"
  operation : ∃ since ≤ revision, ∃ pair, conditionBytes operatorUid since pair ∈ contents ∧
    condition.operationId = conditionId sha256 (conditionBytes operatorUid since pair)

/-- What a record says of the log that has all its pending changes: its conditions are open,
the names and the identities are those of its revisions, and nothing is cleared twice. -/
structure Recorded (sha256 : Sha256) (contents : Set Bytes) (record : Record) (log : List Named) :
    Prop where
  opened : ∀ condition, condition ∈ openAfter (log.map Prod.snd) ↔ condition ∈ record.conditions
  names : ∀ item ∈ log, ∃ revision ≤ record.revision, ∃ index,
    item.1 = changeName record.operatorUid revision index
  nodup : (log.map Prod.fst).Nodup
  owned : ∀ change ∈ log.map Prod.snd, ∀ condition ∈ conditionsOf change,
    Owned sha256 contents record.operatorUid record.revision condition
  current : ∀ condition ∈ record.conditions,
    Owned sha256 contents record.operatorUid record.revision condition
  once : ∀ operationId, (log.map Prod.snd).countP (clearsOperation operationId) ≤ 1
  kept : ∀ condition ∈ record.conditions,
    (log.map Prod.snd).countP (clearsOperation condition.operationId) = 0

section

variable {sh2 : Sha256} {cts : Set Bytes} {record : Record} {log : List Named}

theorem recorded_default (operatorUid : UInt32) : Recorded sh2 cts (.default operatorUid) [] where
  opened := fun condition => by simp [openAfter, Record.default]
  names := forall_mem_nil _
  nodup := nodup_nil
  owned := forall_mem_nil _
  current := forall_mem_nil _
  once := fun _ => Nat.zero_le _
  kept := forall_mem_nil _

/-- The log is about the conditions and the revision of the record alone. -/
theorem Recorded.congr (h : Recorded sh2 cts record log) {x : Record}
    (hu : x.operatorUid = record.operatorUid) (hr : x.revision = record.revision)
    (hc : x.conditions = record.conditions) : Recorded sh2 cts x log where
  opened := hc ▸ h.opened
  names := hr ▸ hu ▸ h.names
  nodup := h.nodup
  owned := hr ▸ hu ▸ h.owned
  current := hc ▸ hr ▸ hu ▸ h.current
  once := h.once
  kept := hc ▸ h.kept

variable {condition : AttentionCondition}

theorem Owned.mono {operatorUid : UInt32} {revision l : UInt64}
    (h : Owned sh2 cts operatorUid revision condition) (hl : revision ≤ l) :
    Owned sh2 cts operatorUid l condition := by
  obtain ⟨si, hs, hr⟩ := h.operation
  exact ⟨h.subject, h.kind, si, UInt64.le_trans hs hl, hr⟩

/-- Conditions of one operator are named by their operations. -/
theorem Owned.name_eq {operatorUid : UInt32} {revision l : UInt64} {x : AttentionCondition}
    (h : Owned sh2 cts operatorUid revision condition) (ho : Owned sh2 cts operatorUid l x) :
    condition.name = x.name ↔ condition.operationId = x.operationId := by
  simp [AttentionCondition.name, h.subject, ho.subject, h.kind, ho.kind]

end

/-! ### From one record to the next -/

/-- What clears and opens nothing is not desired, and what is not there already. -/
def gone (desired : Desired) (conditions : List AttentionCondition) : List AttentionCondition :=
  conditions.filter fun condition =>
    decide (conditionKey condition ∉ desired.map fun item => some item.1)

section

variable {sha256 : Sha256} {contents : Set Bytes} {record : Record} {log : List Named}
  {de : Desired} {al : List WithdrawalAlert} {alert : WithdrawalAlert} {ms : UInt64}
  {con : List AttentionCondition} {condition : AttentionCondition} {pair : String × String}

theorem lookup_isSome : (de.lookup pair).isSome = true ↔ pair ∈ de.map Prod.fst := by
  rw [Option.isSome_iff_ne_none, ne_eq, lookup_eq_none_iff, mem_map]
  simp only [not_forall, exists_prop, bne_iff_ne, ne_eq, not_not]
  simp only [eq_comm]

theorem clears_ok {cs : List ProjectionChange} (h : clears de con = .ok cs) :
    cs = (gone de con).map .clear := by
  induction con generalizing cs with
  | nil =>
    obtain rfl := ok.inj h
    rfl
  | cons condition con ih =>
    unfold clears at h
    cases hk : conditionKey condition with
    | none => simp [hk] at h
    | some pair =>
      rw [hk] at h
      obtain ⟨xs, hr, h⟩ := bind_ok.mp h
      obtain rfl := ok.inj h
      have hm : conditionKey condition ∈ (de.map fun x => some x.1) ↔
          (de.lookup pair).isSome = true := by
        rw [lookup_isSome, hk]
        simp
      rw [ih hr]
      unfold gone
      rw [filter_cons]
      by_cases hs : (de.lookup pair).isSome = true
      · rw [if_pos hs, if_neg (by simpa using hm.mpr hs)]
      · rw [if_neg hs, if_pos (by simpa using fun hi => hs (hm.mp hi)), map_cons]

theorem mem_gone : condition ∈ gone de con ↔
    condition ∈ con ∧ ∀ x ∈ de, conditionKey condition ≠ some x.1 := by
  simp only [gone, mem_filter, mem_map, decide_eq_true_eq, not_exists, not_and]
  exact and_congr_right fun _ => forall₂_congr fun _ _ => not_congr eq_comm

variable {rev : UInt64}

@[simp] theorem conditionKey_urgentOf : conditionKey (urgentOf sha256 record rev ms al
    alert) = some (pairOf alert) := rfl

/-- A desired condition is that of one of the alerts. -/
theorem Takes.of_alert (h : Takes sha256 record rev ms al de)
    (hc : condition ∈ de.map Prod.snd) : ∃ alert ∈ al,
      condition = urgentOf sha256 record rev ms al alert := by
  obtain ⟨x, hi, rfl⟩ := mem_map.mp hc
  obtain ⟨alert, ha, -, heq⟩ := h.each x hi
  exact ⟨alert, ha, heq⟩

theorem Takes.exists_key (h : Takes sha256 record rev ms al de)
    {x : (String × String) × AttentionCondition} (hi : x ∈ de) : conditionKey x.2 = some x.1 := by
  obtain ⟨alert, -, hp, hc⟩ := h.each x hi
  rw [hc, conditionKey_urgentOf, hp]

/-- The condition of a pair that is there keeps its identity and its time. -/
theorem urgentOf_of_mem (hdistinct : Distinct record.conditions)
    (hc : condition ∈ record.conditions) (hk : conditionKey condition = some (pairOf alert)) :
    let next := urgentOf sha256 record rev ms al alert
    next.operationId = condition.operationId ∧ next.createdAtMs = condition.createdAtMs := by
  have hi : record.conditions.find? (fun x => conditionKey x == some (pairOf alert)) =
      some condition := by
    cases hf : record.conditions.find? fun x =>
        conditionKey x == some (pairOf alert) with
    | none =>
      have := List.find?_eq_none.mp hf condition hc
      simp [hk] at this
    | some x =>
      have ho := List.find?_some hf
      rw [hdistinct.eq_of_key (mem_of_find?_eq_some hf) hc ((eq_of_beq ho).trans hk.symm)]
  simp [urgentOf, conditionOf, hi]

/-- The condition of a pair that is not there gets the identity of the revision. -/
theorem urgentOf_of_new (h : ∀ x ∈ record.conditions, conditionKey x ≠ some (pairOf alert)) :
    (urgentOf sha256 record rev ms al alert).operationId =
      conditionId sha256 (conditionBytes record.operatorUid rev (pairOf alert)) := by
  have hf : record.conditions.find? (fun x => conditionKey x == some (pairOf alert)) =
      none := by
    refine List.find?_eq_none.mpr fun x ho => ?_
    simpa using h x ho
  simp [urgentOf, conditionOf, hf]

theorem mem_upserts {c : ProjectionChange} : c ∈ upserts de con ↔
    ∃ condition ∈ de.map Prod.snd, condition ∉ con ∧ .upsert condition = c := by
  simp [upserts, and_assoc]

section

variable (hdi : Distinct record.conditions) (htakes : Takes sha256 record rev ms al de)
include hdi htakes

/-- A desired condition that the record has under its pair is that one under another urgency;
any other has the identity of the revision. -/
theorem desired_operation (hc : condition ∈ de.map Prod.snd) :
    (∃ old ∈ record.conditions, conditionKey old = conditionKey condition ∧
      condition.operationId = old.operationId ∧ condition.createdAtMs = old.createdAtMs) ∨
    (∀ old ∈ record.conditions, conditionKey old ≠ conditionKey condition) ∧
      ∃ alert ∈ al, condition.operationId =
        conditionId sha256 (conditionBytes record.operatorUid rev (pairOf alert)) := by
  obtain ⟨alert, ha, rfl⟩ := htakes.of_alert hc
  by_cases h : ∃ old ∈ record.conditions, conditionKey old = some (pairOf alert)
  · obtain ⟨old, hold, hk⟩ := h
    exact .inl ⟨old, hold, hk, urgentOf_of_mem hdi hold hk⟩
  · have hn : ∀ old ∈ record.conditions, conditionKey old ≠ some (pairOf alert) :=
      fun old hold hk => h ⟨old, hold, hk⟩
    exact .inr ⟨hn, alert, ha, urgentOf_of_new hn⟩

/-- With nothing to clear or to open, the record has what is desired. -/
theorem same_of_none (hg : gone de record.conditions = [])
    (hu : upserts de record.conditions = []) :
    ∀ condition, condition ∈ record.conditions ↔ condition ∈ de.map Prod.snd := by
  have hb : ∀ condition ∈ de.map Prod.snd, condition ∈ record.conditions := by
    intro condition hc
    by_contra hn
    have := mem_upserts.mpr ⟨condition, hc, hn, rfl⟩
    simp [hu] at this
  refine fun condition => ⟨fun hc => ?_, hb condition⟩
  by_contra hn
  have hm : condition ∈ gone de record.conditions := by
    refine mem_gone.mpr ⟨hc, fun x hi hk => hn ?_⟩
    have him : x.2 ∈ de.map Prod.snd := mem_map_of_mem hi
    have hs := hdi.eq_of_key hc (hb _ him) (hk.trans (htakes.exists_key hi).symm)
    rwa [hs]
  simp [hg] at hm

end

/-- An identity of a later revision is not one of an earlier one. -/
theorem operation_ne_of_revision {old : AttentionCondition}
    (hfree : Set.InjOn (conditionId sha256) contents)
    (hold : Owned sha256 contents record.operatorUid record.revision old)
    (hafter : rev.toNat = record.revision.toNat + 1)
    (hformed : conditionBytes record.operatorUid rev pair ∈ contents) :
    old.operationId ≠ conditionId sha256 (conditionBytes record.operatorUid rev pair) := by
  obtain ⟨si, hs, x, hc, hop⟩ := hold.operation
  intro heq
  have hb := hfree hc hformed (hop.symm.trans heq)
  have hl := UInt64.le_iff_toNat_le.mp hs
  rw [conditionBytes_revision hb] at hl
  omega

section

variable (hre : Recorded sha256 contents record log) (hdistinct : Distinct record.conditions)
  (htakes : Takes sha256 record rev ms al de) (haf : rev.toNat = record.revision.toNat + 1)
  (hfo : ∀ alert ∈ al, conditionBytes record.operatorUid rev (pairOf alert) ∈ contents)
include hre hdistinct htakes haf hfo

/-- The desired conditions are the operator's. -/
theorem desired_owned (ho : condition ∈ de.map Prod.snd) :
    Owned sha256 contents record.operatorUid rev condition := by
  have hl : record.revision ≤ rev := UInt64.le_iff_toNat_le.mpr (by omega)
  have hs : condition.subject = .supply (toString record.operatorUid) ∧
      condition.reason.fields.1 = "endorsement_withdrawn" := by
    obtain ⟨alert, -, rfl⟩ := htakes.of_alert ho
    exact ⟨rfl, rfl⟩
  refine ⟨hs.1, hs.2, ?_⟩
  rcases desired_operation hdistinct htakes ho with
    ⟨old, hold, -, hi, -⟩ | ⟨-, alert, ha, hi⟩
  · obtain ⟨si, hsi, pair, hc, hop⟩ := (hre.current old hold).operation
    exact ⟨si, UInt64.le_trans hsi hl, pair, hc, hi.trans hop⟩
  · exact ⟨rev, UInt64.le_refl _, _, hfo alert ha, hi⟩

/-- After the changes exactly the desired conditions are open. -/
theorem opened_next (he : ((de.map Prod.snd).map (·.operationId)).Nodup) :
    condition ∈ openAfter (log.map Prod.snd ++ ((gone de record.conditions).map .clear ++
        upserts de record.conditions)) ↔ condition ∈ de.map Prod.snd := by
  have hw : ∀ ot ∈ de.map Prod.snd, Owned sha256 contents record.operatorUid rev ot := fun ot ho =>
    desired_owned hre hdistinct htakes haf hfo ho
  have hj : ∀ l ∈ de.map Prod.snd, ∀ r ∈ de.map Prod.snd,
      l.name = r.name → l = r := fun l hl r hr hn =>
    inj_on_of_nodup_map he hl hr (((hw l hl).name_eq (hw r hr)).mp hn)
  have ha : (((de.map Prod.snd).filter (!record.conditions.contains ·)).map
      AttentionCondition.name).Nodup := by
    refine List.Nodup.map_on (fun l hl r hr => ?_) ?_
    · exact hj l (mem_filter.mp hl).1 r (mem_filter.mp hr).1
    · exact (List.Nodup.of_map _ he).filter _
  rw [openAfter_append, foldl_append, upserts, mem_foldl_upsert ha, mem_foldl_clear, hre.opened]
  simp only [mem_filter, Bool.not_eq_true', contains_eq_mem, decide_eq_false_iff_not]
  constructor
  · rintro (⟨hd, -⟩ | ⟨⟨hc, hg⟩, hnn⟩)
    · exact hd
    · -- a condition that stays has its pair among the desired ones
      have hk : ∃ x ∈ de, conditionKey condition = some x.1 := by
        by_contra hno
        refine hg condition (mem_gone.mpr ⟨hc, fun x hi hk => ?_⟩) rfl
        exact hno ⟨x, hi, hk⟩
      obtain ⟨x, hi, hk⟩ := hk
      have hm : x.2 ∈ de.map Prod.snd := mem_map_of_mem hi
      have hs : conditionKey condition = conditionKey x.2 :=
        hk.trans (htakes.exists_key hi).symm
      by_cases ht : x.2 ∈ record.conditions
      · rwa [hdistinct.eq_of_key hc ht hs]
      · refine absurd ?_ (hnn x.2 ⟨hm, ht⟩)
        rw [(hre.current _ hc).name_eq (hw _ hm)]
        rcases desired_operation hdistinct htakes hm with ⟨old, hold, hok, hid, -⟩ | ⟨hnew, -⟩
        · rw [hid, hdistinct.eq_of_key hold hc (hok.trans hs.symm)]
        · exact absurd hs (hnew condition hc)
  · intro hd
    by_cases ht : condition ∈ record.conditions
    · refine .inr ⟨⟨ht, fun ot ho hn => ?_⟩, fun ot ho hn => ?_⟩
      · obtain ⟨hom, hu⟩ := mem_gone.mp ho
        have hid := ((hre.current _ ht).name_eq (hre.current _ hom)).mp hn
        obtain rfl := hdistinct.eq_of_operation ht hom hid
        obtain ⟨x, hi, rfl⟩ := mem_map.mp hd
        exact hu x hi (htakes.exists_key hi)
      · obtain rfl := hj condition hd ot ho.1 hn
        exact ho.2 ht
    · exact .inl ⟨hd, ht⟩

omit hre hdistinct htakes haf hfo in
/-- Of the changes only those of what is gone clear anything. -/
theorem countP_changes (oi : String) : ((gone de record.conditions).map clear ++
      upserts de record.conditions).countP (clearsOperation oi) =
      (gone de record.conditions).countP (·.operationId == oi) := by
  have hn : (upserts de record.conditions).countP (clearsOperation oi) = 0 := by
    refine countP_eq_zero.mpr fun c hc => ?_
    obtain ⟨condition, -, -, rfl⟩ := mem_upserts.mp hc
    simp [clearsOperation]
  rw [countP_append, hn, countP_map]
  rfl

omit hre htakes haf hfo in
variable (de) in
/-- What is gone has different identities. -/
theorem countP_gone_le (oi : String) :
    (gone de record.conditions).countP (·.operationId == oi) ≤ 1 := by
  have hs : ((gone de record.conditions).map (·.operationId)).Nodup :=
    hdistinct.operations.sublist (filter_sublist.map _)
  have hc := nodup_iff_count_le_one.mp hs oi
  rwa [List.count, countP_map] at hc

omit htakes haf hfo in
variable (de) in
/-- Nothing is cleared twice. -/
theorem once_next (oi : String) : (log.map Prod.snd ++ ((gone de record.conditions).map clear ++
      upserts de record.conditions)).countP (clearsOperation oi) ≤ 1 := by
  rw [countP_append, countP_changes]
  have hg := countP_gone_le de hdistinct oi
  by_cases hz : (gone de record.conditions).countP (·.operationId == oi) = 0
  · rw [hz]
    exact hre.once oi
  · obtain ⟨condition, hc, hi⟩ := countP_pos_iff.mp (Nat.pos_of_ne_zero hz)
    have hk := hre.kept condition (mem_gone.mp hc).1
    rw [eq_of_beq hi] at hk
    omega

/-- What is desired was not cleared. -/
theorem kept_next (hfree : Set.InjOn (conditionId sha256) contents)
    (hco : condition ∈ de.map Prod.snd) :
    (log.map Prod.snd ++ ((gone de record.conditions).map clear ++
      upserts de record.conditions)).countP (clearsOperation condition.operationId) = 0 := by
  rw [countP_append, countP_changes]
  rcases desired_operation hdistinct htakes hco with
    ⟨old, hold, he, hd, -⟩ | ⟨-, alert, ha, hd⟩
  · have hk := hre.kept old hold
    have hg : (gone de record.conditions).countP (·.operationId == old.operationId) = 0 := by
      refine countP_eq_zero.mpr fun ot ho hs => ?_
      obtain ⟨hm, hu⟩ := mem_gone.mp ho
      obtain rfl := hdistinct.eq_of_operation hm hold (eq_of_beq hs)
      obtain ⟨x, hi, rfl⟩ := mem_map.mp hco
      exact hu x hi (he.trans (htakes.exists_key hi))
    rw [hd, hk, hg]
  · have hn : ∀ old, Owned sha256 contents record.operatorUid record.revision old →
        old.operationId ≠ condition.operationId := fun old hold =>
      hd ▸ operation_ne_of_revision hfree hold haf (hfo alert ha)
    rw [Nat.add_eq_zero_iff]
    constructor
    · refine countP_eq_zero.mpr fun c hh hc => ?_
      cases c with
      | clear old =>
        exact hn old (hre.owned _ hh old (by simp [conditionsOf])) (eq_of_beq hc)
      | upsert _ => simp [clearsOperation] at hc
      | clearSubject _ => simp [clearsOperation] at hc
    · refine countP_eq_zero.mpr fun old hold hs => ?_
      exact hn old (hre.current old (mem_gone.mp hold).1) (eq_of_beq hs)

end

end

/-! ### The next record -/

/-- The pending changes of a record under their names. -/
def Record.named (record : Record) : List Named :=
  numbered (changeName record.operatorUid record.revision) record.pending

/-- What the latest alerts ask for is open, each pair once and as urgent as its alerts. -/
structure Shows (alerts : List WithdrawalAlert) (conditions : List AttentionCondition) : Prop where
  distinct : (conditions.map conditionKey).Nodup
  pairs : ∀ pair, (∃ condition ∈ conditions, conditionKey condition = some pair) ↔
    ∃ alert ∈ alerts, pairOf alert = pair
  urgency : ∀ condition ∈ conditions, ∀ details, condition.reason = .endorsementWithdrawn details →
    (details.urgency = .reliedOn ↔ ∃ alert ∈ alerts,
      pairOf alert = (details.packageDigest, details.withdrawalDigest) ∧ alert.urgency = .reliedOn)

/-- A pair that stays has its condition still, one that goes is cleared, and one that comes
has an identity that was never told of. -/
structure Continues (before after : List AttentionCondition) (earlier later : List Named) :
    Prop where
  stays : ∀ old ∈ before, ∀ new ∈ after, conditionKey new = conditionKey old →
    new.operationId = old.operationId ∧ new.createdAtMs = old.createdAtMs
  goes : ∀ old ∈ before, (∀ new ∈ after, conditionKey new ≠ conditionKey old) →
    (later.map Prod.snd).countP (clearsOperation old.operationId) = 1
  comes : ∀ new ∈ after, (∀ old ∈ before, conditionKey old ≠ conditionKey new) →
    ∀ change ∈ earlier.map Prod.snd, ∀ condition ∈ conditionsOf change,
      condition.operationId ≠ new.operationId

section

variable {sha256 : Sha256} {contents : Set Bytes} {record next : Record} {log : List Named}
  {des : Desired} {ale : List WithdrawalAlert} {revision nowMs : UInt64}
  {conditions : List AttentionCondition}

theorem urgencyOf_eq {pair : String × String} : urgencyOf ale pair = .reliedOn ↔
    ∃ alert ∈ ale, pairOf alert = pair ∧ alert.urgency = .reliedOn := by
  unfold urgencyOf
  split
  · next h => exact ⟨fun _ => h, fun _ => rfl⟩
  · next h => exact ⟨fun heq => by simp at heq, fun hex => absurd hex h⟩

/-- Conditions that are the desired ones show the alerts. -/
theorem Takes.shows (h : Takes sha256 record revision nowMs ale des)
    (hs : ∀ condition, condition ∈ conditions ↔ condition ∈ des.map Prod.snd)
    (hdistinct : (conditions.map conditionKey).Nodup) : Shows ale conditions := by
  refine ⟨hdistinct, fun pair => ⟨?_, ?_⟩, fun condition hc d hd => ?_⟩
  · rintro ⟨condition, hc, hk⟩
    obtain ⟨alert, ha, rfl⟩ := h.of_alert ((hs condition).mp hc)
    exact ⟨alert, ha, Option.some.inj hk⟩
  · rintro ⟨alert, ha, rfl⟩
    obtain ⟨x, hi, hp⟩ := mem_map.mp (h.all alert ha)
    exact ⟨x.2, (hs _).mpr (mem_map_of_mem hi), hp ▸ h.exists_key hi⟩
  · obtain ⟨alert, -, rfl⟩ := h.of_alert ((hs condition).mp hc)
    obtain rfl := AttentionReason.endorsementWithdrawn.inj hd
    exact urgencyOf_eq

variable (hrecorded : Recorded sha256 contents record log) (hdistinct : Distinct record.conditions)
  (htakes : Takes sha256 record revision nowMs ale des)
  (hafter : revision.toNat = record.revision.toNat + 1) (hformed : ∀ alert ∈ ale,
    conditionBytes record.operatorUid revision (pairOf alert) ∈ contents)
  (hfree : Set.InjOn (conditionId sha256) contents)
include hrecorded hdistinct htakes hafter hformed hfree

/-- The record that an observation saves, with its changes at the end of the log. -/
theorem Recorded.advance (hx : Distinct next.conditions)
    (hu : next.operatorUid = record.operatorUid) (hr : next.revision = revision)
    (hc : next.conditions = des.map Prod.snd)
    (hp : next.pending = (gone des record.conditions).map .clear ++
      upserts des record.conditions) : Recorded sha256 contents next (log ++ next.named) := by
  have hl : record.revision ≤ revision := UInt64.le_iff_toNat_le.mpr (by omega)
  have hch : (log ++ next.named).map Prod.snd = log.map Prod.snd ++
      ((gone des record.conditions).map .clear ++ upserts des record.conditions) := by
    rw [map_append, named, numbered_changes, hp]
  have ho : ∀ condition ∈ des.map Prod.snd,
      Owned sha256 contents record.operatorUid revision condition := fun condition hco =>
    desired_owned hrecorded hdistinct htakes hafter hformed hco
  refine ⟨fun condition => ?_, ?_, ?_, ?_, ?_, ?_, ?_⟩
  · rw [hch, hc]
    exact opened_next hrecorded hdistinct htakes hafter hformed (hc ▸ hx.operations)
  · rw [hr, hu]
    refine forall_mem_append.mpr ⟨fun x hi => ?_, fun x hi => ?_⟩
    · obtain ⟨si, hs, i, hn⟩ := hrecorded.names x hi
      exact ⟨si, UInt64.le_trans hs hl, i, hn⟩
    · obtain ⟨-, i, hn⟩ := mem_numbered hi
      rw [hr, hu] at hn
      exact ⟨revision, UInt64.le_refl _, i, hn⟩
  · rw [map_append]
    refine nodup_append.mpr ⟨hrecorded.nodup,
      numbered_nodup fun _ _ hn => (changeName_inj.mp hn).2, ?_⟩
    intro nm hn ot ht heq
    obtain ⟨x, hi, rfl⟩ := mem_map.mp hn
    obtain ⟨n, hne, rfl⟩ := mem_map.mp ht
    obtain ⟨si, hs, i, hold⟩ := hrecorded.names x hi
    obtain ⟨-, p, he⟩ := mem_numbered hne
    rw [hold, he, hu] at heq
    have ha := (changeName_inj.mp heq).1
    rw [ha, hr] at hs
    have := UInt64.le_iff_toNat_le.mp hs
    omega
  · rw [hch, hr, hu]
    refine forall_mem_append.mpr ⟨fun c hh condition hco =>
      (hrecorded.owned c hh condition hco).mono hl, ?_⟩
    refine forall_mem_append.mpr ⟨fun c hh condition hco => ?_, fun c hh condition hco => ?_⟩
    · obtain ⟨old, hold, rfl⟩ := mem_map.mp hh
      obtain rfl := mem_singleton.mp hco
      exact (hrecorded.current _ (mem_gone.mp hold).1).mono hl
    · obtain ⟨new, he, -, rfl⟩ := mem_upserts.mp hh
      obtain rfl := mem_singleton.mp hco
      exact ho _ he
  · rw [hr, hu, hc]
    exact ho
  · intro oi
    rw [hch]
    exact once_next des hrecorded hdistinct oi
  · intro condition hco
    rw [hch]
    exact kept_next hrecorded hdistinct htakes hafter hformed hfree (hc ▸ hco)

/-- From the record's conditions to the desired ones. -/
theorem Recorded.continues {cs : List Named}
    (hh : cs.map Prod.snd = (gone des record.conditions).map .clear ++
      upserts des record.conditions) :
    Continues record.conditions (des.map Prod.snd) log (log ++ cs) := by
  refine ⟨fun old hold new he hk => ?_, fun old hold hn => ?_,
    fun new he hn c hc condition hco => ?_⟩
  · rcases desired_operation hdistinct htakes he with ⟨x, ho, hok, hs⟩ | ⟨hf, -⟩
    · rwa [hdistinct.eq_of_key ho hold (hok.trans hk)] at hs
    · exact absurd hk.symm (hf old hold)
  · have hg : old ∈ gone des record.conditions := by
      refine mem_gone.mpr ⟨hold, fun it hi hk => ?_⟩
      exact hn it.2 (mem_map_of_mem hi) ((htakes.exists_key hi).trans hk.symm)
    have hl := once_next des hrecorded hdistinct old.operationId
    have hp : 0 < (gone des record.conditions).countP (·.operationId == old.operationId) :=
      countP_pos_iff.mpr ⟨old, hg, beq_self_eq_true _⟩
    rw [map_append, hh]
    rw [countP_append, countP_changes] at hl ⊢
    omega
  · rcases desired_operation hdistinct htakes he with
      ⟨x, ho, hok, -⟩ | ⟨-, alert, ha, hd⟩
    · exact absurd hok (hn x ho)
    · rw [hd]
      exact operation_ne_of_revision hfree (hrecorded.owned c hc condition hco)
        hafter (hformed alert ha)

end

/-! ### Calls -/

/-- The revision of the record there is. -/
def Store.revision (s : Store) : UInt64 := (s.file.map (·.revision)).getD 0

/-- The conditions of the record there is. -/
def Store.conditions (s : Store) : List AttentionCondition := (s.file.map (·.conditions)).getD []

/-- The outbox was told of exactly the conditions that the record has. -/
def Agrees (s : Store) : Prop :=
  ∃ log, s.outbox.Logs log ∧
    ∀ condition, condition ∈ openAfter (log.map Prod.snd) ↔ condition ∈ s.conditions

section

variable (format : Format) (contents : Set Bytes) (operatorUid : UInt32)

/-- The record of the store, and the log that has all it has pending: the outbox has the log
up to some of the pending changes. -/
structure Loaded (s : Store) (record : Record) (log : List Named) : Prop where
  file : s.file.getD (.default operatorUid) = record
  valid : s.file ≠ none → (episodes format).Fits record
  uid : record.operatorUid = operatorUid
  recorded : Recorded format.sha256 contents record log
  told : ∃ done part, log = done ++ record.named ∧ part <+: record.named ∧
    s.outbox.Logs (done ++ part)

/-- The store has a record that says what the outbox holds. -/
def Sound (s : Store) : Prop := ∃ record log, Loaded format contents operatorUid s record log

variable {format contents operatorUid} {s : Store} {record : Record} {log : List Named}

theorem sound_empty : Sound format contents operatorUid ⟨none, .empty⟩ :=
  ⟨.default operatorUid, [], rfl, fun h => absurd rfl h, rfl, recorded_default operatorUid, [], [],
    rfl, nil_prefix, logs_empty⟩

theorem Loaded.revision (h : Loaded format contents operatorUid s record log) :
    s.revision = record.revision := by
  rw [← h.file, Store.revision]
  cases s.file <;> rfl

theorem Loaded.conditions (h : Loaded format contents operatorUid s record log) :
    s.conditions = record.conditions := by
  rw [← h.file, Store.conditions]
  cases s.file <;> rfl

theorem readFile_ok {f : Option Record} (h : readFile format s = .ok f) : f = s.file := by
  unfold readFile at h
  split at h
  · next hn => exact (ok.inj h).symm.trans hn.symm
  · next held hs =>
    split at h
    · exact (ok.inj h).symm.trans hs.symm
    · simp at h

/-- What is loaded is the record of the store, and valid. -/
theorem load_reads (h : Sound format contents operatorUid s) :
    Reads (load format operatorUid) s fun record =>
      record.validate = .ok () ∧ ∃ log, Loaded format contents operatorUid s record log := by
  obtain ⟨record, log, hl⟩ := h
  refine wp_bind (wp_query (fun f hf => ?_) (fun _ _ => rfl) rfl rfl)
  obtain rfl := readFile_ok hf
  refine wp_bind (wp_ofExcept (fun _ hv => ?_) fun _ _ => rfl)
  refine wp_bind (wp_ofExcept (fun _ _ => wp_pure.mpr ⟨rfl, hv, log, ?_⟩) fun _ _ => rfl)
  rw [hl.file]
  exact hl

theorem Loaded.sound (h : Loaded format contents operatorUid s record log) :
    Sound format contents operatorUid s := ⟨record, log, h⟩

/-- A saved record that says the same of a log that the outbox has. -/
theorem Loaded.of_save (hu : record.operatorUid = operatorUid) (hf : (episodes format).Fits record)
    {d : List Named} (hrecorded : Recorded format.sha256 contents record (d ++ record.named))
    (hl : s.outbox.Logs d) :
    Loaded format contents operatorUid { s with file := some record } record (d ++ record.named) :=
  ⟨rfl, fun _ => hf, hu, hrecorded, d, [], rfl, nil_prefix,
    by rwa [append_nil]⟩

/-- With nothing pending the outbox has the log. -/
theorem Loaded.logs (h : Loaded format contents operatorUid s record log)
    (he : record.pending = []) : s.outbox.Logs log := by
  obtain ⟨d, p, rfl, hp, hl⟩ := h.told
  have hn : record.named = [] := by simp [named, numbered, he]
  rw [hn] at hp ⊢
  rwa [prefix_nil.mp hp] at hl

/-- A flush tells the outbox what is pending and changes nothing else. -/
theorem wp_flush {po : Post Store BrokerError Record}
    (h : Loaded format contents operatorUid s record log)
    (hv : ∀ s', Loaded format contents operatorUid s' { record with pending := [] } log →
      po.value { record with pending := [] } s')
    (hr : ∀ e s', Sound format contents operatorUid s' → po.error e s')
    (hc : ∀ s', Sound format contents operatorUid s' → po.crashed s') :
    Wp (flush format record) po s := by
  have hl := h
  obtain ⟨d, p, rfl, hp, ho⟩ := h.told
  have ht : ∀ l p, p <+: record.named → l.Logs (d ++ p) →
      Loaded format contents operatorUid { s with outbox := l } record
        (d ++ record.named) := fun l p hp hafter =>
    ⟨h.file, h.valid, h.uid, h.recorded, d, p, rfl, hp, hafter⟩
  have hs : ∀ l, l.Logs (d ++ record.named) →
      (episodes format).Fits { record with pending := [] } → Loaded format contents operatorUid
        { s with outbox := l, file := some { record with pending := [] } }
        { record with pending := [] } (d ++ record.named) := fun l hafter hf =>
    ⟨rfl, fun _ => hf, h.uid, h.recorded.congr rfl rfl rfl, d ++ record.named, [],
      by simp [named, numbered], nil_prefix, by rwa [append_nil]⟩
  refine Episodes.wp_flush hp h.recorded.nodup ho (fun hn => ?_)
    (fun l hafter hf => hv _ (hs l hafter hf))
    (fun _ l p hp hafter => hr _ _ (ht l p hp hafter).sound)
    (fun _ l hafter hf => hr _ _ (hs l hafter hf).sound)
    fun l p hp hafter => hc _ (ht l p hp hafter).sound
  have he : record.pending = [] := hn
  have ha : ({ record with pending := [] } : Record) = record := by rw [← he]
  have hk := hv s
  rw [ha] at hk
  exact hk hl

/-- What an observation that succeeded leaves. -/
structure Observed (alerts : List WithdrawalAlert) (s s' : Store) : Prop where
  agrees : Agrees s'
  shows : Shows alerts s'.conditions
  continues : ∃ earlier later, s.outbox.Logs earlier ∧ s'.outbox.Logs later ∧
    Continues s.conditions s'.conditions earlier later

theorem Continues.of_same {pre l x : List AttentionCondition} {e t la : List Named}
    (h : Continues pre l t la) (hs : ∀ condition, condition ∈ x ↔ condition ∈ l)
    (hu : e ⊆ t) : Continues pre x e la where
  stays := fun old hold new he => h.stays old hold new ((hs new).mp he)
  goes := fun old hold hn => h.goes old hold fun new he => hn new ((hs new).mpr he)
  comes := fun new he hn c hc =>
    h.comes new ((hs new).mp he) hn c (map_subset _ hu hc)

theorem Loaded.agrees (h : Loaded format contents operatorUid s record log)
    (hp : record.pending = []) : Agrees s :=
  ⟨log, h.logs hp, h.conditions ▸ h.recorded.opened⟩

theorem Loaded.earlier (h : Loaded format contents operatorUid s record log) :
    ∃ e, s.outbox.Logs e ∧ e ⊆ log := by
  obtain ⟨d, p, rfl, hp, hl⟩ := h.told
  exact ⟨_, hl, append_subset.mpr ⟨subset_append_left _ _,
    subset_append_of_subset_right _ hp.subset⟩⟩

variable {alerts : List WithdrawalAlert}

/-- A record whose changes were all told turns into one of the alerts, and what it is
interrupted at stays sound. -/
theorem wp_project {nowMs : UInt64} {ch : Bool} {held c : Record} {e : List Named} {st : Store}
    (h : Loaded format contents operatorUid s held log) (hpe : held.pending = [])
    (hcur : c.operatorUid = operatorUid ∧ c.revision = held.revision ∧
      c.conditions = held.conditions ∧ c.pending = []) (hdistinct : Distinct c.conditions)
    (hst : st.conditions = c.conditions) (he : st.outbox.Logs e) (hb : e ⊆ log)
    (hfree : Set.InjOn (conditionId format.sha256) contents) (hformed : ∀ alert ∈ alerts,
      conditionBytes c.operatorUid (c.revision + 1) (pairOf alert) ∈ contents) :
    Wp (project format alerts nowMs ch c)
      ⟨fun _ s' => Sound format contents operatorUid s' ∧ Observed alerts st s',
        fun _ s' => Sound format contents operatorUid s',
        fun s' => Sound format contents operatorUid s'⟩ s := by
  obtain ⟨hu, hv, hco, hno⟩ := hcur
  have hrecorded : Recorded format.sha256 contents c log :=
    h.recorded.congr (hu.trans h.uid.symm) hv hco
  have hlo := h.logs hpe
  refine wp_bind (wp_ofExcept (fun _ hr => ?_) fun _ _ => h.sound)
  refine wp_bind (wp_ofExcept (fun desired hd => ?_) fun _ _ => h.sound)
  refine wp_bind (wp_ofExcept (fun cl hcl => ?_) fun _ _ => h.sound)
  obtain rfl := clears_ok hcl
  have htakes := desired_takes hd
  have hafter : (c.revision + 1).toNat = c.revision.toNat + 1 := by
    have hlt := of_decide_eq_true (require_ok.mp hr)
    rw [UInt64.toNat_add, UInt64.toNat_one]
    exact Nat.mod_eq_of_lt hlt
  have hc : ∀ cs : List Named, cs.map Prod.snd =
      (gone desired c.conditions).map .clear ++ upserts desired c.conditions →
      Continues c.conditions (desired.map Prod.snd) log (log ++ cs) := fun _ hh =>
    hrecorded.continues hdistinct htakes hafter hformed hfree hh
  rw [hno]
  dsimp only
  rw [nil_append]
  by_cases hn : gone desired c.conditions = [] ∧ upserts desired c.conditions = []
  · -- the conditions are those of the alerts already
    rw [if_pos (by simp [hn.1, hn.2])]
    have hm := same_of_none hdistinct htakes hn.1 hn.2
    have ho : ∀ s' r', Loaded format contents operatorUid s' r' log →
        r'.pending = [] → r'.conditions = c.conditions →
        Observed alerts st s' := by
      intro s' r' hl hem hk
      refine ⟨hl.agrees hem, ?_, e, log, he, hl.logs hem, ?_⟩
      · rw [hl.conditions, hk]
        exact htakes.shows hm hdistinct.keys
      · rw [hl.conditions, hk, hst]
        have ht := hc [] (by simp [hn.1, hn.2])
        rw [append_nil] at ht
        exact ht.of_same hm hb
    have ha : (episodes format).Fits c → Loaded format contents operatorUid
        { s with file := some c } c log := fun hf =>
      ⟨rfl, fun _ => hf, hu, hrecorded, log, [], by simp [named, numbered, hno],
        nil_prefix, by rwa [append_nil]⟩
    split
    · refine Episodes.wp_save (fun hf => ?_) (fun _ => h.sound) (fun _ hf => (ha hf).sound) h.sound
      exact ⟨(ha hf).sound, ho _ _ (ha hf) hno rfl⟩
    · exact wp_pure.mpr ⟨h.sound, ho _ _ h hpe hco.symm⟩
  · rw [if_neg (by simpa using hn)]
    -- the record that is saved, with its changes
    generalize hne : ({ c with
      pending := (gone desired c.conditions).map clear ++ upserts desired c.conditions
      revision := c.revision + 1, conditions := desired.map Prod.snd } : Record) = next
    have hp : next.operatorUid = c.operatorUid ∧ next.revision = c.revision + 1 ∧
        next.conditions = desired.map Prod.snd ∧ next.pending =
          (gone desired c.conditions).map .clear ++ upserts desired c.conditions := by
      rw [← hne]
      exact ⟨rfl, rfl, rfl, rfl⟩
    have ha : (episodes format).Fits next → Loaded format contents operatorUid
        { s with file := some next } next (log ++ next.named) := fun hf =>
      .of_save (hp.1.trans hu) hf (hrecorded.advance hdistinct htakes hafter hformed
        hfree (validate_ok hf.1).1 hp.1 hp.2.1 hp.2.2.1 hp.2.2.2) hlo
    refine wp_bind (Episodes.wp_save (fun hf => ?_) (fun _ => h.sound)
      (fun _ hf => (ha hf).sound) h.sound)
    refine wp_bind (wp_flush (ha hf) (fun s' hl => wp_pure.mpr ?_)
      (fun _ _ hs => hs) fun _ hs => hs)
    refine ⟨hl.sound, hl.agrees rfl, ?_, e, _, he, hl.logs rfl, ?_⟩
    · rw [hl.conditions]
      have hke := (validate_ok hf.1).1.keys
      rw [hp.2.2.1] at hke
      dsimp only
      rw [hp.2.2.1]
      exact htakes.shows (fun _ => Iff.rfl) hke
    · rw [hl.conditions, hst]
      dsimp only
      rw [hp.2.2.1]
      refine (hc next.named ?_).of_same (fun _ => Iff.rfl) hb
      rw [named, numbered_changes, hp.2.2.2]

/-- An observation keeps the store sound, and where it succeeds the conditions are those of
the alerts. -/
theorem wp_observe_call {nowMs : UInt64} {llp : Bool} {rs : Finset String}
    (h : Sound format contents operatorUid s)
    (hfree : Set.InjOn (conditionId format.sha256) contents) (hformed : ∀ alert ∈ alerts,
      conditionBytes operatorUid (s.revision + 1) (pairOf alert) ∈ contents) :
    Wp (observe format operatorUid alerts nowMs llp rs)
      ⟨fun _ s' => Sound format contents operatorUid s' ∧ Observed alerts s s',
        fun _ s' => Sound format contents operatorUid s',
        fun s' => Sound format contents operatorUid s'⟩ s := by
  refine wp_bind (wp_ofExcept (fun _ _ => ?_) fun _ _ => h)
  refine Reads.wp_bind (load_reads h) (fun record hr => ?_) (fun _ => h) h
  obtain ⟨hv, log, hl⟩ := hr
  obtain ⟨e, he, hu⟩ := hl.earlier
  rw [hl.revision, ← hl.uid] at hformed
  refine wp_bind (wp_flush hl (fun f hf => ?_) (fun _ _ hs => hs) fun _ hs => hs)
  exact wp_project hf rfl ⟨hl.uid, rfl, rfl, rfl⟩ (validate_ok hv).1
    hl.conditions he hu hfree hformed

/-- A replay keeps the store sound, and where it succeeds the outbox knows the conditions. -/
theorem wp_replay (h : Sound format contents operatorUid s) : Wp (replay format operatorUid)
      ⟨fun _ s' => Sound format contents operatorUid s' ∧ Agrees s' ∧ s'.conditions = s.conditions,
        fun _ s' => Sound format contents operatorUid s',
        fun s' => Sound format contents operatorUid s'⟩ s := by
  obtain ⟨record, log, hl⟩ := h
  refine wp_bind (wp_query (fun fi hi => ?_) (fun _ _ => hl.sound) hl.sound hl.sound)
  obtain rfl := readFile_ok hi
  cases hi : s.file with
  | none =>
    have hd := hl.file
    rw [hi] at hd
    refine wp_pure.mpr ⟨hl.sound, hl.agrees ?_, rfl⟩
    rw [← hd]
    rfl
  | some held =>
    have hh := hl.file
    rw [hi] at hh
    obtain rfl : held = record := hh
    refine wp_bind (wp_ofExcept (fun _ _ => ?_) fun _ _ => hl.sound)
    refine wp_bind (wp_ofExcept (fun _ _ => ?_) fun _ _ => hl.sound)
    refine wp_bind (wp_flush hl (fun f hf => wp_pure.mpr ?_) (fun _ _ hs => hs) fun _ hs => hs)
    exact ⟨hf.sound, hf.agrees rfl, hf.conditions.trans hl.conditions.symm⟩

end

/-! ### Runs -/

/-- One call for the operator, with what befalls its operations. -/
inductive Event where
  | observe (alerts : List WithdrawalAlert) (nowMs : UInt64) (localLayerPresent : Bool)
      (retainedSessions : Finset String) (faults : List Fault)
  | replay (faults : List Fault)

section

variable (format : Format) (contents : Set Bytes) (operatorUid : UInt32)

/-- The store that a call leaves, and whether it succeeded. -/
def Event.result (s : Store) : Event → Ending BrokerError Unit × List Fault × Store
  | .observe alerts nowMs localLayerPresent retainedSessions faults =>
    WithdrawalAttention.observe format operatorUid alerts nowMs localLayerPresent retainedSessions
      faults s
  | .replay faults => WithdrawalAttention.replay format operatorUid faults s

def step (s : Store) (event : Event) : Store := (event.result format operatorUid s).2.2

/-- The names of the conditions that a call may open are among some bytes. -/
def Formed (s : Store) : Event → Prop
  | .observe alerts _ _ _ _ => ∀ alert ∈ alerts,
    conditionBytes operatorUid (s.revision + 1) (pairOf alert) ∈ contents
  | .replay _ => True

/-- What a call leaves where it succeeds. -/
def Follows (s : Store) (event : Event) : Prop :=
  (event.result format operatorUid s).1 = .value () →
    match event with
    | .observe alerts _ _ _ _ => Observed alerts s (step format operatorUid s event)
    | .replay _ => Agrees (step format operatorUid s event) ∧
      (step format operatorUid s event).conditions = s.conditions

/-- The record there is can be loaded, and the outbox was told at most once that something
is over. -/
structure Kept (s : Store) : Prop where
  loads : ∀ record, s.file = some record → Returns (load format operatorUid) s record s
  once : ∃ log, s.outbox.Logs log ∧
    ∀ operationId, (log.map Prod.snd).countP (clearsOperation operationId) ≤ 1

variable {format contents operatorUid} {s : Store}

theorem Sound.kept (h : Sound format contents operatorUid s) : Kept format operatorUid s := by
  obtain ⟨record, log, hl⟩ := h
  constructor
  · intro held hh
    have hs := hl.file
    rw [hh] at hs
    obtain rfl : held = record := hs
    obtain ⟨hv, hi⟩ := hl.valid (by simp [hh])
    have hr : readFile format s = .ok (some held) := by
      rw [readFile, hh]
      exact if_pos hi
    refine returns_bind (returns_query _ _ hr) (returns_bind (returns_ofExcept hv _) ?_)
    refine returns_bind (returns_ofExcept (a := ()) ?_ _) (returns_pure _ _)
    simpa using hl.uid
  · obtain ⟨e, he, -⟩ := hl.earlier
    obtain ⟨d, p, rfl, hp, ho⟩ := hl.told
    refine ⟨_, ho, fun oi => le_trans ?_ (hl.recorded.once oi)⟩
    rw [map_append, map_append, countP_append, countP_append]
    exact Nat.add_le_add_left (hp.sublist.map _).countP_le _

/-- Each call keeps the store sound, and where it succeeds leaves what it should. -/
theorem Sound.step (h : Sound format contents operatorUid s)
    (hfree : Set.InjOn (conditionId format.sha256) contents) {e : Event}
    (hformed : Formed contents operatorUid s e) :
    Sound format contents operatorUid (step format operatorUid s e) ∧
      Follows format operatorUid s e := by
  cases e with
  | observe alerts nowMs llp rs fs =>
    have hc : Wp (observe format operatorUid alerts nowMs llp rs) _ s :=
      wp_observe_call h hfree hformed
    exact ⟨Wp.leaves (Q := Sound format contents operatorUid)
      (hc.mono (fun _ _ hs => hs.1) (fun _ _ hs => hs) fun _ hs => hs) fs,
      fun hv => (hc.value_of hv).2⟩
  | replay fs =>
    have hc := wp_replay h
    exact ⟨Wp.leaves (Q := Sound format contents operatorUid)
      (hc.mono (fun _ _ hs => hs.1) (fun _ _ hs => hs) fun _ hs => hs) fs,
      fun hv => (hc.value_of hv).2⟩

end

/-- A withdrawal that a member relied on. -/
def sampleAlert : WithdrawalAlert := ⟨"m", "e", "w", .reliedOn, ""⟩

def sampleFormat : Format := ⟨fun _ => Vector.replicate 32 0, fun _ => 0, fun _ => 0⟩

end Louiselm.Broker.WithdrawalAttention
