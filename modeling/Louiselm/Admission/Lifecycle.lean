import Louiselm.Admission.Atomicity
import Louiselm.Admission.Ceremony
import Louiselm.Base.JsonCompact
import Louiselm.Base.Runs

/-!
# The Generations in force

Every run of the Admission ceremony and of the Generation lifecycle (`skills-core/src/admission.rs`,
`admission/linked.rs`, `admission/transaction.rs`) on one store, each operation of which can stop
at any of its reads and writes and leave it for the next one to settle.
-/

namespace Louiselm.Admission
open Base Canonical List Option Except
open Endorsement (SshsigVerify)
open Base.Program

/-! ### Runs -/

/-- What a store is asked. Between the bytes that are read for the witness and the evidence that is
then confirmed of any bytes it may be asked other things. -/
inductive Call where
  | admission (policyDigest : Digest) (request : AdmissionRequest)
  | admitLinked (policyDigest : Digest) (request : AdmissionRequest) (operation : String)
  | publish (digest : Digest)
  | confirm (digest : Digest) (bytes : Bytes) (remote : Remote) (confirmedAtMs : UInt64)
  | activate (identity : RunningIdentity) (digest : Digest) (activatedAtMs : UInt64)
  | current
  | load (digest : Digest)

/-- A call, the order in which directories are then listed, and what befalls it. -/
structure Turn where
  call : Call
  listing : Listing
  faults : List Fault

section

variable (sha256 : Sha256) (fmt : JsonFormat) (sshsig : SshsigVerify)

/-- What a call leaves, however it ends. -/
def Store.turn (store : Store) (turn : Turn) : Store :=
  match turn.call with
  | .admission policyDigest request =>
    (admitRequest sha256 fmt sshsig turn.listing policyDigest request).leaves turn.faults store
  | .admitLinked policyDigest request operation =>
    (Admission.admitLinked sha256 fmt sshsig turn.listing policyDigest request operation).leaves
      turn.faults store
  | .publish digest => (publishBytes sha256 fmt sshsig digest).leaves turn.faults store
  | .confirm digest bytes remote confirmedAtMs =>
    (confirmBytes sha256 fmt sshsig digest bytes remote confirmedAtMs).leaves turn.faults store
  | .activate identity digest activatedAtMs =>
    (Admission.activate sha256 fmt sshsig turn.listing identity digest activatedAtMs).leaves
      turn.faults store
  | .current => (Admission.current sha256 fmt turn.listing).leaves turn.faults store
  | .load digest => (Admission.load sha256 fmt digest).leaves turn.faults store

/-- A call adds to what was put in force the Generation that it activates, which has been
witnessed, or nothing. -/
def Call.Extends (call : Call) (history after : List (GenerationRecord × UInt64)) : Prop :=
  after = history ∨ ∃ identity record activatedAtMs,
    call = .activate identity (record.digest sha256 fmt) activatedAtMs ∧
      record.witness.isSome ∧ after = history ++ [(record, activatedAtMs)]

variable (payloadOf : Digest → GenerationPayload)

/-- The payload of what is stored as a Generation is that Generation's. -/
def Bound (store : Store) : Prop :=
  ∀ digest record, loadRecord fmt store digest = .ok record → record.payload = payloadOf digest

/-- A payload names the Generation that was put in force last and has the next number. -/
def IsNext (payload : GenerationPayload) (history : List (GenerationRecord × UInt64)) : Prop :=
  let last := history.getLast?.map (·.1.payload)
  payload.sequence = (last.map (·.sequence + 1)).getD 1 ∧
    payload.predecessor = last.map fun earlier => (earlier.digest sha256 fmt).toString

/-- Generations each of which was the next one after those before it. -/
inductive Chained : List (GenerationRecord × UInt64) → Prop where
  | nil : Chained []
  | snoc {history : List (GenerationRecord × UInt64)} {entry : GenerationRecord × UInt64}
      (earlier : Chained history) (next : IsNext sha256 fmt entry.1.payload history)
      (rises : ∀ last ∈ history.getLast?,
        last.1.payload.sequence < entry.1.payload.sequence) : Chained (history ++ [entry])

/-- What is stored as a Generation is in force if it was put in force last, and otherwise it is too
late to be put in force or it is the next one. -/
structure Stored (history : List (GenerationRecord × UInt64)) (digest : Digest)
    (record : GenerationRecord) : Prop where
  payload : record.payload = payloadOf digest
  own : record.digest sha256 fmt = digest
  current : record.state = .current → history.getLast?.map (·.1.payload) = some record.payload
  place : (∃ last ∈ history.getLast?, record.payload.sequence ≤ last.1.payload.sequence) ∨
    IsNext sha256 fmt record.payload history

/-- What is stored of a Generation that was put in force: with its evidence, and in force or
superseded. -/
structure Kept (store : Store) (history : List (GenerationRecord × UInt64))
    (entry : GenerationRecord × UInt64) (record : GenerationRecord) : Prop where
  load : loadRecord fmt store (entry.1.digest sha256 fmt) = .ok record
  payload : record.payload = entry.1.payload
  witnessed : record.witness.isSome
  state : record.state = .current ∨ record.state = .superseded
  last : entry ∈ history.getLast? → record.state = .current

/-- The Generations that were put in force, oldest first, and when. All of them are kept, and the
lineage has the pin of each. -/
structure Governs (store : Store) (history : List (GenerationRecord × UInt64)) : Prop where
  settled : store.contents .journal = none
  stored : ∀ digest record, loadRecord fmt store digest = .ok record →
    Stored sha256 fmt payloadOf history digest record
  kept : ∀ entry ∈ history, ∃ record, Kept sha256 fmt store history entry record
  lineage : store.lineage = String.join (history.map fun entry => pinLine fmt entry.1 entry.2)
  chained : Chained sha256 fmt history

/-- Settled, or to be settled by undoing an activation that was interrupted. -/
def Settles (store : Store) (history : List (GenerationRecord × UInt64)) : Prop :=
  Governs sha256 fmt payloadOf store history ∨ ∃ before previous candidate writes,
    Interrupted fmt before previous candidate writes store ∧
      Governs sha256 fmt payloadOf before history

end

/-! ### Stores -/

section

variable {sha256 : Sha256} {fmt : JsonFormat} {g : Digest → GenerationPayload}
  {store after : Store} {es : List (GenerationRecord × UInt64)} {record r : GenerationRecord}
  {digest : Digest} {listing : Listing}

theorem loadRecord_congr (h : after.contents (.record digest) = store.contents (.record digest)) :
    loadRecord fmt after digest = loadRecord fmt store digest := by
  rw [loadRecord, loadRecord, h]

theorem loadRecord_putRecord : loadRecord fmt (store.putRecord sha256 fmt record) digest =
    if digest = record.digest sha256 fmt then .ok record else loadRecord fmt store digest := by
  split
  · next h =>
    subst h
    simp [loadRecord, Store.putRecord, fmt.fromSlice_toVec (by decide) record]
  · next h => exact loadRecord_congr (by simp [Store.putRecord, h])

theorem Stored.congr (h : Stored sha256 fmt g es digest r) (hp : record.payload = r.payload)
    (hc : record.state = .current → r.state = .current) :
    Stored sha256 fmt g es digest record := by
  refine ⟨hp ▸ h.payload, ?_, fun hu => hp ▸ h.current (hc hu), hp ▸ h.place⟩
  rw [GenerationRecord.digest, hp]
  exact h.own

theorem Governs.congr (h : Governs sha256 fmt g store es)
    (hs : after.contents = store.contents) : Governs sha256 fmt g after es := by
  have hl {d : Digest} : loadRecord fmt after d = loadRecord fmt store d :=
    loadRecord_congr (congrFun hs _)
  refine ⟨hs ▸ h.settled, fun d r hr => h.stored d r (hl ▸ hr), fun e he => ?_, ?_, h.chained⟩
  · obtain ⟨r, hr⟩ := h.kept e he
    exact ⟨r, hl ▸ hr.load, hr.payload, hr.witnessed, hr.state, hr.last⟩
  · rw [Store.lineage, hs]
    exact h.lineage

/-- A record is replaced that is not in force, or by one that is in force as it was. -/
theorem Governs.putRecord (h : Governs sha256 fmt g store es)
    (hs : Stored sha256 fmt g es (record.digest sha256 fmt) record)
    (hk : ∀ entry ∈ es, entry.1.digest sha256 fmt = record.digest sha256 fmt →
      Kept sha256 fmt (store.putRecord sha256 fmt record) es entry record) :
    Governs sha256 fmt g (store.putRecord sha256 fmt record) es := by
  refine ⟨?_, fun d r hr => ?_, fun e he => ?_, ?_, h.chained⟩
  · simpa [Store.putRecord] using h.settled
  · rw [loadRecord_putRecord] at hr
    split at hr
    · next hd =>
      rw [← ok.inj hr, hd]
      exact hs
    · exact h.stored d r hr
  · by_cases hd : e.1.digest sha256 fmt = record.digest sha256 fmt
    · exact ⟨record, hk e he hd⟩
    · obtain ⟨r, hr⟩ := h.kept e he
      refine ⟨r, ?_, hr.payload, hr.witnessed, hr.state, hr.last⟩
      rw [loadRecord_putRecord, if_neg hd, hr.load]
  · rw [← h.lineage]
    simp [Store.lineage, Store.putRecord]

/-- What a store may hold of a Generation after another one is put in force. -/
theorem loadRecord_activated {previous : Option GenerationRecord} {ms : UInt64} :
    loadRecord fmt (store.activated sha256 fmt previous record ms) digest =
      if digest = record.digest sha256 fmt then .ok record
      else loadRecord fmt (store.superseded sha256 fmt previous) digest := by
  rw [← loadRecord_putRecord]
  exact loadRecord_congr (by simp [Store.activated])

/-- Nothing is in force once what was has been superseded. -/
theorem Governs.superseded (h : Governs sha256 fmt g store es) {previous : Option GenerationRecord}
    (hp : previous.map (·.payload) = es.getLast?.map (·.1.payload))
    (hr : loadRecord fmt (store.superseded sha256 fmt previous) digest = .ok r) :
    Stored sha256 fmt g es digest r ∧ r.state ≠ .current := by
  cases previous with
  | none =>
    have hs := h.stored digest r hr
    refine ⟨hs, fun hu => ?_⟩
    have hc := hs.current hu
    rw [← hp] at hc
    cases hc
  | some p =>
    rw [Store.superseded, loadRecord_putRecord] at hr
    split at hr
    · next hd =>
      obtain rfl := ok.inj hr
      obtain ⟨e, he, hep⟩ := map_eq_some_iff.mp hp.symm
      obtain ⟨q, hq⟩ := h.kept e (mem_of_getLast? he)
      have hs := h.stored _ q hq.load
      rw [GenerationRecord.digest, hep] at hs
      refine ⟨hd ▸ hs.congr (hep.symm.trans hq.payload.symm) ?_, ?_⟩ <;> rintro ⟨⟩
    · next hd =>
      have hs := h.stored digest r hr
      refine ⟨hs, fun hu => hd ?_⟩
      have hc := hs.current hu
      rw [← hp] at hc
      rw [← hs.own, GenerationRecord.digest, ← some.inj hc]
      rfl

/-- What was put in force is kept as superseded. -/
theorem Governs.kept_superseded (h : Governs sha256 fmt g store es)
    {previous : Option GenerationRecord}
    (hp : previous.map (·.payload) = es.getLast?.map (·.1.payload))
    (hq : ∀ p ∈ previous, loadRecord fmt store (p.digest sha256 fmt) = .ok p)
    {e : GenerationRecord × UInt64} (he : e ∈ es) : ∃ r,
      loadRecord fmt (store.superseded sha256 fmt previous) (e.1.digest sha256 fmt) = .ok r ∧
        r.payload = e.1.payload ∧ r.witness.isSome ∧ r.state = .superseded := by
  obtain ⟨r, hr⟩ := h.kept e he
  cases previous with
  | none =>
    rw [getLast?_eq_none_iff.mp (map_eq_none_iff.mp hp.symm)] at he
    cases he
  | some p =>
    rw [Store.superseded, loadRecord_putRecord]
    split
    · next hd =>
      have hl := hr.load
      rw [hd] at hl
      obtain rfl := ok.inj ((hq p rfl).symm.trans hl)
      exact ⟨_, rfl, hr.payload, hr.witnessed, rfl⟩
    · next hd =>
      refine ⟨r, hr.load, hr.payload, hr.witnessed, hr.state.resolve_left fun hu => hd ?_⟩
      have hc := (h.stored _ r hr.load).current hu
      rw [← hp, hr.payload] at hc
      rw [GenerationRecord.digest, ← some.inj hc]
      rfl

/-- The numbers of what was put in force go up to that of the last one. -/
theorem Chained.le (h : Chained sha256 fmt es) : ∀ e ∈ es, 0 < e.1.payload.sequence ∧
    ∃ last ∈ es.getLast?, e.1.payload.sequence ≤ last.1.payload.sequence := by
  induction h with
  | nil => exact fun _ h => absurd h not_mem_nil
  | @snoc es x _ hn hr ih =>
    have hlt : ∀ e ∈ es, 0 < e.1.payload.sequence ∧ e.1.payload.sequence < x.1.payload.sequence :=
      fun e he => by
        obtain ⟨hz, l, hl, hle⟩ := ih e he
        exact ⟨hz, UInt64.lt_of_le_of_lt hle (hr l hl)⟩
    intro e he
    refine ⟨?_, x, getLast?_concat, ?_⟩
    · rcases mem_append.mp he with he | he
      · exact (hlt e he).1
      · obtain rfl := mem_singleton.mp he
        cases hl : es.getLast? with
        | none =>
          rw [hn.1, hl]
          decide
        | some l =>
          have hm := hlt l (mem_of_getLast? hl)
          exact UInt64.lt_trans hm.1 hm.2
    · rcases mem_append.mp he with he | he
      · exact UInt64.le_of_lt (hlt e he).2
      · exact mem_singleton.mp he ▸ UInt64.le_refl _

/-- The next Generation is put in force in place of the one that was. -/
theorem Governs.activated (h : Governs sha256 fmt g store es)
    (hr : loadRecord fmt store digest = .ok record) {previous : Option GenerationRecord}
    (hp : previous.map (·.payload) = es.getLast?.map (·.1.payload))
    (hq : ∀ p ∈ previous, loadRecord fmt store (p.digest sha256 fmt) = .ok p)
    (ht : ∀ p ∈ previous, p.payload.sequence < record.payload.sequence)
    (hw : record.witness.isSome) (ms : UInt64) :
    Governs sha256 fmt g (store.activated sha256 fmt previous record.enforce ms)
      (es ++ [(record.enforce, ms)]) := by
  have hs := h.stored digest record hr
  have hd : record.enforce.digest sha256 fmt = digest := hs.own
  have hlt : ∀ e ∈ es.getLast?, e.1.payload.sequence < record.payload.sequence := by
    intro e he
    rw [mem_def.mp he] at hp
    obtain ⟨p, rfl, hpe⟩ := map_eq_some_iff.mp hp
    have hs := ht p rfl
    rw [hpe] at hs
    exact hs
  have hn : IsNext sha256 fmt record.payload es := hs.place.resolve_left fun ⟨e, he, hle⟩ =>
    absurd (hlt e he) (UInt64.not_lt.mpr hle)
  refine ⟨activated_journal h.settled, fun d r hr' => ?_, fun e he => ?_, ?_,
    .snoc h.chained hn hlt⟩
  · rw [loadRecord_activated, hd] at hr'
    split at hr'
    · next heq =>
      obtain rfl := ok.inj hr'
      refine ⟨heq ▸ hs.payload, heq ▸ hd, fun _ => ?_, .inl ⟨_, getLast?_concat, ?_⟩⟩
      · rw [getLast?_concat]
        rfl
      · exact UInt64.le_refl _
    · obtain ⟨hs', hc⟩ := h.superseded hp hr'
      refine ⟨hs'.payload, hs'.own, fun hu => absurd hu hc, .inl ⟨_, getLast?_concat, ?_⟩⟩
      rcases hs'.place with ⟨e, he, hle⟩ | hn'
      · exact UInt64.le_trans hle (UInt64.le_of_lt (hlt e he))
      · exact UInt64.le_of_eq (hn'.1.trans hn.1.symm)
  · rcases mem_append.mp he with he | he
    · have hne : e.1.payload ≠ record.payload := by
        obtain ⟨-, l, hl, hle⟩ := h.chained.le e he
        exact fun heq => absurd (heq ▸ hle) (UInt64.not_le.mpr (hlt l hl))
      obtain ⟨r, hl, hre, hrw, hrs⟩ := h.kept_superseded hp hq he
      refine ⟨r, ?_, hre, hrw, .inr hrs, fun hlast => ?_⟩
      · rw [loadRecord_activated, if_neg, hl]
        intro hed
        obtain ⟨q, hk⟩ := h.kept e he
        have hb := (h.stored _ q hk.load).payload
        rw [hed, hd, ← hs.payload, hk.payload] at hb
        exact hne hb
      · rw [getLast?_concat, mem_some_iff] at hlast
        exact absurd (hlast ▸ rfl) hne
    · obtain rfl := mem_singleton.mp he
      exact ⟨record.enforce, by rw [loadRecord_activated, if_pos rfl], rfl, hw, .inl rfl,
        fun _ => rfl⟩
  · rw [map_append, String.join_append, ← h.lineage]
    simp [Store.lineage, Store.activated, fromUTF8?_utf8]

/-! ### Reading -/

variable {sshsig : SshsigVerify} {trust : TrustStore} {α : Type}

theorem reads_requireTrust : Reads requireTrust store fun _ => True := by
  refine reads_look.bind fun trust _ => ?_
  cases trust with
  | none => exact reads_fail
  | some trust => exact reads_pure trivial

theorem reads_loadUnlocked : Reads (loadUnlocked fmt digest) store fun r =>
    loadRecord fmt store digest = .ok r := reads_query fun _ h => h

theorem reads_verifyRecord :
    Reads (verifyRecord sha256 fmt sshsig record trust) store fun _ => True := by
  refine reads_check.bind fun _ _ => ?_
  refine Reads.bind (Q := fun _ => True) ?_ fun _ _ => reads_check
  unfold verifyChainPosition
  split
  · split
    · exact reads_pure trivial
    · exact reads_fail
  · split
    · exact reads_fail
    · refine reads_check.bind fun d _ => ?_
      exact reads_loadUnlocked.bind fun _ _ => reads_check

theorem reads_loadVerifiedUnlocked :
    Reads (loadVerifiedUnlocked sha256 fmt sshsig digest) store fun r =>
      loadRecord fmt store digest = .ok r :=
  reads_loadUnlocked.bind fun _ hr => reads_requireTrust.bind fun _ _ =>
    reads_verifyRecord.bind fun _ _ => reads_pure hr

theorem mem_records {bytes : Bytes} :
    (digest, bytes) ∈ store.records ↔ store.contents (.record digest) = some bytes := by
  rw [Store.contents, ← mem_def, AList.mem_lookup_iff, Store.records, mem_filterMap]
  constructor
  · rintro ⟨⟨p, b⟩, hm, h⟩
    split at h
    · next heq =>
      cases heq
      cases h
      exact hm
    · cases h
  · exact fun h => ⟨_, h, rfl⟩

/-- What is found in force is the last one that was put in force. -/
theorem Governs.reads_current (h : Governs sha256 fmt g store es) :
    Reads (currentUnlocked fmt listing) store fun o =>
      o.map (·.payload) = es.getLast?.map (·.1.payload) ∧
        ∀ r ∈ o, loadRecord fmt store (r.digest sha256 fmt) = .ok r := by
  refine Reads.bind (Q := fun rs => ∀ r, r ∈ rs ↔ ∃ d, loadRecord fmt store d = .ok r)
    (reads_query fun rs hs r => ?_) fun rs hs => reads_pure ?_
  · obtain ⟨rs', hd, hs⟩ := bind_ok.mp hs
    rw [← ok.inj hs, mem_insertionSort]
    obtain ⟨ht, hf⟩ := mem_of_mapM_ok hd
    constructor
    · intro hm
      obtain ⟨⟨d, b⟩, he, hb⟩ := ht r hm
      have hc := mem_records.mp ((listing.perm _).mem_iff.mp he)
      refine ⟨d, ?_⟩
      rw [loadRecord, hc]
      exact hb
    · rintro ⟨d, hl⟩
      unfold loadRecord at hl
      split at hl
      · cases hl
      · next b hc =>
        obtain ⟨r', hm, hb⟩ := hf (d, b) ((listing.perm _).mem_iff.mpr (mem_records.mpr hc))
        obtain rfl := ok.inj (hl.symm.trans hb)
        exact hm
  · cases ho : rs.find? (·.state == .current) with
    | none =>
      refine ⟨?_, by simp⟩
      cases hl : es.getLast? with
      | none => rfl
      | some e =>
        obtain ⟨r, hr⟩ := h.kept e (mem_of_getLast? hl)
        have hn := find?_eq_none.mp ho r ((hs r).mpr ⟨_, hr.load⟩)
        simp [hr.last hl] at hn
    | some r =>
      obtain ⟨d, hr⟩ := (hs r).mp (mem_of_find?_eq_some ho)
      have hu := find?_some ho
      have hst := h.stored d r hr
      refine ⟨(hst.current (by simpa using hu)).symm, fun q hq => ?_⟩
      obtain rfl := some.inj hq
      rw [hst.own, hr]

/-! ### Steps -/

variable {Q : Store → Prop}

/-- What a lock finds. -/
theorem Settles.wp_lock (h : Settles sha256 fmt g store es) :
    Wp (lock sha256 fmt) ⟨fun _ s => Governs sha256 fmt g s es,
      fun _ s => Settles sha256 fmt g s es, fun s => Settles sha256 fmt g s es⟩ store := by
  unfold lock
  apply wp_bind
  refine wp_probe ?_ h h
  rcases h with h | ⟨before, previous, candidate, writes, hi, h⟩
  · refine (wp_recover_settled h.settled).mono ?_ ?_ ?_
    · exact fun _ s hs => hs ▸ h
    · exact fun _ s hs => hs ▸ .inl h
    · exact fun s hs => hs ▸ .inl h
  · have ht : ∀ s, Interrupted fmt before previous candidate writes s ∨ before.Same s →
        Settles sha256 fmt g s es := fun s hs =>
      hs.symm.imp (fun hs => h.congr hs.contents)
        fun hs => ⟨before, previous, candidate, writes, hs, h⟩
    exact (wp_recover_interrupted h.settled hi).mono (fun _ _ hs => h.congr hs.contents)
      (fun _ => ht) ht

theorem Settles.wp_locked {f : Unit → Action α} (h : Settles sha256 fmt g store es)
    (hs : ∀ s, Settles sha256 fmt g s es → Q s)
    (hf : ∀ s, Governs sha256 fmt g s es → Wp (f ()) (.ends Q) s) :
    Wp (lock sha256 fmt >>= f) (.ends Q) store := by
  apply wp_bind
  exact h.wp_lock.mono (fun _ => hf) (fun _ => hs) hs

variable {bytes : Bytes} {remote : Remote} {identity : RunningIdentity} {ms : UInt64}

theorem Settles.publishBytes (h : Settles sha256 fmt g store es) :
    Wp (publishBytes sha256 fmt sshsig digest)
      (.ends fun s => Settles sha256 fmt g s es) store := by
  refine h.wp_locked (fun _ hs => hs) fun s hs => ?_
  exact Reads.ends (Q := fun _ => True)
    (reads_loadVerifiedUnlocked.bind fun _ _ => reads_pure trivial) (.inl hs)

theorem Settles.current (h : Settles sha256 fmt g store es) :
    Wp (current sha256 fmt listing) (.ends fun s => Settles sha256 fmt g s es) store :=
  h.wp_locked (fun _ hs => hs) fun _ hs => hs.reads_current.ends (.inl hs)

theorem Settles.load (h : Settles sha256 fmt g store es) :
    Wp (load sha256 fmt digest) (.ends fun s => Settles sha256 fmt g s es) store :=
  h.wp_locked (fun _ hs => hs) fun _ hs => reads_loadUnlocked.ends (.inl hs)

/-- The evidence of a witness leaves a record in the state that it has. -/
theorem Governs.witnessed (h : Governs sha256 fmt g store es)
    (hr : loadRecord fmt store digest = .ok record) (evidence : WitnessEvidence) :
    Governs sha256 fmt g
      (store.putRecord sha256 fmt { record with witness := some evidence }) es := by
  have hs := h.stored digest record hr
  refine h.putRecord ?_ fun e he heq => ?_
  · exact (hs.own ▸ hs).congr rfl id
  · obtain ⟨r, hk⟩ := h.kept e he
    have hl := hk.load
    rw [heq] at hl
    obtain rfl := ok.inj (hl.symm.trans (hs.own ▸ hr))
    refine ⟨?_, hk.payload, rfl, hk.state, hk.last⟩
    rw [heq, loadRecord_putRecord]
    exact if_pos rfl

theorem Settles.confirmBytes (h : Settles sha256 fmt g store es) :
    Wp (confirmBytes sha256 fmt sshsig digest bytes remote ms)
      (.ends fun s => Settles sha256 fmt g s es) store := by
  unfold Admission.confirmBytes
  refine reads_check.ends_bind h fun held _ => ?_
  cases held with
  | none => exact wp_fail.mpr h
  | some held =>
    refine reads_check.ends_bind h fun _ _ => ?_
    refine h.wp_locked (fun _ hs => hs) fun s hs => ?_
    refine reads_loadVerifiedUnlocked.ends_bind (.inl hs) fun r hr => ?_
    refine reads_check.ends_bind (.inl hs) fun _ _ => ?_
    have hw := hs.witnessed hr { held.2 with confirmedAtMs := ms }
    apply wp_bind
    exact wp_write (wp_pure.mpr (.inl hw)) (.inl hs) (.inl hw) (.inl hs)

variable (sha256 fmt g es) in
/-- What may have been put in force once a call has ended. -/
def Call.Leaves (call : Call) (s : Store) : Prop :=
  ∃ after, call.Extends sha256 fmt es after ∧ Settles sha256 fmt g s after

theorem Settles.activate (h : Settles sha256 fmt g store es) :
    Wp (activate sha256 fmt sshsig listing identity digest ms)
      (.ends ((Call.activate identity digest ms).Leaves sha256 fmt g es)) store := by
  have ha : ∀ s, Settles sha256 fmt g s es →
      (Call.activate identity digest ms).Leaves sha256 fmt g es s := fun s hs => ⟨es, .inl rfl, hs⟩
  have ht : ∀ {before : Store} {r : GenerationRecord} {o : Option GenerationRecord},
      Governs sha256 fmt g before es → loadRecord fmt before digest = .ok r →
      r.witness.isSome → o.map (·.payload) = es.getLast?.map (·.1.payload) →
      (∀ p ∈ o, loadRecord fmt before (p.digest sha256 fmt) = .ok p) →
      (∀ p ∈ o, p.payload.sequence < r.payload.sequence) →
      Wp (do activateWith sha256 fmt o r.enforce ms fun _ => .ok (); return r.enforce)
        (.ends ((Call.activate identity digest ms).Leaves sha256 fmt g es)) before := by
    intro before r o hb hr hw ho hp hl
    have hd := (hb.stored digest r hr).own
    have hq : ∀ s, Stopped sha256 fmt before o r.enforce ms s →
        (Call.activate identity digest ms).Leaves sha256 fmt g es s := by
      rintro s (hi | hs | hs)
      · exact ha s (.inr ⟨before, _, _, _, hi, hb⟩)
      · exact ha s (.inl (hb.congr hs.contents))
      · refine ⟨es ++ [(r.enforce, ms)], .inr ⟨identity, r.enforce, ms, ?_, hw, rfl⟩, .inl ?_⟩
        · rw [← hd]
          rfl
        · exact (hb.activated hr ho hp hl hw ms).congr hs.contents
    apply wp_bind
    exact (wp_activateWith_stopped sha256 fmt o r.enforce _ ms hb.settled).mono
      (fun _ s hs => wp_pure.mpr (hq s hs)) (fun _ => hq) hq
  unfold Admission.activate activateChecked
  have he : Reads (requireRelease identity) store fun _ => True :=
    reads_look.bind fun _ _ => reads_check
  refine he.ends_bind (ha _ h) fun _ _ => ?_
  refine h.wp_locked ha fun s hs => ?_
  have hk := ha s (.inl hs)
  unfold activateUnlocked
  refine reads_loadVerifiedUnlocked.ends_bind hk fun r hr => ?_
  refine (reads_ofExcept fun _ hw => require_ok.mp hw).ends_bind hk fun _ hw => ?_
  refine hs.reads_current.ends_bind hk fun o ho => ?_
  cases o with
  | none => exact ht hs hr hw ho.1 ho.2 nofun
  | some p =>
    dsimp only
    split
    · refine Reads.ends (Q := fun _ => True)
        (Reads.bind (Q := fun _ => True) ?_ fun _ _ => reads_pure trivial) hk
      exact wp_handle (wp_probe ⟨rfl, trivial⟩ (wp_fail.mpr rfl) rfl)
    · split
      · exact wp_fail.mpr hk
      · next hl =>
        refine ht hs hr hw ho.1 ho.2 fun q hq => ?_
        obtain rfl := some.inj hq
        exact UInt64.not_le.mp hl

/-- The payload that is signed is the next one. -/
theorem Governs.reads_preparePayload (h : Governs sha256 fmt g store es)
    {policyDigest : Digest} {request : AdmissionRequest} {operation : Option String} :
    Reads (preparePayload sha256 fmt listing policyDigest request operation trust) store fun p =>
      IsNext sha256 fmt p es := by
  unfold preparePayload
  refine Reads.bind (Q := fun _ => True) ?_ fun _ _ => ?_
  · refine h.reads_current.bind fun o _ => ?_
    cases o with
    | none => exact reads_pure trivial
    | some r =>
      exact reads_look.bind fun _ _ => reads_check
  · refine reads_check.bind fun _ _ => reads_check.bind fun members _ => ?_
    refine h.reads_current.bind fun o ho => reads_pure ?_
    rw [IsNext, ← ho.1]
    cases o <;> exact ⟨rfl, rfl⟩

/-- What comes next was not put in force. -/
theorem IsNext.ne {p : GenerationPayload} (h : IsNext sha256 fmt p es)
    (hc : Chained sha256 fmt es) : ∀ e ∈ es, p ≠ e.1.payload := by
  rintro e he rfl
  obtain ⟨hz, l, hl, hle⟩ := hc.le e he
  have hs := h.1
  rw [mem_def.mp hl] at hs
  have hn : _ = (l.1.payload.sequence + 1).toNat := congrArg UInt64.toNat hs
  rw [UInt64.toNat_add, UInt64.toNat_one] at hn
  have hm := l.1.payload.sequence.toNat_lt
  have hz : 0 < e.1.payload.sequence.toNat := hz
  have hle : e.1.payload.sequence.toNat ≤ l.1.payload.sequence.toNat := hle
  omega

theorem Governs.recoverLinked (h : Governs sha256 fmt g store es) {payload : GenerationPayload} :
    Wp (recoverLinked sha256 fmt sshsig listing payload trust)
      (.ends fun s => Governs sha256 fmt g s es) store := by
  unfold Admission.recoverLinked
  split
  · exact wp_pure.mpr h
  refine reads_look.ends_bind h fun o _ => ?_
  cases o with
  | none => exact wp_pure.mpr h
  | some r =>
    refine reads_verifyRecord.ends_bind h fun _ _ => ?_
    refine reads_check.ends_bind h fun _ _ => ?_
    have hc : Reads (confirmRecord sha256 fmt r) store fun _ => True :=
      reads_look.bind fun _ _ => reads_look.bind fun _ _ => reads_look
    refine hc.ends_bind h fun _ _ => ?_
    apply wp_bind
    exact wp_write (wp_pure.mpr (h.congr rfl)) h (h.congr rfl) h

variable (sha256 fmt g es) in
/-- Settled as it was, where nothing is stored that has the digest of something else. -/
def Admits (s : Store) : Prop :=
  Bound fmt g s → Settles sha256 fmt g s es

theorem Governs.signPayload (h : Governs sha256 fmt g store es) {request : AdmissionRequest}
    {key : EnrolledKey} {payload : GenerationPayload} (hp : IsNext sha256 fmt payload es) :
    Wp (signPayload sha256 fmt sshsig request trust key payload)
      (.ends (Admits sha256 fmt g es)) store := by
  have hk : Admits sha256 fmt g es store := fun _ => .inl h
  unfold Admission.signPayload
  refine reads_check.ends_bind hk fun signature _ => ?_
  refine reads_check.ends_bind hk fun _ _ => ?_
  dsimp only
  generalize hc : pendingRecord sha256 fmt payload signature request.admittedAtMs = record
  have ha : record.payload = payload := hc ▸ rfl
  have hw : ∀ s : Store, s.contents = (store.putRecord sha256 fmt record).contents →
      Admits sha256 fmt g es s := by
    intro s hs hb
    have hb' : Bound fmt g (store.putRecord sha256 fmt record) := fun d r hr =>
      hb d r ((loadRecord_congr (congrFun hs _)).trans hr)
    have hg := hb' (record.digest sha256 fmt) record (by rw [loadRecord_putRecord, if_pos rfl])
    refine .inl (.congr (h.putRecord ⟨hg, rfl, ?_, .inr (ha ▸ hp)⟩ fun e he hd => ?_) hs)
    · rw [← hc]
      exact nofun
    · obtain ⟨r, hr⟩ := h.kept e he
      rw [← hd, ← (h.stored _ r hr.load).payload, ha, hr.payload] at hg
      exact absurd hg (hp.ne h.chained e he)
  apply wp_bind
  refine wp_write ?_ hk (hw _ rfl) hk
  apply wp_bind
  exact wp_write (wp_pure.mpr (hw _ rfl)) (hw _ rfl) (hw _ rfl) (hw _ rfl)

theorem Settles.admitInner (h : Settles sha256 fmt g store es)
    {policyDigest : Digest} {request : AdmissionRequest} {operation : Option String} :
    Wp (admitInner sha256 fmt sshsig listing policyDigest request operation)
      (.ends (Admits sha256 fmt g es)) store := by
  refine h.wp_locked (fun _ hs _ => hs) fun s hs => ?_
  have hk : ∀ s, Governs sha256 fmt g s es → Admits sha256 fmt g es s :=
    fun s hs _ => .inl hs
  refine reads_requireTrust.ends_bind (hk s hs) fun trust _ => ?_
  refine reads_check.ends_bind (hk s hs) fun key _ => ?_
  refine hs.reads_preparePayload.ends_bind (hk s hs) fun payload hp => ?_
  apply wp_bind
  refine hs.recoverLinked.mono (fun o s hs => ?_) (fun _ => hk) hk
  cases o with
  | none => exact hs.signPayload hp
  | some r => exact wp_pure.mpr (hk s hs)

/-- What a call leaves. -/
theorem Settles.turn (h : Settles sha256 fmt g store es) (turn : Turn)
    (hb : Bound fmt g (store.turn sha256 fmt sshsig turn)) :
    turn.call.Leaves sha256 fmt g es (store.turn sha256 fmt sshsig turn) := by
  obtain ⟨call, listing, fs⟩ := turn
  cases call with
  | activate identity digest ms => exact h.activate.leaves fs
  | admission policyDigest request => exact ⟨es, .inl rfl, h.admitInner.leaves fs hb⟩
  | admitLinked policyDigest request operation =>
    have hk : Admits sha256 fmt g es store := fun _ => h
    exact ⟨es, .inl rfl, Wp.leaves (reads_check.ends_bind hk fun _ _ => h.admitInner) fs hb⟩
  | publish digest => exact ⟨es, .inl rfl, h.publishBytes.leaves fs⟩
  | confirm digest bytes remote ms => exact ⟨es, .inl rfl, h.confirmBytes.leaves fs⟩
  | current => exact ⟨es, .inl rfl, h.current.leaves fs⟩
  | load digest => exact ⟨es, .inl rfl, h.load.leaves fs⟩

theorem governs_empty (trust : Option TrustStore) (trusted : Bool) :
    Governs sha256 fmt g ⟨∅, trust, trusted⟩ [] where
  settled := rfl
  stored _ _ h := nomatch h
  kept _ h := absurd h not_mem_nil
  lineage := rfl
  chained := .nil

end

private def firstHash : Sha256 := fun _ => Vector.replicate 32 0

private def firstTrust : TrustStore := ⟨"domain", [⟨.primary, "key", .none⟩], [], []⟩

private def firstRequest : AdmissionRequest where
  members := []
  review := ⟨fun _ _ _ => .ok fun _ => .ok [], fun _ _ => .error .rootMismatch⟩
  signer _ _ := .ok "armored"
  admittedAtMs := 1000
  configuredAgents := none

private def firstRun : List Turn :=
  [⟨.admission (Digest.of firstHash []) firstRequest, ⟨id, .refl⟩, []⟩,
      ⟨.current, ⟨id, .refl⟩, [.crash]⟩]

private def firstPayload : GenerationPayload :=
  nextPayload firstHash Compact.format firstTrust (Digest.of firstHash []) [] none none

end Louiselm.Admission
