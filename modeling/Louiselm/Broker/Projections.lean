import Louiselm.Base.Program
import Louiselm.Broker.Outbox

/-!
# What the outbox was told

The outbox of `broker/attention.rs` as its producers see it: a log of changes under names that
do not repeat, and the conditions that are open after them. Enqueueing is an operation of a
program over a larger store, and a list of changes that was sent in part can be sent again.
-/

namespace Louiselm.Broker
open Base Canonical List
open Base.Program (query write)
open Broker.Authorization (WriteFault)
open Program ProjectionChange

/-- The identity of a condition: digits of the digest of what names it, in the form of a
UUID. -/
def conditionId (sha256 : Sha256) (bytes : Bytes) : String :=
  let hex := (Digest.of sha256 bytes).hex.toList
  String.ofList (hex.take 8 ++ '-' :: (hex.drop 8).take 4 ++ '-' :: (hex.drop 12).take 4 ++
    '-' :: (hex.drop 16).take 4 ++ '-' :: (hex.drop 20).take 12)

/-! ### Open conditions -/

/-- What a clear names of a condition: its subject, the kind of its reason, its operation. -/
def AttentionCondition.name (condition : AttentionCondition) : AttentionSubject × String × String :=
  (condition.subject, condition.reason.fields.1, condition.operationId)

/-- The conditions that a change is about. -/
def conditionsOf : ProjectionChange → List AttentionCondition
  | .upsert condition => [condition]
  | .clear condition => [condition]
  | .clearSubject _ => []

/-- The conditions that are open after a change. -/
def ProjectionChange.apply (opened : List AttentionCondition) :
    ProjectionChange → List AttentionCondition
  | .upsert condition => opened.filter (·.name ≠ condition.name) ++ [condition]
  | .clear condition => opened.filter (·.name ≠ condition.name)
  | .clearSubject subject => opened.filter (·.subject ≠ subject)

/-- The conditions that are open after some changes. -/
def openAfter (changes : List ProjectionChange) : List AttentionCondition :=
  changes.foldl apply []

section

variable {op : List AttentionCondition} {changes : List ProjectionChange}
  {cond x : AttentionCondition}

theorem mem_apply_upsert : x ∈ (upsert cond).apply op ↔ x = cond ∨ x ∈ op ∧ x.name ≠ cond.name := by
  simp [apply, or_comm]

theorem mem_apply_clear : x ∈ (clear cond).apply op ↔ x ∈ op ∧ x.name ≠ cond.name := by
  simp [apply]

theorem openAfter_append (l : List ProjectionChange) :
    openAfter (changes ++ l) = l.foldl apply (openAfter changes) :=
  foldl_append

/-- Clearing some conditions leaves those of other names. -/
theorem mem_foldl_clear {c : List AttentionCondition} : x ∈ (c.map clear).foldl apply op ↔
      x ∈ op ∧ ∀ cond ∈ c, x.name ≠ cond.name := by
  induction c generalizing op with
  | nil => simp
  | cons cond c ih =>
    rw [map_cons, foldl_cons, ih, mem_apply_clear, forall_mem_cons, and_assoc]

/-- Opening some conditions of different names leaves the others of other names. -/
theorem mem_foldl_upsert {a : List AttentionCondition}
    (hn : (a.map AttentionCondition.name).Nodup) : x ∈ (a.map upsert).foldl apply op ↔
      x ∈ a ∨ x ∈ op ∧ ∀ cond ∈ a, x.name ≠ cond.name := by
  induction a generalizing op with
  | nil => simp
  | cons cond a ih =>
    obtain ⟨hf, hn⟩ := nodup_cons.mp hn
    rw [map_cons, foldl_cons, ih hn, mem_apply_upsert, mem_cons, forall_mem_cons]
    constructor
    · rintro (h | ⟨rfl | ⟨ho, he⟩, ha⟩)
      · exact .inl (.inr h)
      · exact .inl (.inl rfl)
      · exact .inr ⟨ho, he, ha⟩
    · rintro ((rfl | h) | ⟨ho, he, ha⟩)
      · refine .inr ⟨.inl rfl, fun cond hc hna => ?_⟩
        exact hf (mem_map.mpr ⟨cond, hc, hna.symm⟩)
      · exact .inl h
      · exact .inr ⟨.inr ⟨ho, he⟩, ha⟩

end

/-! ### Sending -/

/-- A change under the name it is enqueued with. -/
abbrev Named : Type := String × ProjectionChange

def Projection.named (entry : Projection) : Named := (entry.mutationId, entry.change)

/-- The outbox holds some changes, each under its name. -/
def Outbox.Logs (outbox : Outbox) (log : List Named) : Prop :=
  ∃ entries, outbox.Holds entries ∧ entries.map Projection.named = log

theorem logs_empty : Outbox.empty.Logs [] := ⟨[], Outbox.holds_empty, rfl⟩

theorem Outbox.Logs.unique {o : Outbox} {log ot : List Named} (h : o.Logs log)
    (ht : o.Logs ot) : log = ot := by
  obtain ⟨es, hh, rfl⟩ := h
  obtain ⟨os, ho, rfl⟩ := ht
  rw [hh.unique ho]

/-- The outbox that is part of a store. -/
structure Mailbox (σ : Type) where
  outbox : σ → Outbox
  put : Outbox → σ → σ
  bytes : Projection → Nat
  outbox_put : ∀ outbox' s, outbox (put outbox' s) = outbox'
  put_put : ∀ outbox' other s, put outbox' (put other s) = put outbox' s
  put_outbox : ∀ s, put (outbox s) s = s

namespace Mailbox

variable {σ : Type} (box : Mailbox σ)

/-- Enqueue a change: the new file is there before its bytes are. -/
def send (item : Named) : Program σ BrokerError Unit := do
  let torn ← observe fun s =>
    ((box.outbox s).enqueue box.bytes item.1 item.2 (.ok ()) .torn).2
  let after ← query (fun s =>
    match (box.outbox s).enqueue box.bytes item.1 item.2 (.ok ()) .none with
    | (.ok _, after) => .ok after
    | (.error error, _) => .error error) .storage
  write (box.put torn) .storage
  write (box.put after) .storage

/-- Enqueue some changes one after another. -/
def sendAll : List Named → Program σ BrokerError Unit
  | [] => return
  | item :: items => do
    box.send item
    sendAll items

variable {box} {s : σ} {log : List Named} {item : Named} {post : Post σ BrokerError Unit}

/-- A log with a change under a name that it may have already. -/
def logged (log : List Named) (item : Named) : List Named :=
  if item.1 ∈ log.map Prod.fst then log else log ++ [item]

theorem logs_enqueue {o : Outbox} (b : Projection → Nat) (h : o.Logs log)
    (item : Named) (f : WriteFault) :
    let result := o.enqueue b item.1 item.2 (.ok ()) f
    (result.2.Logs log ∧ ∀ e, result.1 = .ok e → item ∈ log) ∨
      f ≠ .torn ∧ item.1 ∉ log.map Prod.fst ∧ result.2.Logs (log ++ [item]) := by
  obtain ⟨es, hh, rfl⟩ := h
  rcases hh.enqueue_result b item.1 item.2 (.ok ()) f with
    ⟨ha, ho⟩ | ⟨hf, hr, e, ha, hi, hc⟩
  · refine .inl ⟨⟨es, ha, rfl⟩, fun e he => ?_⟩
    obtain ⟨hm, hi, hc⟩ := ho e he
    exact mem_map.mpr ⟨e, hm, Prod.ext hi hc⟩
  · refine .inr ⟨hf, ?_, _, ha, ?_⟩
    · simpa [Projection.named] using hr
    · rw [map_append, map_singleton]
      exact congrArg (fun l => es.map Projection.named ++ [l]) (Prod.ext hi hc)

/-- A change that was accepted is in the log; an interrupted one may be. -/
theorem wp_send (h : (box.outbox s).Logs log)
    (hv : ∀ l, l.Logs (logged log item) → item ∈ logged log item → post.value () (box.put l s))
    (he : ∀ e l, l.Logs log ∨ l.Logs (logged log item) → post.error e (box.put l s))
    (hc : ∀ l, l.Logs log ∨ l.Logs (logged log item) → post.crashed (box.put l s)) :
    Wp (box.send item) post s := by
  have hsa : ∀ e, post.error e s := fun e => by
    simpa only [box.put_outbox] using he e (box.outbox s) (.inl h)
  have hs : post.crashed s := by
    simpa only [box.put_outbox] using hc (box.outbox s) (.inl h)
  have ht : (((box.outbox s).enqueue box.bytes item.1 item.2 (.ok ()) .torn).2).Logs log := by
    rcases logs_enqueue box.bytes h item .torn with ⟨hl, -⟩ | ⟨hf, -⟩
    · exact hl
    · exact absurd rfl hf
  refine wp_bind (wp_observe.mpr ?_)
  refine wp_bind (wp_query (fun l ha => ?_) (fun _ _ => hsa _) (hsa _) hs)
  have hd : l.Logs (logged log item) ∧ item ∈ logged log item := by
    rcases logs_enqueue box.bytes h item .none with
      ⟨hl, ho⟩ | ⟨-, hfr, hl⟩
    · split at ha
      · next en _ hr =>
        obtain rfl := Except.ok.inj ha
        rw [hr] at hl ho
        have hm := ho en rfl
        rw [logged, if_pos (mem_map_of_mem hm)]
        exact ⟨hl, hm⟩
      · simp at ha
    · split at ha
      · next en _ hr =>
        obtain rfl := Except.ok.inj ha
        rw [hr] at hl
        rw [logged, if_neg hfr]
        exact ⟨hl, mem_append_right _ (mem_singleton_self _)⟩
      · simp at ha
  have hn : Wp (write (box.put l) .storage) post
      (box.put ((box.outbox s).enqueue box.bytes item.1 item.2 (.ok ()) .torn).2 s) := by
    refine wp_write ?_ (he _ _ (.inl ht)) ?_ (hc _ (.inl ht))
    · rw [box.put_put]
      exact hv l hd.1 hd.2
    · rw [box.put_put]
      exact he _ _ (.inr hd.1)
  exact wp_bind (wp_write hn (hsa _) (he _ _ (.inl ht)) hs)

/-- Changes that were sent in part, and are sent again, are sent once each. -/
theorem wp_sendAll {d p xs : List Named} (hp : p <+: xs) (hn : ((d ++ xs).map Prod.fst).Nodup)
    (h : (box.outbox s).Logs (d ++ p)) (hv : ∀ l, l.Logs (d ++ xs) → post.value () (box.put l s))
    (he : ∀ e l p, p <+: xs → l.Logs (d ++ p) → post.error e (box.put l s))
    (hc : ∀ l p, p <+: xs → l.Logs (d ++ p) → post.crashed (box.put l s)) :
    Wp (box.sendAll xs) post s := by
  induction xs generalizing d p s with
  | nil =>
    obtain rfl := prefix_nil.mp hp
    have := hv (box.outbox s) h
    rw [box.put_outbox] at this
    exact wp_pure.mpr this
  | cons item xs ih =>
    have ha : ∀ m : List Named, d ++ item :: m = (d ++ [item]) ++ m := by simp
    -- what the log is once the first change was sent, and what is sent of the others
    have hi : ∃ m, m <+: xs ∧ logged (d ++ p) item = (d ++ [item]) ++ m ∧
        item :: m <+: item :: xs := by
      cases p with
      | nil =>
        refine ⟨[], nil_prefix, ?_, by simp⟩
        rw [append_nil, logged, if_neg, append_nil]
        rw [map_append, map_cons] at hn
        exact fun hmem => (disjoint_of_nodup_append hn) hmem mem_cons_self
      | cons head m =>
        obtain ⟨rfl, hm⟩ := cons_prefix_cons.mp hp
        refine ⟨m, hm, ?_, hp⟩
        rw [logged, if_pos (by simp), ha]
    obtain ⟨m, hm, ho, hall⟩ := hi
    have hint : ∀ l : Outbox, l.Logs (d ++ p) ∨ l.Logs (logged (d ++ p) item) →
          ∃ p, p <+: item :: xs ∧ l.Logs (d ++ p) := by
      rintro l (hl | hl)
      · exact ⟨p, hp, hl⟩
      · rw [ho, ← ha] at hl
        exact ⟨_, hall, hl⟩
    refine wp_bind (wp_send h (fun l hl _ => ?_) (fun e l hl => ?_) fun l hl => ?_)
    · rw [ho] at hl
      refine ih hm (by rwa [← ha]) (by rwa [box.outbox_put]) ?_ ?_ ?_
      · intro f hf
        rw [box.put_put]
        exact hv f (by rwa [ha])
      · intro e f p hp hf
        rw [box.put_put]
        exact he e f (item :: p) (cons_prefix_cons.mpr ⟨rfl, hp⟩) (by rwa [ha])
      · intro f p hp hf
        rw [box.put_put]
        exact hc f (item :: p) (cons_prefix_cons.mpr ⟨rfl, hp⟩) (by rwa [ha])
    · obtain ⟨p, hp, hl⟩ := hint l hl
      exact he e l p hp hl
    · obtain ⟨p, hp, hl⟩ := hint l hl
      exact hc l p hp hl

end Mailbox

/-! ### Records with pending changes -/

/-- Changes under names by their places. -/
def numbered (name : Nat → String) (changes : List ProjectionChange) : List Named :=
  changes.zipIdx.map fun item => (name item.2, item.1)

section

variable {name : Nat → String} {changes : List ProjectionChange}

@[simp] theorem numbered_changes : (numbered name changes).map Prod.snd = changes := by
  unfold numbered
  rw [map_map]
  exact zipIdx_map_fst 0 changes

theorem mem_numbered {item : Named} (h : item ∈ numbered name changes) :
    item.2 ∈ changes ∧ ∃ i, item.1 = name i := by
  obtain ⟨p, hp, rfl⟩ := mem_map.mp h
  exact ⟨fst_mem_of_mem_zipIdx hp, p.2, rfl⟩

/-- Changes have different names where places do. -/
theorem numbered_nodup (hi : Function.Injective name) :
    ((numbered name changes).map Prod.fst).Nodup := by
  unfold numbered
  rw [map_map]
  have hp : (changes.zipIdx.map Prod.snd).Nodup := by
    rw [zipIdx_map_snd]
    exact nodup_range'
  refine List.Nodup.map_on (fun l hl r hr hn => ?_) hp.of_map
  exact inj_on_of_nodup_map hp hl hr (hi hn)

end

/-- A record kept beside the outbox, replaced whole, with the changes that the outbox has still
to be told and the names they are told under. -/
structure Episodes (σ ρ : Type) extends Mailbox σ where
  write : ρ → σ → σ
  pending : ρ → List ProjectionChange
  settle : ρ → ρ
  changeName : ρ → Nat → String
  validate : ρ → Except BrokerError Unit
  size : ρ → Nat
  limit : Nat

namespace Episodes

variable {σ ρ : Type} (episodes : Episodes σ ρ)

/-- The pending changes under their names. -/
def named (record : ρ) : List Named :=
  numbered (episodes.changeName record) (episodes.pending record)

/-- Replace the record, whole. -/
def save (record : ρ) : Program σ BrokerError Unit := do
  Program.ofExcept (episodes.validate record)
  Program.ofExcept (require (decide (episodes.size record ≤ episodes.limit)) .invalidGrant)
  Program.write (episodes.write record) .storage

/-- Tell the outbox what is pending, then forget it. -/
def flush (record : ρ) : Program σ BrokerError ρ := do
  if (episodes.pending record).isEmpty then return record
  else
    episodes.sendAll (episodes.named record)
    episodes.save (episodes.settle record)
    return episodes.settle record

variable {episodes} {record : ρ} {s : σ}

/-- What was saved is valid and within its bound. -/
def Fits (episodes : Episodes σ ρ) (record : ρ) : Prop :=
  episodes.validate record = .ok () ∧ episodes.size record ≤ episodes.limit

/-- A record that was saved fits; an interrupted save left the old one, or is done. -/
theorem wp_save {post : Post σ BrokerError Unit}
    (ha : episodes.Fits record → post.value () (episodes.write record s)) (hs : ∀ e, post.error e s)
    (hd : ∀ e, episodes.Fits record → post.error e (episodes.write record s))
    (hc : post.crashed s) : Wp (episodes.save record) post s := by
  refine wp_bind (wp_ofExcept (fun _ hv => ?_) fun _ _ => hs _)
  refine wp_bind (wp_ofExcept (fun _ hi => ?_) fun _ _ => hs _)
  have hf : episodes.Fits record := ⟨hv, of_decide_eq_true (require_ok.mp hi)⟩
  exact wp_write (ha hf) (hs _) (hd _ hf) hc

/-- After a flush the outbox was told all that was pending; an interrupted one told some of
it, or only the settled record is there already. -/
theorem wp_flush {post : Post σ BrokerError ρ} {d p : List Named} (hp : p <+: episodes.named record)
    (hna : ((d ++ episodes.named record).map Prod.fst).Nodup)
    (h : (episodes.outbox s).Logs (d ++ p))
    (hn : episodes.pending record = [] → post.value record s)
    (hv : ∀ l, l.Logs (d ++ episodes.named record) →
      episodes.Fits (episodes.settle record) → post.value (episodes.settle record)
        (episodes.write (episodes.settle record) (episodes.put l s)))
    (hr : ∀ e l p, p <+: episodes.named record → l.Logs (d ++ p) → post.error e (episodes.put l s))
      (hd : ∀ e l, l.Logs (d ++ episodes.named record) →
      episodes.Fits (episodes.settle record) → post.error e
        (episodes.write (episodes.settle record) (episodes.put l s)))
    (hc : ∀ l p, p <+: episodes.named record → l.Logs (d ++ p) →
      post.crashed (episodes.put l s)) : Wp (episodes.flush record) post s := by
  unfold flush
  split
  · next he => exact wp_pure.mpr (hn (isEmpty_iff.mp he))
  · refine wp_bind (Mailbox.wp_sendAll hp hna h (fun l ha => ?_)
      (fun e l p hp ha => hr e l p hp ha) fun l p hp ha => hc l p hp ha)
    refine wp_bind (wp_save (fun hf => ?_) (fun e => ?_) (fun e hf => hd e l ha hf) ?_)
    · exact wp_pure.mpr (hv l ha hf)
    · exact hr e l _ (prefix_refl _) ha
    · exact hc l _ (prefix_refl _) ha

end Episodes

end Louiselm.Broker
