import Louiselm.Base.Lua
import Louiselm.Base.Runs
import Mathlib.Logic.Function.Basic

/-!
# Transcripts

`lua/louiselm/session/transcript.lua`: a Session as a sequence of blocks, from its events and from
what the client submits. Text goes on with the block before it where that is of its kind, and what
an Agent sends of a tool call is merged until the call is finished.
-/

namespace Louiselm.Session.Transcripts
open Louiselm.Base Louiselm.Base.Lua List Option

/-! ### Recording -/

inductive TextKind where
  | user
  | assistant
  | reasoning
deriving DecidableEq, Repr

/-- Some text of one author, with the Session it is handed off from. -/
structure Passage where
  kind : TextKind
  text : String
  handoffSource : Option String
deriving DecidableEq, Repr

/-- A block. What was sent of a tool call stands under its keys. -/
inductive TranscriptEntry where
  | text (passage : Passage)
  | toolCall (id : String) (raw : Key → Option Value)
  | compaction (id : String) (compaction : Value) (retainFrom : Nat)

/-- The blocks, and where those of the tool calls are that await a terminal status. -/
structure Transcript where
  entries : List TranscriptEntry
  openToolCalls : String → Option Nat

def Transcript.new : Transcript := ⟨[], fun _ => none⟩

def filled (value : Option Value) : Option String := (Value.text? value).filter (· != "")

def chunkText (value : Value) : Option String :=
  (Value.text? (value.field "text")).or
    ((value.field "content").bind fun content => Value.text? (content.field "text"))

def toolCallId (value : Value) : Option String :=
  (filled (value.field "toolCallId")).or (filled (value.field "tool_call_id"))

def appendText (self : Transcript) (kind : TextKind) (text : String) : Transcript :=
  match self.entries.getLast? with
  | some (.text last) =>
    if last.kind = kind then
      { self with
        entries := self.entries.dropLast ++ [.text { last with text := last.text ++ text }] }
    else { self with entries := self.entries ++ [.text ⟨kind, text, none⟩] }
  | _ => { self with entries := self.entries ++ [.text ⟨kind, text, none⟩] }

/-- The fields of a payload over those that were sent before it. -/
def mergeFields (data : Value) (raw : Key → Option Value) : Key → Option Value := fun key =>
  if key = .str "sessionUpdate" then raw key else (data.get key).or (raw key)

def TranscriptEntry.merge (data : Value) : TranscriptEntry → TranscriptEntry
  | .toolCall id raw => .toolCall id (mergeFields data raw)
  | entry => entry

def mergeToolCall (self : Transcript) (data : Value) : Transcript :=
  match toolCallId data with
  | none => self
  | some id =>
    match self.openToolCalls id with
    | some index => { self with entries := self.entries.modify index (.merge data) }
    | none =>
      ⟨self.entries ++ [TranscriptEntry.merge data (.toolCall id fun _ => none)],
        Function.update self.openToolCalls id (some self.entries.length)⟩

inductive Event where
  | compactionUpdated (id : String) (data : Value)
  | chunk (data : Value)
  | userChunk (data : Value)
  | thoughtChunk (data : Value)
  | toolCallStarted (data : Value)
  | toolCallFinished (data : Value)
  | other

def TranscriptEntry.isCompaction (id : String) : TranscriptEntry → Bool
  | .compaction other _ _ => other == id
  | _ => false

def TranscriptEntry.replaceCompaction (data : Value) : TranscriptEntry → TranscriptEntry
  | .compaction id _ retainFrom => .compaction id data retainFrom
  | entry => entry

def TranscriptEntry.isUser : TranscriptEntry → Bool
  | .text passage => passage.kind == .user
  | _ => false

def Transcript.isOpen (self : Transcript) (index : Nat) : TranscriptEntry → Bool
  | .toolCall id _ => self.openToolCalls id == some index
  | _ => false

/-- The first block, counted from one, that is kept beside a summary: the latest instruction or an
open tool call before it. -/
def Transcript.retainFrom (self : Transcript) : Nat :=
  let latest := match self.entries.reverse.findIdx? TranscriptEntry.isUser with
    | some index => self.entries.length - index
    | none => max 1 self.entries.length
  self.entries.zipIdx.foldl
    (fun first item => if self.isOpen item.2 item.1 then min first (item.2 + 1) else first) latest

def updateCompaction (self : Transcript) (id : String) (data : Value) : Transcript :=
  match self.entries.findIdx? (TranscriptEntry.isCompaction id) with
  | some index => { self with entries := self.entries.modify index (.replaceCompaction data) }
  | none => { self with entries := self.entries ++ [.compaction id data self.retainFrom] }

def appendChunk (self : Transcript) (kind : TextKind) (data : Value) : Transcript :=
  match chunkText data with
  | some text => appendText self kind text
  | none => self

def Transcript.record (self : Transcript) : Event → Transcript
  | .compactionUpdated id data => updateCompaction self id data
  | .chunk data => appendChunk self .assistant data
  | .userChunk data => appendChunk self .user data
  | .thoughtChunk data => appendChunk self .reasoning data
  | .toolCallStarted data => mergeToolCall self data
  | .toolCallFinished data =>
    let merged := mergeToolCall self data
    match toolCallId data with
    | some id => { merged with openToolCalls := Function.update merged.openToolCalls id none }
    | none => merged
  | .other => self

def Transcript.recordUser (self : Transcript) (text : Option Value) : Transcript :=
  match filled text with
  | some text => appendText self .user text
  | none => self

def Transcript.recordHandoff (self : Transcript) (text source : Option Value) : Transcript :=
  match filled text, filled source with
  | some text, some source => { self with entries := self.entries ++ [.text ⟨.user, text, source⟩] }
  | _, _ => self

/-! ### Runs -/

inductive Call where
  | record (event : Event)
  | recordUser (text : Option Value)
  | recordHandoff (text source : Option Value)

def Call.apply (self : Transcript) : Call → Transcript
  | .record event => self.record event
  | .recordUser text => self.recordUser text
  | .recordHandoff text source => self.recordHandoff text source

/-- The text that a call has to record. -/
def Call.said : Call → Option Passage
  | .record (.chunk data) => (chunkText data).map (⟨.assistant, ·, none⟩)
  | .record (.userChunk data) => (chunkText data).map (⟨.user, ·, none⟩)
  | .record (.thoughtChunk data) => (chunkText data).map (⟨.reasoning, ·, none⟩)
  | .record _ => none
  | .recordUser text => (filled text).map (⟨.user, ·, none⟩)
  | .recordHandoff text source =>
    (filled text).bind fun text => (filled source).map (⟨.user, text, some ·⟩)

/-- What a call has of a tool call. -/
def Call.payload : Call → Option Value
  | .record (.toolCallStarted data) => some data
  | .record (.toolCallFinished data) => some data
  | _ => none

def Call.toolCall (call : Call) : Option String := call.payload.bind toolCallId

/-- The tool call that is finished with a call. -/
def Call.finishes : Call → Option String
  | .record (.toolCallFinished data) => toolCallId data
  | _ => none

/-- A transcript, with the calls so far and how many blocks there were as each tool call was first
seen. -/
structure System where
  transcript : Transcript
  calls : List Call
  seenAt : String → Option Nat

def System.new : System := ⟨.new, [], fun _ => none⟩

/-- Where the tool calls of a call were first seen. -/
def System.see (system : System) (call : Call) : String → Option Nat :=
  match call.toolCall with
  | some id =>
    Function.update system.seenAt id ((system.seenAt id).or (some system.transcript.entries.length))
  | none => system.seenAt

def System.step (system : System) (call : Call) : System :=
  ⟨call.apply system.transcript, system.calls ++ [call], system.see call⟩

def TranscriptEntry.passage? : TranscriptEntry → Option Passage
  | .text passage => some passage
  | _ => none

def TranscriptEntry.toolCall? : TranscriptEntry → Option (String × (Key → Option Value))
  | .toolCall id raw => some (id, raw)
  | _ => none

def passages (entries : List TranscriptEntry) : List Passage :=
  entries.filterMap TranscriptEntry.passage?

def joined (kind : TextKind) (passages : List Passage) : String :=
  String.join ((passages.filter (·.kind = kind)).map Passage.text)

def handoffs (passages : List Passage) : List Passage := passages.filter (·.handoffSource.isSome)

/-- What the calls have of one tool call. -/
def payloads (id : String) (calls : List Call) : List Value :=
  (calls.filterMap Call.payload).filter (toolCallId · = some id)

/-- The last value that was sent under each key of a tool call. The name of the notification is
none of its fields. -/
def sent (id : String) (calls : List Call) : Key → Option Value := fun key =>
  if key = .str "sessionUpdate" then none else ((payloads id calls).filterMap (·.get key)).getLast?

/-- The texts are those of their authors, each Handoff is as it was recorded, and each tool call
has one block, where it was first seen, with what was sent last. -/
structure Attributed (system : System) : Prop where
  texts : ∀ kind, joined kind (passages system.transcript.entries) =
    joined kind (system.calls.filterMap Call.said)
  handoffs : handoffs (passages system.transcript.entries) =
      handoffs (system.calls.filterMap Call.said)
  toolCalls : ∀ id index raw, system.transcript.entries[index]? = some (.toolCall id raw) ↔
    system.seenAt id = some index ∧ raw = sent id system.calls

/-- No text is there to go on with a Handoff. -/
def Authored (self : Transcript) (call : Call) : Prop :=
  ∀ passage last, call.said = some passage → passage.handoffSource = none → passage.text ≠ "" →
    self.entries.getLast? = some (.text last) → last.kind = passage.kind → last.handoffSource = none

/-- Nothing comes of a tool call that was finished. -/
def Unfinished (calls : List Call) (call : Call) : Prop :=
  ∀ id, call.toolCall = some id → ∀ earlier ∈ calls, earlier.finishes ≠ some id

def Fair (system : System) (call : Call) : Prop :=
  Authored system.transcript call ∧ Unfinished system.calls call

/-! ### Texts -/

theorem passages_append (es : List TranscriptEntry) (e : TranscriptEntry) :
    passages (es ++ [e]) = passages es ++ e.passage?.toList := by
  simp only [passages, filterMap_append]
  cases h : e.passage? <;> simp [h]

/-- What is changed in place keeps what it is seen as. -/
theorem filterMap_modify {α β : Type} {v : α → Option β} {c : α → α} (h : ∀ x, v (c x) = v x)
    (xs : List α) (i : Nat) : (xs.modify i c).filterMap v = xs.filterMap v := by
  induction xs generalizing i with
  | nil => cases i <;> rfl
  | cons x xs ih =>
    cases i with
    | zero => simp [filterMap_cons, h]
    | succ i => simp [filterMap_cons, ih]

theorem joined_append (k : TextKind) (x s : List Passage) :
    joined k (x ++ s) = joined k x ++ joined k s := by
  simp [joined, String.join_append]

theorem handoffs_append (x s : List Passage) :
    handoffs (x ++ s) = handoffs x ++ handoffs s := filter_append ..

/-- A text has a block of its own, or goes on with the last one. -/
theorem appendText_cases (self : Transcript) (kind : TextKind) (text : String) :
    (appendText self kind text =
          { self with entries := self.entries ++ [.text ⟨kind, text, none⟩] } ∧
        ∀ last, self.entries.getLast? = some (.text last) → last.kind ≠ kind) ∨
      ∃ init last, self.entries = init ++ [.text last] ∧ last.kind = kind ∧
        appendText self kind text =
          { self with entries := init ++ [.text { last with text := last.text ++ text }] } := by
  unfold appendText
  split
  · next last hl =>
    split
    · next hk =>
      obtain ⟨init, hi⟩ := List.getLast?_eq_some_iff.mp hl
      exact .inr ⟨init, last, hi, hk, by rw [hi, dropLast_concat]⟩
    · next hk =>
      refine .inl ⟨rfl, fun o ho => ?_⟩
      cases hl.symm.trans ho
      exact hk
  · next hl => exact .inl ⟨rfl, fun last h => absurd h (hl last)⟩

/-- What a call that is about no tool call does. -/
inductive Recorded (self : Transcript) : Option Passage → Transcript → Prop where
  | text (kind : TextKind) (text : String) :
    Recorded self (some ⟨kind, text, none⟩) (appendText self kind text)
  | handoff (passage : Passage) : passage.handoffSource.isSome = true →
    Recorded self (some passage) { self with entries := self.entries ++ [.text passage] }
  | compaction (id : String) (data : Value) : Recorded self none (updateCompaction self id data)
  | nothing : Recorded self none self

theorem appendChunk_recorded (s : Transcript) (k : TextKind) (d : Value) :
    Recorded s ((chunkText d).map (⟨k, ·, none⟩)) (appendChunk s k d) := by
  unfold appendChunk
  cases chunkText d with
  | none => exact .nothing
  | some t => exact .text k t

theorem Call.recorded (se : Transcript) {call : Call} (h : call.toolCall = none) :
    Recorded se call.said (call.apply se) := by
  cases call with
  | record e =>
    cases e with
    | compactionUpdated id d => exact .compaction id d
    | chunk d => exact appendChunk_recorded se _ d
    | userChunk d => exact appendChunk_recorded se _ d
    | thoughtChunk d => exact appendChunk_recorded se _ d
    | toolCallStarted d =>
      have hi : toolCallId d = none := h
      simpa [apply, Transcript.record, mergeToolCall, hi, said] using Recorded.nothing
    | toolCallFinished d =>
      have hi : toolCallId d = none := h
      simpa [apply, Transcript.record, mergeToolCall, hi, said] using Recorded.nothing
    | other => exact .nothing
  | recordUser t =>
    simp only [apply, said, Transcript.recordUser]
    cases filled t with
    | none => exact .nothing
    | some t => exact .text .user t
  | recordHandoff t s =>
    simp only [apply, said, Transcript.recordHandoff]
    cases filled t with
    | none => exact .nothing
    | some t =>
      cases filled s with
      | none => exact .nothing
      | some s => exact .handoff _ rfl

theorem merge_passage? (d : Value) (e : TranscriptEntry) : (e.merge d).passage? = e.passage? := by
  cases e <;> rfl

/-- A call about a tool call merges what was sent of it, and closes it where it is finished. -/
theorem Call.merged (s : Transcript) {call : Call} {id : String}
    (h : call.toolCall = some id) : call.said = none ∧ ∃ d, call.payload = some d ∧
      toolCallId d = some id ∧ (call.apply s).entries = (mergeToolCall s d).entries ∧
      (call.apply s).openToolCalls = if call.finishes = some id then
        Function.update (mergeToolCall s d).openToolCalls id none
        else (mergeToolCall s d).openToolCalls := by
  obtain ⟨d, hp, hi⟩ := bind_eq_some_iff.mp h
  cases call with
  | record e =>
    cases e with
    | toolCallStarted o => cases hp; exact ⟨rfl, d, rfl, hi, rfl, rfl⟩
    | toolCallFinished o =>
      cases hp
      refine ⟨rfl, d, rfl, hi, ?_, ?_⟩ <;>
        simp [apply, Transcript.record, hi, finishes]
    | _ => cases hp
  | _ => cases hp

theorem mergeToolCall_passages (s : Transcript) (d : Value) :
    passages (mergeToolCall s d).entries = passages s.entries := by
  unfold mergeToolCall
  split
  · rfl
  · split
    · exact filterMap_modify (merge_passage? d) _ _
    · simp [passages, TranscriptEntry.merge, TranscriptEntry.passage?]

theorem updateCompaction_passages (s : Transcript) (id : String) (d : Value) :
    passages (updateCompaction s id d).entries = passages s.entries := by
  have hk : ∀ e : TranscriptEntry, (e.replaceCompaction d).passage? = e.passage? := by
    intro e
    cases e <;> rfl
  unfold updateCompaction
  split
  · exact filterMap_modify hk _ _
  · simp [passages, TranscriptEntry.passage?]

/-- The texts of every kind are those that were there with the one that is recorded. -/
theorem Recorded.joined {self l : Transcript} {said : Option Passage}
    (h : Recorded self said l) (kind : TextKind) : joined kind (passages l.entries) =
      Transcripts.joined kind (passages self.entries) ++ Transcripts.joined kind said.toList := by
  cases h with
  | text o text =>
    rcases appendText_cases self o text with ⟨ha, -⟩ | ⟨init, last, hi, hk, ha⟩
    · rw [ha, passages_append, joined_append]
      rfl
    · have hs : passages self.entries = passages init ++ [last] := by
        rw [hi]
        exact passages_append init (.text last)
      rw [ha, passages_append, hs, joined_append, joined_append, String.append_assoc]
      congr 1
      by_cases hsa : o = kind <;>
        simp [Transcripts.joined, TranscriptEntry.passage?, hk, hsa, String.join_cons]
  | handoff p => rw [passages_append, joined_append]; rfl
  | compaction id data =>
    rw [updateCompaction_passages]
    exact (String.append_empty).symm
  | nothing => exact (String.append_empty).symm

/-- The Handoffs stay as they are exactly where no text goes on with one. -/
theorem Recorded.handoffs_iff {self l : Transcript} {said : Option Passage}
    (h : Recorded self said l) :
    handoffs (passages l.entries) = handoffs (passages self.entries) ++ handoffs said.toList ↔
      ∀ p last, said = some p → p.handoffSource = none → p.text ≠ "" →
        self.entries.getLast? = some (.text last) → last.kind = p.kind →
        last.handoffSource = none := by
  cases h with
  | text kind text =>
    rcases appendText_cases self kind text with ⟨ha, ho⟩ | ⟨init, last, hi, hk, ha⟩
    · rw [ha, passages_append, handoffs_append]
      refine iff_of_true rfl fun p last hs _ _ hl hsa => ?_
      cases hs
      exact absurd hsa (ho last hl)
    · have he : passages self.entries = passages init ++ [last] := by
        rw [hi]
        exact passages_append init (.text last)
      have hl : self.entries.getLast? = some (.text last) := by rw [hi]; simp
      rw [ha, passages_append, he, handoffs_append, handoffs_append, hl,
        append_assoc, append_cancel_left_eq]
      have hsa : handoffs [{ last with text := last.text ++ text }] =
          handoffs [last] ++ handoffs [⟨kind, text, none⟩] ↔
            (text ≠ "" → last.handoffSource = none) := by
        obtain ⟨lk, pre, s⟩ := last
        cases s <;> simp [handoffs]
      refine hsa.trans ⟨fun h p o hs _ ht ho _ => ?_, fun h ht => h _ last rfl rfl ht rfl hk⟩
      cases hs
      cases ho
      exact h ht
  | handoff p hso =>
    rw [passages_append, handoffs_append]
    refine iff_of_true rfl fun o last hs hn => ?_
    cases hs
    rw [hn] at hso
    cases hso
  | compaction id data =>
    rw [updateCompaction_passages]
    exact iff_of_true (append_nil _).symm nofun
  | nothing => exact iff_of_true (append_nil _).symm nofun

/-! ### Tool calls -/

/-- A block that is not of a tool call leaves where those of it are. -/
theorem getElem?_append_iff {e : TranscriptEntry} {id : String}
    (h : ∀ raw, e ≠ .toolCall id raw) (es : List TranscriptEntry) (i : Nat)
    (raw : Key → Option Value) : (es ++ [e])[i]? = some (.toolCall id raw) ↔
      es[i]? = some (.toolCall id raw) := by
  rcases Nat.lt_trichotomy i es.length with hl | rfl | hg
  · rw [List.getElem?_append_left hl]
  · rw [List.getElem?_concat_length, List.getElem?_eq_none (Nat.le_refl _)]
    exact iff_of_false (fun heq => h raw (Option.some.inj heq)) nofun
  · rw [List.getElem?_eq_none (by simp; omega), List.getElem?_eq_none (by omega)]

/-- What is recorded otherwise leaves the tool calls as they are. -/
theorem Recorded.toolCalls {self l : Transcript} {said : Option Passage}
    (h : Recorded self said l) : l.openToolCalls = self.openToolCalls ∧ ∀ (id : String) (i : Nat)
      (raw : Key → Option Value), l.entries[i]? = some (.toolCall id raw) ↔
          self.entries[i]? = some (.toolCall id raw) := by
  cases h with
  | text kind text =>
    rcases appendText_cases self kind text with ⟨ha, -⟩ | ⟨init, last, hi, -, ha⟩
    · rw [ha]
      exact ⟨rfl, fun id i raw => getElem?_append_iff (by simp) _ i raw⟩
    · rw [ha, hi]
      refine ⟨rfl, fun id i raw => ?_⟩
      rw [getElem?_append_iff (by simp), getElem?_append_iff (by simp)]
  | handoff p => exact ⟨rfl, fun id i raw => getElem?_append_iff (by simp) _ i raw⟩
  | compaction id data =>
    unfold updateCompaction
    split
    · next x _ =>
      refine ⟨rfl, fun o i raw => ?_⟩
      rw [List.getElem?_modify]
      cases self.entries[i]? with
      | none => rfl
      | some e =>
        cases e with
        | compaction => by_cases ht : x = i <;> simp [TranscriptEntry.replaceCompaction, ht]
        | _ => simp [TranscriptEntry.replaceCompaction]
    · exact ⟨rfl, fun o i raw => getElem?_append_iff (by simp) _ i raw⟩
  | nothing => exact ⟨rfl, fun _ _ _ => Iff.rfl⟩

theorem payloads_concat (id : String) (c : List Call) (call : Call) : payloads id (c ++ [call]) =
      payloads id c ++ (call.payload.filter (toolCallId · = some id)).toList := by
  simp only [payloads, filterMap_append, filter_append]
  cases h : call.payload with
  | none => simp [h]
  | some d => by_cases hi : toolCallId d = some id <;> simp [h, hi, Option.filter]

theorem sent_concat_of_ne {id : String} {call : Call} (h : call.toolCall ≠ some id)
    (c : List Call) : sent id (c ++ [call]) = sent id c := by
  have hn : call.payload.filter (toolCallId · = some id) = none := by
    refine filter_eq_none_iff.mpr fun d hd hi => h ?_
    rw [Call.toolCall, hd]
    exact of_decide_eq_true hi
  unfold sent
  rw [payloads_concat, hn, toList_none, append_nil]

theorem sent_concat {id : String} {call : Call} {d : Value} (h : call.payload = some d)
    (hi : toolCallId d = some id) (c : List Call) :
    sent id (c ++ [call]) = mergeFields d (sent id c) := by
  funext key
  simp only [sent, mergeFields, payloads_concat, h, filter_some, hi, decide_true, if_true,
    toList_some, filterMap_append, List.getLast?_append]
  split
  · rfl
  · cases hg : d.get key <;> simp [hg]

theorem sent_eq_none {id : String} {c : List Call}
    (h : ∀ call ∈ c, call.toolCall ≠ some id) : sent id c = fun _ => none := by
  have hn : payloads id c = [] := by
    refine filter_eq_nil_iff.mpr fun d hd hi => ?_
    obtain ⟨call, hc, hp⟩ := mem_filterMap.mp hd
    refine h call hc ?_
    rw [Call.toolCall, hp]
    exact of_decide_eq_true hi
  funext key
  simp [sent, hn]

theorem Call.toolCall_of_finishes {call : Call} {id : String} (h : call.finishes = some id) :
    call.toolCall = some id := by
  cases call with
  | record e =>
    cases e with
    | toolCallFinished d => exact h
    | _ => cases h
  | _ => cases h

/-- Where a tool call is merged, it is open unless it is finished, and the others stay as they
are. -/
theorem Call.opened (s : Transcript) {call : Call} {id : String} (h : call.toolCall = some id)
    (o : String) : (call.apply s).openToolCalls o =
      if o = id then
        if call.finishes = some id then none
        else some ((s.openToolCalls id).getD s.entries.length)
      else s.openToolCalls o := by
  obtain ⟨-, d, -, hd, -, hop⟩ := call.merged s h
  have hm : (mergeToolCall s d).openToolCalls = Function.update s.openToolCalls id
      (some ((s.openToolCalls id).getD s.entries.length)) := by
    simp only [mergeToolCall, hd]
    cases hi : s.openToolCalls id with
    | none => rfl
    | some i => exact (Function.update_eq_self_iff.mpr hi.symm).symm
  rw [hop, hm]
  split <;> by_cases ho : o = id <;> simp [ho]

/-! ### Every run -/

/-- What a run keeps: besides what is attributed, which tool calls were seen and are open. -/
structure Kept (system : System) : Prop extends Attributed system where
  seen : ∀ id, system.seenAt id = none ↔ ∀ call ∈ system.calls, call.toolCall ≠ some id
  opened : ∀ id, (∀ call ∈ system.calls, call.finishes ≠ some id) →
    system.transcript.openToolCalls id = system.seenAt id
  closed : ∀ id, ∀ call ∈ system.calls, call.finishes = some id →
    system.transcript.openToolCalls id = none

section

variable {sys : System} {ca : Call}

theorem texts_step (h : Attributed sys) (ca : Call) (k : TextKind) :
    joined k (passages (sys.step ca).transcript.entries) =
      joined k ((sys.step ca).calls.filterMap Call.said) := by
  have ht : joined k (passages (ca.apply sys.transcript).entries) =
      joined k (passages sys.transcript.entries) ++ joined k ca.said.toList := by
    cases hc : ca.toolCall with
    | none => exact (Call.recorded _ hc).joined k
    | some id =>
      obtain ⟨hs, d, -, -, he, -⟩ := ca.merged sys.transcript hc
      rw [he, mergeToolCall_passages, hs]
      exact (String.append_empty).symm
  simp only [System.step, ht, h.texts, filterMap_append, joined_append]
  cases hs : ca.said <;> simp [hs]

theorem handoffs_step (h : Attributed sys) (ca : Call) :
    handoffs (passages (sys.step ca).transcript.entries) =
      handoffs ((sys.step ca).calls.filterMap Call.said) ↔ Authored sys.transcript ca := by
  have ht : handoffs (passages (ca.apply sys.transcript).entries) =
      handoffs (passages sys.transcript.entries) ++ handoffs ca.said.toList ↔
        Authored sys.transcript ca := by
    cases hc : ca.toolCall with
    | none => exact (Call.recorded _ hc).handoffs_iff
    | some id =>
      obtain ⟨hs, d, -, -, he, -⟩ := ca.merged sys.transcript hc
      rw [he, mergeToolCall_passages, Authored, hs]
      exact iff_of_true (append_nil _).symm nofun
  rw [← ht, h.handoffs]
  simp only [System.step, filterMap_append, handoffs_append]
  cases hs : ca.said <;> simp [hs]

theorem see_of_none (h : ca.toolCall = none) : (sys.step ca).seenAt = sys.seenAt := by
  simp only [System.step, System.see, h]

theorem see_of_some {id : String} (h : ca.toolCall = some id) (o : String) :
    (sys.step ca).seenAt o = if o = id then
      some ((sys.seenAt id).getD sys.transcript.entries.length)
      else sys.seenAt o := by
  simp only [System.step, System.see, h, Function.update_apply]
  cases sys.seenAt id <;> rfl

/-- A call that is about no tool call leaves what is known of them. -/
theorem Kept.quiet (h : Kept sys) (hc : ca.toolCall = none)
    (ha : Authored sys.transcript ca) : Kept (sys.step ca) := by
  obtain ⟨ho, hs⟩ := (Call.recorded sys.transcript hc).toolCalls
  have hf : ∀ id, ca.finishes ≠ some id := by
    intro id hi
    cases hc.symm.trans (Call.toolCall_of_finishes hi)
  refine ⟨⟨texts_step h.toAttributed ca, (handoffs_step h.toAttributed ca).mpr ha,
    fun id i raw => ?_⟩, fun id => ?_, fun id hi => ?_, fun id e he hi => ?_⟩
  · rw [see_of_none hc]
    exact (hs id i raw).trans ((h.toolCalls id i raw).trans (by
      rw [System.step, sent_concat_of_ne (by simp [hc])]))
  · rw [see_of_none hc, h.seen]
    simp only [System.step, forall_mem_append, forall_mem_singleton, hc]
    exact ⟨fun hall => ⟨hall, nofun⟩, fun hall => hall.1⟩
  · rw [see_of_none hc, ← h.opened id fun e he =>
      hi e (mem_append_left _ he)]
    exact congrFun ho id
  · rcases mem_append.mp he with he | hl
    · exact (congrFun ho id).trans (h.closed id e he hi)
    · rw [mem_singleton.mp hl] at hi
      exact absurd hi (hf id)

/-- Where a tool call is merged that was not finished, its block is the one that was first seen. -/
theorem Kept.merged (h : Kept sys) {id : String} (hc : ca.toolCall = some id)
    (hop : sys.transcript.openToolCalls id = sys.seenAt id) (o : String) (i : Nat)
    (raw : Key → Option Value) : (sys.step ca).transcript.entries[i]? = some (.toolCall o raw) ↔
      (sys.step ca).seenAt o = some i ∧ raw = sent o (sys.step ca).calls := by
  obtain ⟨-, d, hp, hd, hes, -⟩ := ca.merged sys.transcript hc
  have hsn : sent id (sys.calls ++ [ca]) = mergeFields d (sent id sys.calls) :=
    sent_concat hp hd _
  have ho : o ≠ id → sent o (sys.calls ++ [ca]) = sent o sys.calls :=
    fun hne => sent_concat_of_ne (by simpa [hc] using hne.symm) _
  rw [see_of_some hc]
  simp only [System.step, hes, mergeToolCall, hd, hop]
  cases hse : sys.seenAt id with
  | some x =>
    have hf := (h.toolCalls id x _).mpr ⟨hse, rfl⟩
    simp only [List.getElem?_modify, getD_some]
    by_cases hi : x = i
    · subst hi
      by_cases hs : o = id
      · subst hs
        simp [hf, TranscriptEntry.merge, hsn, eq_comm]
      · have hne : sys.seenAt o ≠ some x := by
          intro hs'
          have heq := hf.symm.trans ((h.toolCalls o x _).mpr ⟨hs', rfl⟩)
          simp [Ne.symm hs] at heq
        simp [hf, TranscriptEntry.merge, hs, Ne.symm hs, hne]
    · simp only [if_neg hi, id_map', h.toolCalls]
      by_cases hs : o = id
      · subst hs
        simp [hse, hi]
      · rw [if_neg hs, ho hs]
  | none =>
    by_cases hs : o = id
    · subst hs
      have hn : ∀ (i : Nat) (raw : Key → Option Value),
          sys.transcript.entries[i]? ≠ some (.toolCall o raw) :=
        fun i raw heq => by cases hse.symm.trans ((h.toolCalls _ _ _).mp heq).1
      have he : sent o sys.calls = fun _ => none := sent_eq_none ((h.seen o).mp hse)
      rw [if_pos rfl, getD_none, hsn, he]
      rcases Nat.lt_trichotomy i sys.transcript.entries.length with hl | rfl | hg
      · rw [List.getElem?_append_left hl]
        exact iff_of_false (hn _ _) fun heq => by simp at heq; omega
      · simp [TranscriptEntry.merge, eq_comm]
      · rw [List.getElem?_eq_none (by simp; omega)]
        exact iff_of_false (by simp) fun heq => by simp at heq; omega
    · rw [getElem?_append_iff (by simp [TranscriptEntry.merge, Ne.symm hs]), h.toolCalls,
        if_neg hs, ho hs]

theorem Kept.tool (h : Kept sys) {id : String} (hc : ca.toolCall = some id)
    (ha : Authored sys.transcript ca) (hu : Unfinished sys.calls ca) : Kept (sys.step ca) := by
  have hi := hu id hc
  have hop := h.opened id hi
  have hla : ∀ o, (sys.step ca).transcript.openToolCalls o = _ :=
    Call.opened sys.transcript hc
  refine ⟨⟨texts_step h.toAttributed ca, (handoffs_step h.toAttributed ca).mpr ha,
    h.merged hc hop⟩, fun o => ?_, fun o ho => ?_, fun o e he ho => ?_⟩
  · rw [see_of_some hc]
    by_cases hs : o = id
    · subst hs
      simp [System.step, hc]
    · rw [if_neg hs, h.seen]
      simp only [System.step, forall_mem_append, forall_mem_singleton, hc]
      exact ⟨fun hall => ⟨hall, by simpa using Ne.symm hs⟩, fun hall => hall.1⟩
  · have hl := ho ca (mem_append_right _ (mem_singleton_self _))
    rw [see_of_some hc, hla, hop]
    by_cases hs : o = id
    · rw [if_pos hs, if_pos hs, if_neg (hs ▸ hl)]
    · rw [if_neg hs, if_neg hs, h.opened o fun e he =>
        ho e (mem_append_left _ he)]
  · rw [hla]
    rcases mem_append.mp he with he | hl
    · have hn : o ≠ id := by
        rintro rfl
        exact hi e he ho
      rw [if_neg hn, h.closed o e he ho]
    · rw [mem_singleton.mp hl] at ho
      have hs := Call.toolCall_of_finishes ho
      rw [hc, Option.some.injEq] at hs
      rw [if_pos hs.symm, if_pos (hs ▸ ho)]

/-- A tool call that was finished gets a second block. -/
theorem Kept.not_attributed (h : Kept sys) (hu : ¬Unfinished sys.calls ca) :
    ¬Attributed (sys.step ca) := by
  simp only [Unfinished, not_forall, not_not] at hu
  obtain ⟨id, hc, e, he, hf⟩ := hu
  obtain ⟨-, d, -, hd, hes, -⟩ := ca.merged sys.transcript hc
  intro hn
  cases hs : sys.seenAt id with
  | none =>
    exact (h.seen id).mp hs e he (Call.toolCall_of_finishes hf)
  | some x =>
    have hi := (h.toolCalls id x _).mpr ⟨hs, rfl⟩
    have hl := (hn.toolCalls id sys.transcript.entries.length (mergeFields d fun _ => none)).mp (by
        simp [System.step, hes, mergeToolCall, hd, h.closed id e he hf, TranscriptEntry.merge])
    rw [see_of_some hc, if_pos rfl, hs, getD_some, Option.some.injEq] at hl
    rw [hl.1, List.getElem?_eq_none (Nat.le_refl _)] at hi
    cases hi

/-- What each call keeps, or breaks. -/
theorem Kept.step (h : Kept sys) (ca : Call) : (Fair sys ca ∧ Kept (sys.step ca)) ∨
      (¬Fair sys ca ∧ ¬Attributed (sys.step ca)) := by
  by_cases ha : Authored sys.transcript ca
  · by_cases hu : Unfinished sys.calls ca
    · refine .inl ⟨⟨ha, hu⟩, ?_⟩
      cases hc : ca.toolCall with
      | none => exact h.quiet hc ha
      | some id => exact h.tool hc ha hu
    · exact .inr ⟨fun hf => hu hf.2, h.not_attributed hu⟩
  · exact .inr ⟨fun hf => ha hf.1, fun hn =>
      ha ((handoffs_step h.toAttributed ca).mp hn.handoffs)⟩

/-- Along every run what is recorded is attributed exactly where no text comes right after a
Handoff of its kind and nothing comes of a tool call that was finished. -/
theorem attributed_iff_fair (calls : List Call) :
    Always System.step Attributed .new calls ↔ Throughout System.step Fair .new calls := by
  have hr : ∀ sys : System, Kept sys →
      (Always System.step Attributed sys calls ↔ Throughout System.step Fair sys calls) := by
    induction calls with
    | nil => exact fun sys h => ⟨fun _ => trivial, fun _ => h.toAttributed⟩
    | cons ca calls ih =>
      intro sys h
      rcases h.step ca with ⟨hf, hn⟩ | ⟨hu, hb⟩
      · exact ⟨fun ha => ⟨hf, (ih _ hn).mp ha.2⟩, fun hc => ⟨h.toAttributed, (ih _ hn).mpr hc.2⟩⟩
      · exact ⟨fun ha => absurd ha.2.first hb, fun hc => absurd hc.1 hu⟩
  refine hr .new ⟨⟨fun _ => rfl, rfl, fun id i raw => ?_⟩, fun id => ?_, fun _ _ => rfl,
    fun _ _ => nofun⟩
  · exact iff_of_false nofun nofun
  · exact iff_of_true rfl (forall_mem_nil _)

end

/-! ### A Handoff and a late update -/

/-- What is typed right after a Handoff stands in it, and what comes of a tool call after it is
finished is a second block. -/
theorem not_attributed_sample :
    ¬Always System.step Attributed .new [.recordHandoff (some (.str "reviewed")) (some (.str "s")),
      .recordUser (some (.str "mine"))] ∧ ¬Always System.step Attributed .new
      [.record (.toolCallFinished (.table [(.str "toolCallId", .str "t")])),
        .record (.toolCallStarted (.table [(.str "toolCallId", .str "t")]))] := by
  refine ⟨fun h => ?_, fun h => ?_⟩
  · exact absurd h.last.handoffs (by decide)
  · have hc := h.last.toolCalls "t" 1 (mergeFields (.table [(.str "toolCallId", .str "t")])
      fun _ => none)
    have hs := (hc.mp rfl).1
    exact absurd hs (by decide +kernel)

end Louiselm.Session.Transcripts
