import Louiselm.Base.Runs
import Mathlib.Logic.Function.Basic

/-!
# Calls in recorded ACP frames

`usage-cli/src/parse/acp.rs`: the frames of any number of Sessions, read one after another, and the
call records made of them. Which prompt a response answers is not in the frame; it stands beside it
here, to say what a call's prompt is. The measures of commands and outputs are left out.
-/

namespace Louiselm.Usage.Acp
open Base List Option Function

/-! ### Frames -/

/-- What an update says. `toolName` is the Claude metadata, where it is a text. -/
structure Update where
  sessionUpdate : Option String
  toolCallId : Option String
  toolName : Option String
  name : Option String
  status : Option String
deriving DecidableEq

/-- One recorded event. `answers` is the Session whose prompt an Agent's response is to. -/
structure Event where
  kind : String
  method : Option String
  id : Option String
  paramsSession : Option String
  eventSession : Option String
  update : Update
  answers : Option String
deriving DecidableEq

/-- The Session that an event names. -/
def Event.session (event : Event) : Option String := event.paramsSession <|> event.eventSession

/-- One call record. -/
structure Call where
  id : String
  sessionId : String
  nativeSessionId : String
  adapter : String
  rpcRequestId : Option String
  tool : String
  level : String
  status : String
  evidence : List Nat
deriving DecidableEq

/-- One Session of the records. -/
structure Session where
  id : String
  nativeId : String
  adapter : String
deriving DecidableEq

/-- What was read so far. -/
structure State where
  prompts : String → Option String
  sessions : String → Option Session
  calls : String → Option Call
  notes : List String

namespace State

def new : State := ⟨fun _ => none, fun _ => none, fun _ => none, []⟩

def note (state : State) (text : String) : State := { state with notes := state.notes ++ [text] }

/-- The Session of an adapter. -/
def sessionIdOf (adapter session : String) : String := adapter ++ ":" ++ session

/-- The call of an adapter's Session. -/
def callIdOf (adapter session call : String) : String :=
  sessionIdOf adapter session ++ ":call:" ++ call

/-- The adapter that an update is of. -/
def adapterOf (update : Update) : String := if update.toolName.isSome then "claude" else "acp"

/-- The record that an update is about. Later updates can omit metadata already supplied. -/
def recordOf (state : State) (session call : String) (update : Update) : String :=
  if update.toolName.isNone ∧ (state.calls (callIdOf "claude" session call)).isSome then
    callIdOf "claude" session call
  else callIdOf (adapterOf update) session call

/-- The record that an update is about, a new one where there is none. -/
def callFor (state : State) (session native : String) (update : Update) : Call :=
  let id := state.recordOf session native update
  (state.calls id).getD
    { id
      sessionId := sessionIdOf (adapterOf update) session
      nativeSessionId := session
      adapter := adapterOf update
      rpcRequestId := state.prompts session
      tool := ""
      level := "leaf"
      status := "unobserved"
      evidence := [] }

/-- What an update and the line that it is on say of a call. -/
def said (call : Call) (update : Update) (line : Nat) : Call :=
  let tool := (update.toolName <|> update.name).getD call.tool
  { call with
    tool := if tool = "" then "<acp tool>" else tool
    status := update.status.getD call.status
    evidence := call.evidence ++ [line] }

/-- A tool call, or an update of one. -/
def updateCall (state : State) (session : String) (update : Update) (line : Nat) : State :=
  if update.sessionUpdate ≠ some "tool_call" ∧ update.sessionUpdate ≠ some "tool_call_update" then
    state
  else
    match update.toolCallId with
    | none => state.note "missing_acp_call_id"
    | some native =>
      let adapter := adapterOf update
      let sessionId := sessionIdOf adapter session
      { state with
        sessions := Function.update state.sessions sessionId
          (some ((state.sessions sessionId).getD ⟨sessionId, session, adapter⟩))
        calls := Function.update state.calls (state.recordOf session native update)
          (some (said (state.callFor session native update) update line)) }

/-- Read one event. -/
def consume (state : State) (event : Event) (line : Nat) : State :=
  if event.kind ≠ "frame" then state
  else
    match event.method with
    | some method =>
      if method = "session/prompt" then
        match event.session, event.id with
        | some session, some id =>
          { state with prompts := Function.update state.prompts session (some id) }
        | _, _ => state
      else if method = "session/update" then
        match event.session with
        | some session => state.updateCall session event.update line
        | none => state.note "unassociated_acp_update"
      else state
    | none =>
      match event.id with
      | some request =>
        { state with prompts := fun session =>
            if state.prompts session = some request then none else state.prompts session }
      | none => state

end State

/-! ### What the frames say -/

/-- The call that an event observes. -/
def Event.observed (event : Event) : Option (String × String) :=
  if event.kind = "frame" ∧ event.method = some "session/update" ∧
      (event.update.sessionUpdate = some "tool_call" ∨
        event.update.sessionUpdate = some "tool_call_update") then
    event.session.bind fun session => event.update.toolCallId.map (session, ·)
  else none

/-- The prompts outstanding after an event: a request opens one until the Agent's response to it. -/
def outstandingAfter (outstanding : String → Option String) (event : Event) :
    String → Option String := fun session =>
  if event.kind ≠ "frame" then outstanding session
  else if event.method = some "session/prompt" ∧ event.session = some session then
    event.id <|> outstanding session
  else if event.method = none ∧ event.id ≠ none ∧ event.answers = some session ∧
      outstanding session = event.id then none
  else outstanding session

/-- The code's state, beside what the frames said: the prompts outstanding, and the prompt that was
when each call was first observed. -/
structure Reading where
  state : State
  line : Nat
  outstanding : String → Option String
  first : String × String → Option (Option String)

namespace Reading

def new : Reading := ⟨.new, 0, fun _ => none, fun _ => none⟩

def step (reading : Reading) (event : Event) : Reading :=
  { state := reading.state.consume event reading.line
    line := reading.line + 1
    outstanding := outstandingAfter reading.outstanding event
    first := fun call =>
      if event.observed = some call ∧ reading.first call = none then
        some (reading.outstanding call.1)
      else reading.first call }

/-- Each call that was observed has one record, which names the prompt that was outstanding. -/
def Attributed (reading : Reading) : Prop :=
  ∀ session call rpc, reading.first (session, call) = some rpc →
    ∃ adapter ∈ ["claude", "acp"], ∃ record,
      reading.state.calls (State.callIdOf adapter session call) = some record ∧
        record.nativeSessionId = session ∧ record.rpcRequestId = rpc ∧
        ∀ other ∈ ["claude", "acp"], other ≠ adapter →
          reading.state.calls (State.callIdOf other session call) = none

/-- No other Session's prompt has the identifier of a response; a call has no record without
Claude metadata when they come; and no other Session's call has a record of the same name. -/
structure Unmistaken (reading : Reading) (event : Event) : Prop where
  response : event.kind = "frame" → event.method = none → ∀ session id,
    event.id = some id → reading.state.prompts session = some id → event.answers = some session
  metadata : ∀ session call, event.observed = some (session, call) →
    event.update.toolName.isSome → reading.state.calls (State.callIdOf "acp" session call) = none
  named : ∀ session call, event.observed = some (session, call) → ∀ adapter ∈ ["claude", "acp"],
    ∀ record, reading.state.calls (State.callIdOf adapter session call) = some record →
      record.nativeSessionId = session

/-! ### Names -/

variable {adapter o session call na : String}

theorem callIdOf_eq {s : String} (ha : adapter ∈ ["claude", "acp"]) (ho : o ∈ ["claude", "acp"])
    (h : State.callIdOf adapter session call = State.callIdOf o s na) :
    adapter = o ∧ ∀ a, State.callIdOf a session call = State.callIdOf a s na := by
  have hl := congrArg String.toList h
  simp only [State.callIdOf, State.sessionIdOf, String.toList_append] at hl
  have he : adapter = o := by
    simp only [mem_cons, not_mem_nil, or_false] at ha ho
    rcases ha with rfl | rfl <;> rcases ho with rfl | rfl <;> first | rfl | simp at hl
  subst he
  refine ⟨rfl, fun a => String.toList_inj.mp ?_⟩
  simp only [append_assoc, append_cancel_left_eq] at hl
  simp only [State.callIdOf, State.sessionIdOf, String.toList_append, append_assoc, hl]

theorem callIdOf_inj (h : State.callIdOf adapter session call =
    State.callIdOf adapter session na) : call = na := by
  have hl := congrArg String.toList h
  simp only [State.callIdOf, String.toList_append] at hl
  exact String.toList_inj.mp (append_cancel_left hl)

/-! ### Steps -/

variable {reading : Reading} {e : Event}

/-- An event that observes no call changes no record. -/
theorem calls_consume (h : e.observed = none) (s : State) (l : Nat) :
    (s.consume e l).calls = s.calls := by
  unfold State.consume
  split
  · rfl
  · next hk =>
    rw [not_ne_iff] at hk
    split
    · next m hm =>
      split
      · split <;> rfl
      · split
        · next hu =>
          split
          · next n hs =>
            unfold State.updateCall
            split
            · rfl
            · next ht =>
              split
              · rfl
              · next na hn =>
                have hu' : e.update.sessionUpdate = some "tool_call" ∨
                    e.update.sessionUpdate = some "tool_call_update" := by
                  tauto
                rw [Event.observed, if_pos ⟨hk, by rw [hm, hu], hu'⟩, hs, hn] at h
                simp at h
          · rfl
        · rfl
    · split <;> rfl

/-- A call that is observed is put into the record that it is about. -/
theorem consume_observed (h : e.observed = some (session, call)) (s : State) (l : Nat) :
    s.consume e l = s.updateCall session e.update l ∧ e.update.toolCallId = some call ∧
      ¬(e.update.sessionUpdate ≠ some "tool_call" ∧
        e.update.sessionUpdate ≠ some "tool_call_update") := by
  unfold Event.observed at h
  split at h
  · next hc =>
    obtain ⟨n, hs, hn⟩ := bind_eq_some_iff.mp h
    obtain ⟨id, hi, he⟩ := map_eq_some_iff.mp hn
    obtain ⟨rfl, rfl⟩ := Prod.mk.inj he
    refine ⟨?_, hi, by tauto⟩
    rw [State.consume, if_neg (not_not_intro hc.1), hc.2.1]
    simp [hs]
  · simp at h

@[simp] theorem prompts_updateCall (s : State) (session : String) (u : Update)
    (l : Nat) : (s.updateCall session u l).prompts = s.prompts := by
  unfold State.updateCall
  split
  · rfl
  · split <;> rfl

/-- The prompts that the code keeps are the ones outstanding. -/
theorem prompts_consume (h : reading.Unmistaken e)
    (hp : reading.state.prompts = reading.outstanding) :
    (reading.state.consume e reading.line).prompts = outstandingAfter reading.outstanding e := by
  funext name
  unfold outstandingAfter State.consume
  rw [← hp]
  by_cases hk : e.kind = "frame"
  · rw [if_neg (not_not_intro hk), if_neg (not_not_intro hk)]
    cases hm : e.method with
    | some m =>
      by_cases hr : m = "session/prompt"
      · subst hr
        cases hs : e.session with
        | none => simp
        | some session =>
          cases hi : e.id with
          | none => simp
          | some id =>
            by_cases hn : name = session
            · subst hn
              simp
            · simp [update_of_ne hn, Ne.symm hn]
      · have ho : ¬(some m = some "session/prompt" ∧ e.session = some name) := by
          simp [hr]
        simp only [if_neg hr, if_neg ho]
        split
        · split <;> simp [State.note]
        · simp
    | none =>
      cases hi : e.id with
      | none => simp
      | some id =>
        by_cases hn : reading.state.prompts name = some id
        · simp [hn, h.response hk hm name id hi hn]
        · simp [hn]
  · rw [if_pos hk, if_pos hk]

/-- A record has the name of a call of its Session that was observed. -/
def Named (reading : Reading) (id : String) (record : Call) : Prop :=
  ∃ adapter ∈ ["claude", "acp"], ∃ call, id = State.callIdOf adapter record.nativeSessionId call ∧
      reading.first (record.nativeSessionId, call) ≠ none

/-- What holds in every run whose steps are not mistaken. -/
structure Kept (reading : Reading) : Prop where
  prompts : reading.state.prompts = reading.outstanding
  named : ∀ id record, reading.state.calls id = some record → reading.Named id record
  attributed : reading.Attributed

theorem kept_new : Kept new :=
  ⟨rfl, by simp [new, State.new], by simp [Attributed, new]⟩

/-- A call that was not observed has no record. -/
theorem Kept.calls_eq_none (hk : reading.Kept) (h : reading.Unmistaken e)
    (ho : e.observed = some (session, call)) (hf : reading.first (session, call) = none)
    (ha : adapter ∈ ["claude", "acp"]) :
    reading.state.calls (State.callIdOf adapter session call) = none := by
  rw [eq_none_iff_forall_ne_some]
  intro r hr
  obtain ⟨o, ht, na, hi, hfi⟩ := hk.named _ _ hr
  rw [h.named _ _ ho _ ha _ hr] at hi hfi
  obtain ⟨rfl, -⟩ := callIdOf_eq ha ht hi
  rw [← callIdOf_inj hi] at hfi
  exact hfi hf

/-- Of a call that has one record, an update goes to it; of one that has none, to one of two. -/
theorem recordOf_eq (h : reading.Unmistaken e) (ho : e.observed = some (session, call)) :
    ∃ adapter ∈ ["claude", "acp"], reading.state.recordOf session call e.update =
      State.callIdOf adapter session call ∧ ∀ o ∈ ["claude", "acp"], o ≠ adapter →
        (reading.state.calls (State.callIdOf o session call)).isSome →
          (reading.state.calls (State.callIdOf adapter session call)).isSome := by
  unfold State.recordOf State.adapterOf
  by_cases ht : e.update.toolName.isSome
  · have ha := h.metadata _ _ ho ht
    refine ⟨"claude", by simp, by simp [isNone_eq_false_iff.mpr ht, ht], ?_⟩
    simp [ha]
  · rw [Bool.not_eq_true, isSome_eq_false_iff] at ht
    by_cases hc : (reading.state.calls (State.callIdOf "claude" session call)).isSome
    · exact ⟨"claude", by simp, by simp [ht, hc], by simp [hc]⟩
    · refine ⟨"acp", by simp, ?_, by simp [hc]⟩
      rw [if_neg fun h => hc h.2]
      simp [isNone_iff_eq_none.mp ht]

/-- An observed call's record is put back under its name. -/
theorem calls_step (h : reading.Unmistaken e) (ho : e.observed = some (session, call)) :
    ∃ adapter ∈ ["claude", "acp"], ∃ r,
      (reading.step e).state.calls = Function.update reading.state.calls
        (State.callIdOf adapter session call) (some r) ∧ r.nativeSessionId = session ∧
      (∀ old, reading.state.calls (State.callIdOf adapter session call) = some old →
        r.rpcRequestId = old.rpcRequestId) ∧
      (reading.state.calls (State.callIdOf adapter session call) = none →
        r.rpcRequestId = reading.state.prompts session) ∧ ∀ o ∈ ["claude", "acp"], o ≠ adapter →
        (reading.state.calls (State.callIdOf o session call)).isSome →
          (reading.state.calls (State.callIdOf adapter session call)).isSome := by
  obtain ⟨hc, hn, hu⟩ := consume_observed ho reading.state reading.line
  obtain ⟨adapter, ha, hi, ht⟩ := recordOf_eq h ho
  refine ⟨adapter, ha, State.said (reading.state.callFor session call e.update) e.update
    reading.line, ?_, ?_, ?_, ?_, ht⟩
  · rw [Reading.step, hc, State.updateCall, if_neg hu, hn, ← hi]
  · change (reading.state.callFor session call e.update).nativeSessionId = session
    rw [State.callFor, hi]
    cases hr : reading.state.calls (State.callIdOf adapter session call) with
    | none => rfl
    | some old => exact h.named _ _ ho _ ha _ hr
  · intro old hr
    change (reading.state.callFor session call e.update).rpcRequestId = _
    rw [State.callFor, hi, hr]
    rfl
  · intro hr
    change (reading.state.callFor session call e.update).rpcRequestId = _
    rw [State.callFor, hi, hr]
    rfl

/-- What was observed once stays observed. -/
theorem first_step {key : String × String} (h : reading.first key ≠ none) :
    (reading.step e).first key = reading.first key := if_neg fun hc => h hc.2

/-- Another call that was observed is not touched, whatever the names are made of. -/
theorem Kept.call_eq {s : String} (hk : reading.Kept) (h : reading.Unmistaken e)
    (ho : e.observed = some (session, call)) (hf : reading.first (s, na) ≠ none)
    (ha : adapter ∈ ["claude", "acp"]) (ht : o ∈ ["claude", "acp"])
    (he : State.callIdOf o s na = State.callIdOf adapter session call) :
    (s, na) = (session, call) := by
  obtain ⟨rpc, hr⟩ := ne_none_iff_exists'.mp hf
  obtain ⟨a, hm, r, hc, hn, -, -⟩ := hk.attributed _ _ _ hr
  obtain ⟨rfl, hl⟩ := callIdOf_eq ht ha he
  have hs := h.named _ _ ho a hm r (hl a ▸ hc)
  rw [hn] at hs
  subst hs
  rw [callIdOf_inj he]

theorem Kept.named_step (hk : reading.Kept) (h : reading.Unmistaken e) (id : String) (r : Call)
    (hr : (reading.step e).state.calls id = some r) : (reading.step e).Named id r := by
  have hold (hr : reading.state.calls id = some r) : (reading.step e).Named id r := by
    obtain ⟨a, ha, call, hi, hf⟩ := hk.named id r hr
    exact ⟨a, ha, call, hi, by rwa [first_step hf]⟩
  cases ho : e.observed with
  | none =>
    rw [Reading.step, calls_consume ho] at hr
    exact hold hr
  | some key =>
    obtain ⟨session, call⟩ := key
    obtain ⟨a, ha, new, hc, rfl, -⟩ := calls_step h ho
    rw [hc] at hr
    by_cases hi : id = State.callIdOf a new.nativeSessionId call
    · rw [hi, update_self, some.injEq] at hr
      subst hr
      refine ⟨a, ha, call, hi, ?_⟩
      by_cases hf : reading.first (new.nativeSessionId, call) = none
      · simp [Reading.step, ho, hf]
      · rwa [first_step hf]
    · rw [update_of_ne hi] at hr
      exact hold hr

theorem Kept.attributed_step (hk : reading.Kept) (h : reading.Unmistaken e) :
    (reading.step e).Attributed := by
  intro s na rpc hr
  cases ho : e.observed with
  | none =>
    simp only [Reading.step, ho, reduceCtorEq, false_and, if_false] at hr
    rw [Reading.step, calls_consume ho]
    exact hk.attributed _ _ _ hr
  | some key =>
    obtain ⟨session, call⟩ := key
    obtain ⟨a, ha, new, hc, hn, hold, hw, ht⟩ := calls_step h ho
    by_cases hf : reading.first (s, na) = none
    · have hy : (s, na) = (session, call) := by
        by_contra hne
        simp [Reading.step, ho, hf, Ne.symm hne] at hr
      obtain ⟨rfl, rfl⟩ := Prod.mk.inj hy
      have hno : ∀ {b}, b ∈ ["claude", "acp"] →
          reading.state.calls (State.callIdOf b s na) = none := fun hb =>
        hk.calls_eq_none h ho hf hb
      simp only [Reading.step, ho, hf, and_self, if_true, some.injEq] at hr
      refine ⟨a, ha, new, by rw [hc, update_self], hn, ?_, fun b hb hne => ?_⟩
      · rw [hw (hno ha), hk.prompts, ← hr]
      · rw [hc, update_of_ne fun he => hne (callIdOf_eq hb ha he).1]
        exact hno hb
    · rw [first_step hf] at hr
      obtain ⟨b, hb, r, hrec, hrn, hrr, hre⟩ := hk.attributed _ _ _ hr
      by_cases hy : (s, na) = (session, call)
      · obtain ⟨rfl, rfl⟩ := Prod.mk.inj hy
        have hba : b = a := by
          by_contra hne
          have := ht b hb hne (by rw [hrec]; rfl)
          rw [hre a ha (Ne.symm hne)] at this
          contradiction
        subst hba
        refine ⟨b, hb, new, by rw [hc, update_self], hn, (hold _ hrec).trans hrr,
          fun x hx hne => ?_⟩
        rw [hc, update_of_ne fun he => hne (callIdOf_eq hx ha he).1]
        exact hre x hx hne
      · have hke : ∀ x ∈ ["claude", "acp"], (reading.step e).state.calls
            (State.callIdOf x s na) = reading.state.calls (State.callIdOf x s na) := by
          intro x hx
          rw [hc, update_of_ne fun he => hy (hk.call_eq h ho hf ha hx he)]
        refine ⟨b, hb, r, by rw [hke b hb, hrec], hrn, hrr, fun x hx hne => ?_⟩
        rw [hke x hx, hre x hx hne]

theorem Kept.step (hk : reading.Kept) (h : reading.Unmistaken e) : (reading.step e).Kept :=
  ⟨prompts_consume h hk.prompts, hk.named_step h, hk.attributed_step h⟩

/-- In every run whose events are not mistaken, each call has one record, which names the prompt
that was outstanding when it was first observed. -/
theorem attributed_of_unmistaken (es : List Event)
    (h : Throughout step Unmistaken new es) : Always step Attributed new es :=
  (always_of_throughout (fun _ _ hk hu => hk.step hu) kept_new h).mono fun _ hk => hk.attributed

/-! ### Two Sessions with one number, and metadata that come late -/

private def plain : Update := ⟨none, none, none, none, none⟩

private def prompt (session id : String) : Event :=
  ⟨"frame", some "session/prompt", some id, some session, none, plain, none⟩

private def tool (session call : String) (toolName : Option String) : Event :=
  ⟨"frame", some "session/update", none, some session, none,
    ⟨some "tool_call", some call, toolName, some "shell", none⟩, none⟩

/-- The response to one Session's prompt ends the prompt of another that has its number. -/
def sampleShared : List Event :=
  [prompt "a" "8", prompt "b" "8", ⟨"frame", none, some "8", none, none, plain, some "b"⟩,
    tool "a" "c" none]

/-- The second update of a call is the first one with metadata. -/
def sampleLate : List Event := [tool "a" "c" none, tool "a" "c" (some "Bash")]

/-- A call is recorded without its prompt, and another one is recorded twice. -/
theorem sample_misattributed : ¬Always step Attributed new sampleShared ∧
    ¬Always step Attributed new sampleLate := by
  constructor
  · intro h
    obtain ⟨a, ha, r, hr, -, hp, -⟩ := h.last "a" "c" (some "8") (by decide)
    simp only [mem_cons, not_mem_nil, or_false] at ha
    rcases ha with rfl | rfl
    · exact absurd (congrArg Option.isSome hr) (by rw [isSome_some]; decide)
    · have hn := congrArg (Option.map Call.rpcRequestId) hr
      rw [map_some, hp] at hn
      exact absurd hn (by decide)
  · intro h
    obtain ⟨a, ha, -, -, -, -, he⟩ := h.last "a" "c" none (by decide)
    simp only [mem_cons, not_mem_nil, or_false] at ha
    rcases ha with rfl | rfl
    · exact absurd (congrArg Option.isSome (he "acp" (by simp) (by decide))) (by decide)
    · exact absurd (congrArg Option.isSome (he "claude" (by simp) (by decide))) (by decide)

/-- A prompt and a call with metadata under it. -/
theorem attributed_of_unmistaken_sample :
    Always step Attributed new [prompt "a" "8", tool "a" "c" (some "Bash")] :=
  attributed_of_unmistaken _ ⟨⟨nofun, nofun, nofun⟩, ⟨nofun, fun _ _ _ _ => rfl, nofun⟩, trivial⟩

end Reading

end Louiselm.Usage.Acp
