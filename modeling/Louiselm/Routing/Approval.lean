import Louiselm.Base.Lua
import Louiselm.Base.Runs
import Mathlib.Logic.Function.Basic

/-!
# Approvals of recommendations

`lua/louiselm/routing/approval.lua`: what is recommended for each phase of the work, and what the
operator decides about it. A decision says which candidate it is about and not of which phase, and
is resolved by a search of the phases in the order of their creation.
-/

namespace Louiselm.Routing.Approval
open Base List Option Function
open Base.Lua (Number)

/-! ### Phases and candidates -/

def canonical : List String :=
  ["design", "planning", "implementation", "review", "qa", "mechanical"]

structure PhaseMetadata where
  primary : String
  secondary : List String
deriving DecidableEq, Repr

/-- Whether the names are canonical and differ from each other. -/
def PhaseMetadata.isNormal (phase : PhaseMetadata) : Bool :=
  canonical.contains phase.primary &&
    phase.secondary.all (fun value => canonical.contains value && value != phase.primary) &&
    decide phase.secondary.Nodup

/-- What a phase is stored under. -/
def PhaseMetadata.key (phase : PhaseMetadata) : String :=
  phase.primary ++ "|" ++ ",".intercalate phase.secondary

structure Candidate where
  action : String
  agent : String
  model : Option String
  score : Number
  confidence : Number
  reasons : List String
deriving DecidableEq

/-- What tells candidates apart; scores and reasons do not. -/
def Candidate.key (candidate : Candidate) : String :=
  candidate.action ++ "\x00" ++ candidate.agent ++ "\x00" ++ candidate.model.getD ""

/-! ### States -/

structure PhaseState where
  ranking : List Candidate
  pending : Option (List Candidate)
  approved : Option Candidate
  /-- The keys of the candidates that were rejected. -/
  rejected : List String
deriving DecidableEq

def MAX_CANDIDATES : Nat := 5

/-- The first candidates that were not rejected, where there are any. -/
def PhaseState.presentation (state : PhaseState) : Option (List Candidate) :=
  match (state.ranking.filter fun candidate => !state.rejected.contains candidate.key).take
      MAX_CANDIDATES with
  | [] => none
  | candidates => some candidates

/-- The phases under their keys, which are in the order of their creation. -/
structure Approvals where
  states : String → Option PhaseState
  stateOrder : List String

namespace Approvals

def new : Approvals := ⟨fun _ => none, []⟩

def put (approvals : Approvals) (phase : String) (state : PhaseState) : Approvals :=
  { approvals with states := Function.update approvals.states phase (some state) }

@[simp] theorem states_put (approvals : Approvals) (p : String) (state : PhaseState) :
    (approvals.put p state).states = Function.update approvals.states p (some state) := rfl

/-- The pending candidate of a key of a phase. -/
def pendingOf (approvals : Approvals) (key phase : String) : Option (PhaseState × Candidate) :=
  (approvals.states phase).bind fun state => (state.pending.bind fun candidates =>
    candidates.find? (·.key == key)).map (state, ·)

/-- The first phase that has a candidate of a key pending. -/
def findPending (approvals : Approvals) (key : String) : Option (String × PhaseState × Candidate) :=
  approvals.stateOrder.findSome? fun phase => (approvals.pendingOf key phase).map (phase, ·)

/-- Queue ranked recommendations for an idle session. -/
def queue (approvals : Approvals) (phase : PhaseMetadata) (ranking : List Candidate)
    (sessionStatus : String) : Approvals × Option String :=
  if sessionStatus ≠ "ready" then (approvals, some "recommendations require an idle session")
  else if !phase.isNormal then (approvals, some "phase requires canonical metadata")
  else match approvals.states phase.key with
    | none =>
      let state : PhaseState := ⟨ranking, none, none, []⟩
      (({ approvals with stateOrder := approvals.stateOrder ++ [phase.key] }).put phase.key
          { state with pending := state.presentation },
        if state.presentation.isNone then some "no unsuppressed recommendations" else none)
    | some state =>
      if state.approved.isSome then (approvals, some "phase already has an approved choice")
      else if state.pending.isSome then
        (approvals, some "phase already has pending recommendations")
      else
        let state := { state with ranking }
        (approvals.put phase.key { state with pending := state.presentation },
          if state.presentation.isNone then some "no unsuppressed recommendations" else none)

/-- Approve the first pending candidate of a key. -/
def approve (approvals : Approvals) (key : String) : Approvals × Option String :=
  match approvals.findPending key with
  | none => (approvals, some "recommendation is not pending")
  | some (phase, state, candidate) =>
    (approvals.put phase { state with approved := some candidate, pending := none }, none)

/-- Reject the first pending candidate of a key. -/
def reject (approvals : Approvals) (key : String) : Approvals × Option String :=
  match approvals.findPending key with
  | none => (approvals, some "recommendation is not pending")
  | some (phase, state, candidate) =>
    let state := { state with rejected := candidate.key :: state.rejected }
    (approvals.put phase { state with pending := state.presentation }, none)

/-- Dismiss what is pending without a decision. -/
def clearPending (approvals : Approvals) (phase : PhaseMetadata) : Approvals × Bool :=
  if !phase.isNormal then (approvals, false)
  else match approvals.states phase.key with
    | none => (approvals, false)
    | some state => (approvals.put phase.key { state with pending := none }, true)

end Approvals

/-! ### Calls -/

/-- A call. A decision is about a candidate that was taken from the presentation of some phase. -/
inductive Call where
  | queue (phase : PhaseMetadata) (ranking : List Candidate) (sessionStatus : String)
  | approve (origin : PhaseMetadata) (candidate : Candidate)
  | reject (origin : PhaseMetadata) (candidate : Candidate)
  | clearPending (phase : PhaseMetadata)
  | pending (phase : PhaseMetadata)

/-- What a call leaves. -/
def Approvals.step (approvals : Approvals) : Call → Approvals
  | .queue phase ranking status => (approvals.queue phase ranking status).1
  | .approve _ candidate => (approvals.approve candidate.key).1
  | .reject _ candidate => (approvals.reject candidate.key).1
  | .clearPending phase => (approvals.clearPending phase).1
  | .pending _ => approvals

/-- The phase and the candidate of a decision. -/
def Call.decision : Call → Option (PhaseMetadata × Candidate)
  | .approve origin candidate => some (origin, candidate)
  | .reject origin candidate => some (origin, candidate)
  | _ => none

/-! ### What decisions are to do -/

/-- An approved phase has nothing pending, and what is pending is what its ranking presents. -/
structure PhaseState.Sound (state : PhaseState) : Prop where
  approved : state.approved ≠ none → state.pending = none
  pending : ∀ candidates, state.pending = some candidates →
    candidates ≠ [] ∧ candidates = (state.ranking.filter fun candidate =>
      !state.rejected.contains candidate.key).take MAX_CANDIDATES

/-- Every phase is sound. -/
def Sound (approvals : Approvals) : Prop :=
  ∀ phase state, approvals.states phase = some state → state.Sound

/-- A decision changes its own phase only, a rejection that finds its candidate pending is noted
there, and what was rejected or approved stays so. -/
structure Proper (approvals : Approvals) (call : Call) : Prop where
  own : ∀ origin candidate, call.decision = some (origin, candidate) → ∀ phase ≠ origin.key,
    (approvals.step call).states phase = approvals.states phase
  noted : ∀ origin candidate, call = .reject origin candidate →
    (approvals.pendingOf candidate.key origin.key).isSome → ∃ state,
      (approvals.step call).states origin.key = some state ∧ candidate.key ∈ state.rejected
  kept : ∀ phase state, approvals.states phase = some state → ∃ later,
    (approvals.step call).states phase = some later ∧ state.rejected ⊆ later.rejected ∧
      ∀ candidate, state.approved = some candidate → later.approved = some candidate

/-- No other phase has a candidate pending that a decision may be taken to be about: none that was
created before, and none at all where the decision's own phase has it pending no more. -/
def Unmistaken (approvals : Approvals) (call : Call) : Prop :=
  ∀ origin candidate, call.decision = some (origin, candidate) →
    ∀ before phase after, approvals.stateOrder = before ++ phase :: after → phase ≠ origin.key →
      (approvals.pendingOf candidate.key phase).isSome →
      origin.key ∈ before ∧ (approvals.pendingOf candidate.key origin.key).isSome

/-! ### What a call does -/

variable {approvals : Approvals} {state : PhaseState} {candidate : Candidate}

theorem presentation_sound (state : PhaseState) (h : state.approved = none) :
    ({ state with pending := state.presentation } : PhaseState).Sound where
  approved hn := absurd h hn
  pending cs hc := by
    have hp : state.presentation = some cs := hc
    rw [PhaseState.presentation] at hp
    split at hp
    · contradiction
    · next l he =>
      obtain rfl := some.inj hp
      exact ⟨fun h => he h, rfl⟩

theorem pendingOf_eq_some {key p : String} (h : approvals.pendingOf key p =
    some (state, candidate)) : approvals.states p = some state ∧ candidate.key = key ∧
      ∃ cs, state.pending = some cs := by
  obtain ⟨st, hs, h⟩ := bind_eq_some_iff.mp h
  obtain ⟨c, hc, he⟩ := map_eq_some_iff.mp h
  obtain ⟨rfl, rfl⟩ := Prod.mk.inj he
  obtain ⟨cs, hcs, hf⟩ := bind_eq_some_iff.mp hc
  exact ⟨hs, by simpa using List.find?_some hf, cs, hcs⟩

theorem findPending_eq_some {key ph : String} (h : approvals.findPending key =
    some (ph, state, candidate)) : approvals.pendingOf key ph = some (state, candidate) ∧
      ∃ pre l, approvals.stateOrder = pre ++ ph :: l ∧
        ∀ p ∈ pre, approvals.pendingOf key p = none := by
  obtain ⟨pre, p, l, ho, hp, hn⟩ := List.findSome?_eq_some_iff.mp h
  obtain ⟨f, hf, he⟩ := map_eq_some_iff.mp hp
  obtain ⟨rfl, rfl⟩ := Prod.mk.inj he
  exact ⟨hf, pre, l, ho, fun q hq => map_eq_none_iff.mp (hn q hq)⟩

/-- What a call comes to. -/
inductive Stepped (approvals : Approvals) (call : Call) : Approvals → Prop where
  | same (h : ∀ origin candidate, call.decision = some (origin, candidate) →
      approvals.findPending candidate.key = none) : Stepped approvals call approvals
  | created (phase : String) (ranking : List Candidate) (hd : call.decision = none)
      (h : approvals.states phase = none) : Stepped approvals call (({ approvals with
        stateOrder := approvals.stateOrder ++ [phase] } : Approvals).put phase
          { (⟨ranking, none, none, []⟩ : PhaseState) with
            pending := (⟨ranking, none, none, []⟩ : PhaseState).presentation })
  | ranked (phase : String) (state : PhaseState) (ranking : List Candidate)
      (hd : call.decision = none) (h : approvals.states phase = some state)
      (ha : state.approved = none) : Stepped approvals call (approvals.put phase { state with
        ranking, pending := ({ state with ranking } : PhaseState).presentation })
  | cleared (phase : String) (state : PhaseState) (hd : call.decision = none)
      (h : approvals.states phase = some state) :
      Stepped approvals call (approvals.put phase { state with pending := none })
  | approved (origin : PhaseMetadata) (given : Candidate) (phase : String) (state : PhaseState)
      (candidate : Candidate) (hc : call = .approve origin given)
      (h : approvals.findPending given.key = some (phase, state, candidate)) :
      Stepped approvals call
        (approvals.put phase { state with approved := some candidate, pending := none })
  | rejected (origin : PhaseMetadata) (given : Candidate) (phase : String) (state : PhaseState)
      (candidate : Candidate) (hc : call = .reject origin given)
      (h : approvals.findPending given.key = some (phase, state, candidate)) :
      Stepped approvals call (approvals.put phase { state with
        rejected := candidate.key :: state.rejected
        pending := ({ state with
          rejected := candidate.key :: state.rejected } : PhaseState).presentation })

theorem step_stepped (approvals : Approvals) (c : Call) :
    Stepped approvals c (approvals.step c) := by
  have hs : c.decision = none → Stepped approvals c approvals := fun hn =>
    .same fun _ _ hd => absurd (hn.symm.trans hd) (by simp)
  cases c with
  | queue p r s =>
    show Stepped approvals _ (approvals.queue p r s).1
    unfold Approvals.queue
    split
    · exact hs rfl
    split
    · exact hs rfl
    split
    · next h => exact .created _ _ rfl h
    · next state h =>
      split
      · exact hs rfl
      · next ha =>
        split
        · exact hs rfl
        · exact .ranked _ _ _ rfl h (by simpa using ha)
  | approve o g =>
    show Stepped approvals _ (approvals.approve g.key).1
    unfold Approvals.approve
    split
    · next h =>
      refine .same fun _ _ hd => ?_
      obtain ⟨rfl, rfl⟩ := Prod.mk.inj (some.inj hd)
      exact h
    · next h => exact .approved _ _ _ _ _ rfl h
  | reject o g =>
    show Stepped approvals _ (approvals.reject g.key).1
    unfold Approvals.reject
    split
    · next h =>
      refine .same fun _ _ hd => ?_
      obtain ⟨rfl, rfl⟩ := Prod.mk.inj (some.inj hd)
      exact h
    · next h => exact .rejected _ _ _ _ _ rfl h
  | clearPending p =>
    show Stepped approvals _ (approvals.clearPending p).1
    unfold Approvals.clearPending
    split
    · exact hs rfl
    split
    · exact hs rfl
    · next h => exact .cleared _ _ rfl h
  | pending p => exact hs rfl

/-! ### Every state -/

/-- Every phase is sound, and stands in the order. -/
structure Kept (approvals : Approvals) : Prop where
  sound : Sound approvals
  listed : ∀ phase state, approvals.states phase = some state → phase ∈ approvals.stateOrder

theorem kept_new : Kept .new where
  sound _ _ h := by simp [Approvals.new] at h
  listed _ _ h := by simp [Approvals.new] at h

theorem Kept.put {o : List String} (h : Kept approvals) {ph : String}
    (hs : approvals.stateOrder ⊆ o) (hp : ph ∈ o) (ht : state.Sound) :
    Kept (({ approvals with stateOrder := o } : Approvals).put ph state) where
  sound p st hps := by
    rw [Approvals.states_put] at hps
    by_cases heq : p = ph
    · subst heq
      rw [update_self, some.injEq] at hps
      exact hps ▸ ht
    · exact h.sound p st ((update_of_ne heq ..).symm.trans hps)
  listed p st hps := by
    rw [Approvals.states_put] at hps
    by_cases heq : p = ph
    · exact heq ▸ hp
    · exact hs (h.listed p st ((update_of_ne heq ..).symm.trans hps))

theorem Kept.step (h : Kept approvals) (call : Call) : Kept (approvals.step call) := by
  have hp : ∀ {phase st st'}, approvals.states phase = some st → st'.Sound →
      Kept (approvals.put phase st') := fun hs ht =>
    h.put (fun _ hm => hm) (h.listed _ _ hs) ht
  have ho : ∀ {key phase st c}, approvals.findPending key = some (phase, st, c) →
      approvals.states phase = some st ∧ st.approved = none := fun hf => by
    obtain ⟨ht, -, cs, hcs⟩ := pendingOf_eq_some (findPending_eq_some hf).1
    refine ⟨ht, by_contra fun hn => ?_⟩
    rw [(h.sound _ _ ht).approved hn] at hcs
    contradiction
  have ht := step_stepped approvals call
  generalize approvals.step call = next at ht ⊢
  cases ht with
  | same _ => exact h
  | created phase ranking hd hn =>
    exact h.put (subset_append_left _ _) (by simp) (presentation_sound _ rfl)
  | ranked phase state ranking hd hs ha =>
        exact hp hs (presentation_sound { state with ranking } ha)
  | cleared phase state hd hs =>
    exact hp hs ⟨fun _ => rfl, fun _ hc => absurd hc (by simp)⟩
  | approved origin given phase state c hc hf =>
    exact hp (ho hf).1 ⟨fun _ => rfl, fun _ hc => absurd hc (by simp)⟩
  | rejected origin given phase state c hc hf =>
    exact hp (ho hf).1 (presentation_sound
      { state with rejected := c.key :: state.rejected } (ho hf).2)

/-- What was rejected or approved stays so. -/
theorem Kept.keeps (h : Kept approvals) (ca : Call) (ph : String) (hs : approvals.states ph =
    some state) : ∃ l, (approvals.step ca).states ph = some l ∧ state.rejected ⊆ l.rejected ∧
      ∀ candidate, state.approved = some candidate → l.approved = some candidate := by
  have hu : ∀ {p st st'}, approvals.states p = some st → st.rejected ⊆ st'.rejected →
      (∀ c, st.approved = some c → st'.approved = some c) → ∃ l,
        (approvals.put p st').states ph = some l ∧ state.rejected ⊆ l.rejected ∧
          ∀ c, state.approved = some c → l.approved = some c := by
    intro p st st' hp hr ha
    rw [Approvals.states_put]
    by_cases heq : ph = p
    · subst heq
      obtain rfl := some.inj (hs.symm.trans hp)
      exact ⟨st', update_self .., hr, ha⟩
    · exact ⟨state, (update_of_ne heq ..).trans hs, fun _ hm => hm, fun _ hc => hc⟩
  have ht := step_stepped approvals ca
  generalize approvals.step ca = next at ht ⊢
  cases ht with
  | same _ => exact ⟨state, hs, fun _ hm => hm, fun _ hc => hc⟩
  | created p r hd hn =>
    have he : ph ≠ p := by
      rintro rfl
      rw [hn] at hs
      contradiction
    exact ⟨state, (update_of_ne he ..).trans hs, fun _ hm => hm, fun _ hc => hc⟩
  | ranked p st r hd hp ha => exact hu hp (fun _ hm => hm) fun _ hc => hc
  | cleared p st hd hp => exact hu hp (fun _ hm => hm) fun _ hc => hc
  | approved o g p st c hc hf =>
    obtain ⟨hp, -, cs, hcs⟩ := pendingOf_eq_some (findPending_eq_some hf).1
    refine hu hp (fun _ hm => hm) fun old ho => ?_
    rw [(h.sound _ _ hp).approved (by simp [ho])] at hcs
    contradiction
  | rejected o g p st c hc hf =>
    obtain ⟨hp, -⟩ := pendingOf_eq_some (findPending_eq_some hf).1
    exact hu hp (fun _ hm => mem_cons_of_mem _ hm) fun _ hc => hc

/-- A decision that finds a candidate changes its phase. -/
theorem states_step_ne {c : Call} {ori : PhaseMetadata} {gi : Candidate} {p : String}
    (hd : c.decision = some (ori, gi))
    (hf : approvals.findPending gi.key = some (p, state, candidate)) :
    (approvals.step c).states p ≠ approvals.states p := by
  obtain ⟨hp, -, cs, hc⟩ := pendingOf_eq_some (findPending_eq_some hf).1
  rw [hp]
  cases c with
  | approve o g =>
    obtain ⟨rfl, rfl⟩ := Prod.mk.inj (some.inj hd)
    intro he
    simp only [Approvals.step, Approvals.approve, hf, Approvals.states_put, update_self,
      some.injEq] at he
    rw [← he] at hc
    contradiction
  | reject o g =>
    obtain ⟨rfl, rfl⟩ := Prod.mk.inj (some.inj hd)
    intro he
    simp only [Approvals.step, Approvals.reject, hf, Approvals.states_put, update_self,
      some.injEq] at he
    have hl := congrArg (fun s => s.rejected.length) he
    simp at hl
  | _ => simp [Call.decision] at hd

/-- What a decision finds is of its own phase, or nothing, where it cannot be mistaken. -/
theorem Unmistaken.origin {c : Call} (h : Unmistaken approvals c) {o : PhaseMetadata}
    {g : Candidate} {p : String} (hd : c.decision = some (o, g))
    (hf : approvals.findPending g.key = some (p, state, candidate)) : p = o.key := by
  obtain ⟨hp, pre, l, ho, hn⟩ := findPending_eq_some hf
  by_contra he
  obtain ⟨hb, hs⟩ := h o g hd pre p l ho he (by simp [hp])
  rw [hn _ hb] at hs
  contradiction

/-- A decision is properly taken exactly where it cannot be mistaken. -/
theorem Kept.proper_iff (h : Kept approvals) (ca : Call) :
    Proper approvals ca ↔ Unmistaken approvals ca := by
  constructor
  · intro hp ori gi hd pre ph a ho he hs
    have hpe : (approvals.findPending gi.key).isSome := by
      rw [isSome_iff_ne_none]
      intro hn
      have hno := List.findSome?_eq_none_iff.mp hn ph (by rw [ho]; simp)
      rw [map_eq_none_iff] at hno
      rw [hno] at hs
      contradiction
    obtain ⟨⟨p, st, c⟩, hf⟩ := isSome_iff_exists.mp hpe
    have heq : p = ori.key := by
      by_contra hpo
      exact states_step_ne hd hf (hp.own ori gi hd p hpo)
    obtain ⟨hfp, pre', l', ho', hn'⟩ := findPending_eq_some hf
    subst heq
    refine ⟨?_, by simp [hfp]⟩
    rw [ho'] at ho
    rcases append_eq_append_iff.mp ho with ⟨l, rfl, hl⟩ | ⟨l, rfl, hl⟩
    · cases l with
      | nil =>
        rw [nil_append, List.cons.injEq] at hl
        exact absurd hl.1.symm he
      | cons x l =>
        rw [cons_append, List.cons.injEq] at hl
        simp [hl.1]
    · cases l with
      | nil =>
        rw [nil_append, List.cons.injEq] at hl
        exact absurd hl.1 he
      | cons x l =>
        rw [cons_append, List.cons.injEq] at hl
        rw [hl.1, hn' x (by simp)] at hs
        contradiction
  · intro hu
    refine ⟨fun ori gi hd p he => ?_, fun ori gi hc hs => ?_, fun ph st ht =>
      h.keeps ca ph ht⟩
    · have ht := step_stepped approvals ca
      generalize approvals.step ca = next at ht ⊢
      cases ht with
      | same _ => rfl
      | created q r hn => exact absurd (hn.symm.trans hd) (by simp)
      | ranked q st r hn => exact absurd (hn.symm.trans hd) (by simp)
      | cleared q st hn => exact absurd (hn.symm.trans hd) (by simp)
      | approved o g q st c hc hf =>
        subst hc
        obtain ⟨rfl, rfl⟩ := Prod.mk.inj (some.inj hd)
        rw [hu.origin rfl hf, Approvals.states_put, update_of_ne he]
      | rejected o g q st c hc hf =>
        subst hc
        obtain ⟨rfl, rfl⟩ := Prod.mk.inj (some.inj hd)
        rw [hu.origin rfl hf, Approvals.states_put, update_of_ne he]
    · subst hc
      obtain ⟨⟨st, c⟩, hp⟩ := isSome_iff_exists.mp hs
      have hl := h.listed _ _ (pendingOf_eq_some hp).1
      have hpe : (approvals.findPending gi.key).isSome := by
        rw [isSome_iff_ne_none]
        intro hn
        have hno := List.findSome?_eq_none_iff.mp hn _ hl
        rw [hp] at hno
        contradiction
      obtain ⟨⟨p, st', c'⟩, hf⟩ := isSome_iff_exists.mp hpe
      have heq := hu.origin rfl hf
      subst heq
      have hk := (pendingOf_eq_some (findPending_eq_some hf).1).2.1
      simp only [Approvals.step, Approvals.reject, hf, Approvals.states_put, update_self]
      exact ⟨_, rfl, hk ▸ mem_cons_self⟩

/-- In every run, the decisions are taken in their phases and every phase is sound, exactly where
each decision finds no other phase that it may be taken to be about. -/
theorem decisions_proper_iff (calls : List Call) :
    (Throughout Approvals.step Proper .new calls ∧ Always Approvals.step Sound .new calls) ↔
      Throughout Approvals.step Unmistaken .new calls := by
  have hk : Always Approvals.step Kept .new calls :=
    always_of_throughout (fun _ c hs _ => hs.step c) kept_new
      (throughout_of_forall (fun _ _ => trivial) _ _)
  constructor
  · rintro ⟨hp, -⟩
    exact hk.throughout_imp hp fun _ c hs => (hs.proper_iff c).mp
  · intro hu
    exact ⟨hk.throughout_imp hu fun _ c hs => (hs.proper_iff c).mpr, hk.mono fun _ hs => hs.sound⟩

/-! ### Two phases with one candidate -/

private def sampleCandidate : Candidate := ⟨"new", "codex", none, .ofNat 1, .ofNat 1, []⟩

/-- The candidate is pending in two phases and is rejected in the second. -/
def sampleCalls : List Call :=
  [.queue ⟨"design", []⟩ [sampleCandidate] "ready",
    .queue ⟨"review", []⟩ [sampleCandidate] "ready", .reject ⟨"review", []⟩ sampleCandidate]

/-- The rejection is noted in the first phase, and the second goes on recommending the candidate. -/
theorem sample_mistaken : ((sampleCalls.foldl Approvals.step .new).states "design|").map
      (·.rejected.length) = some 1 ∧ ((sampleCalls.foldl Approvals.step .new).states "review|").map
      (·.pending) = some (some [sampleCandidate]) ∧
    ¬(Throughout Approvals.step Proper .new sampleCalls ∧
      Always Approvals.step Sound .new sampleCalls) := by
  have hs : ((sampleCalls.foldl Approvals.step .new).states "review|").map (·.pending) =
      some (some [sampleCandidate]) := by decide
  refine ⟨by decide, hs, fun h => ?_⟩
  have ho := h.1.2.2.1.own _ _ rfl "design|" (by decide)
  exact absurd (congrArg (Option.map fun state => state.rejected.length) ho) (by decide)

end Louiselm.Routing.Approval
