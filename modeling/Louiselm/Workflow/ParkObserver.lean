import Louiselm.Base.Runs
import Louiselm.Workflow.Run

/-!
# Reconciling Park snapshots

`lua/louiselm/workflow/park_observer.lua`: the newer Parks of a snapshot are accepted by their
live Runs and presented, one after another until one fails. The revision of a Run is recorded
before any of this is tried, so that a Park that failed once is never tried again.
-/

namespace Louiselm.Workflow.ParkObserver
open Base Base.Lua List Value Function Bool

/-! ### Snapshots -/

structure Presentation where
  id : String
  revision : Nat
  state : Value
  ceiling : Nat
  consumed : Nat
  reserved : Nat
  pendingMutationIds : List String
  triggeringMutationId : Option String
  expiresAtMs : Nat

def nonNegativeInteger : Option Value → Option Nat
  | some (.num (.finite q)) => if isCount (.finite q) then some q.num.toNat else none
  | _ => none

def filled (value : Option Value) : Option String := (text? value).filter (· != "")

/-- A text that may be left out, but not be empty. -/
def optionalText : Option Value → Option (Option String)
  | none => some none
  | some value => (filled (some value)).map some

def presentation (run : Value) : Except String Presentation :=
  let parsed : Option Presentation := do
    let id ← filled (run.field "id")
    let revision ← nonNegativeInteger (run.field "revision")
    let ceiling ← nonNegativeInteger (run.field "generated_work_ceiling")
    let consumed ← nonNegativeInteger (run.field "generated_work_consumed")
    let reserved ← nonNegativeInteger (run.field "generated_work_reserved")
    let pending ← (run.field "pending_mutation_ids").filter fun value => isTable (some value)
    let expiresAtMs ← nonNegativeInteger (run.field "park_expires_at_ms")
    let pendingMutationIds ← pending.sequence.mapM fun item => filled (some item)
    let triggering ← optionalText (run.field "triggering_mutation_id")
    let state ← run.field "state"
    return ⟨id, revision, state, ceiling, consumed, reserved, pendingMutationIds, triggering,
      expiresAtMs⟩
  parsed.elim (.error "Park snapshot is malformed") .ok

/-- What the loop reads of an item before it does anything with it. -/
structure View where
  id : String
  revision : Nat
  parked : Bool

def viewOf (run : Value) : Option View := do
  let id ← text? (run.field "id")
  let revision ← nonNegativeInteger (run.field "revision")
  let state := text? (run.field "state")
  return ⟨id, revision, state == some "parked" || state == some "cold_parked"⟩

/-! ### Observing -/

/-- What comes of the items of a snapshot: whether there is a live Run and it accepts the Park, and
whether the presentation returns. -/
structure Look where
  acceptPark : Nat → Option (Except String Unit)
  onPark : Nat → Bool

/-- What was done with an item: it was not newer, or no Park, or its Park was accepted and
presented, or not. -/
inductive Outcome where
  | skipped
  | noted
  | applied (value : Presentation)
  | failed (message : String)

structure Entry where
  view : View
  outcome : Outcome

/-- Accept a Park and present it. -/
def applyPark (look : Look) (index : Nat) (run : Value) : Except String Presentation :=
  match presentation run with
  | .error message => .error message
  | .ok value =>
    match look.acceptPark index with
    | some (.error message) => .error message
    | _ => if look.onPark index then .ok value else .error "presentation failed"

/-- Whether an item is a Park that was not seen yet. -/
def isDue (revisions : String → Nat) (view : View) : Bool :=
  revisions view.id < view.revision && view.parked

/-- The revisions after an item. -/
def record (revisions : String → Nat) (view : View) : String → Nat :=
  Function.update revisions view.id (max (revisions view.id) view.revision)

/-- The loop over a snapshot, with what was done with each item that it reached. -/
def observeFrom (look : Look) :
    Nat → List Value → (String → Nat) → Except String Unit × (String → Nat) × List Entry
  | _, [], revisions => (.ok (), revisions, [])
  | index, run :: runs, revisions =>
    match viewOf run with
    | none => (.error "Run snapshot is malformed", revisions, [])
    | some view =>
      if isDue revisions view then
        match applyPark look index run with
        | .error message => (.error message, record revisions view, [⟨view, .failed message⟩])
        | .ok value =>
          let (result, after, entries) := observeFrom look (index + 1) runs (record revisions view)
          (result, after, ⟨view, .applied value⟩ :: entries)
      else
        let outcome := if revisions view.id < view.revision then Outcome.noted else .skipped
        let (result, after, entries) := observeFrom look (index + 1) runs (record revisions view)
        (result, after, ⟨view, outcome⟩ :: entries)

structure Observer where
  revisions : String → Nat
  disposed : Bool

def Observer.new : Observer := ⟨fun _ => 0, false⟩

/-- Apply only newer Park snapshots. -/
def Observer.observe (look : Look) (runs : Option Value) (observer : Observer) :
    Except String Unit × Observer × List Entry :=
  if observer.disposed then (.error "Park observer is disposed", observer, [])
  else match runs with
    | some (.table fields) =>
      let (result, revisions, entries) :=
        observeFrom look 0 (table fields).sequence observer.revisions
      (result, { observer with revisions }, entries)
    | _ => (.error "Run snapshot must be an array", observer, [])

/-! ### Runs -/

inductive Call where
  | observe (look : Look) (runs : Option Value)
  | dispose

/-- An observer and what it has done so far. -/
structure System where
  observer : Observer
  log : List Entry

def System.new : System := ⟨.new, []⟩

def System.step (system : System) : Call → System
  | .observe look runs =>
    let (_, observer, entries) := system.observer.observe look runs
    ⟨observer, system.log ++ entries⟩
  | .dispose => { system with observer := { system.observer with disposed := true } }

/-- An item whose revision counts: it was no Park, or its Park was accepted and presented. -/
def Entry.isTaken (entry : Entry) : Bool :=
  match entry.outcome with
  | .noted => true
  | .applied _ => true
  | _ => false

def Entry.isApplied (entry : Entry) : Bool :=
  match entry.outcome with
  | .applied _ => true
  | _ => false

/-- A revision of a Run is newer than any that was taken. -/
def NewIn (log : List Entry) (id : String) (revision : Nat) : Prop :=
  ∀ entry ∈ log, entry.view.id = id → entry.isTaken = true → entry.view.revision < revision

/-- Each Park at a new revision was accepted and presented, no other one was, and what was not is
still eligible. -/
structure Reconciled (system : System) : Prop where
  newer : ∀ before entry after, system.log = before ++ entry :: after → entry.isApplied = true →
    NewIn before entry.view.id entry.view.revision
  presented : ∀ before entry after, system.log = before ++ entry :: after →
    entry.view.parked = true → 0 < entry.view.revision →
    NewIn before entry.view.id entry.view.revision → entry.isApplied = true
  eligible : ∀ id revision, 0 < revision → NewIn system.log id revision →
    system.observer.revisions id < revision

/-- Every new Park of the items that are reached can be accepted and presented. -/
def Applicable (look : Look) : Nat → List Value → (String → Nat) → Prop
  | _, [], _ => True
  | index, run :: runs, revisions => ∀ view, viewOf run = some view →
      (isDue revisions view = true → ∃ value, applyPark look index run = .ok value) ∧
        Applicable look (index + 1) runs (record revisions view)

/-- No new Park of a snapshot fails. -/
def Smooth (system : System) : Call → Prop
  | .observe look runs => system.observer.disposed = false →
      Applicable look 0 ((runs.map sequence).getD []) system.observer.revisions
  | .dispose => True

/-! ### What is recorded -/

/-- The revisions are those of the items that were taken, and no Park failed. -/
structure Tracked (revisions : String → Nat) (log : List Entry) : Prop where
  above : ∀ entry ∈ log, entry.view.revision ≤ revisions entry.view.id
  reached : ∀ id, revisions id = 0 ∨ ∃ entry ∈ log, entry.view.id = id ∧ entry.isTaken = true ∧
    entry.view.revision = revisions id
  newer : ∀ before entry after, log = before ++ entry :: after → entry.isApplied = true →
    NewIn before entry.view.id entry.view.revision
  presented : ∀ before entry after, log = before ++ entry :: after → entry.view.parked = true →
    0 < entry.view.revision → NewIn before entry.view.id entry.view.revision →
    entry.isApplied = true

section

variable {r : String → Nat} {log : List Entry} {view : View} {o : Outcome}

/-- What is new in a log is newer than what is recorded. -/
theorem Tracked.lt_of_newIn (h : Tracked r log) {id : String} {rev : Nat}
    (hp : 0 < rev) (hn : NewIn log id rev) : r id < rev := by
  rcases h.reached id with hz | ⟨e, he, hi, ht, hs⟩
  · omega
  · exact hs ▸ hn e he hi ht

theorem Tracked.newIn_of_lt (h : Tracked r log) {id : String} {rev : Nat}
    (hl : r id < rev) : NewIn log id rev := by
  rintro e he rfl -
  exact (h.above e he).trans_lt hl

/-- A split of a log with one more entry is one of the log, or ends with that entry. -/
theorem split_append {la e : Entry} {pre l : List Entry} (h : log ++ [la] = pre ++ e :: l) :
    (log = pre ∧ e = la) ∨ ∃ xs, log = pre ++ e :: xs := by
  rcases eq_nil_or_concat l with rfl | ⟨xs, f, rfl⟩
  · obtain ⟨hb, he⟩ := append_inj' h rfl
    exact .inl ⟨hb, (singleton_inj.mp he).symm⟩
  · refine .inr ⟨xs, ?_⟩
    rw [concat_eq_append, ← cons_append, ← append_assoc] at h
    exact (append_inj' h rfl).1

/-- One more item that did not fail. -/
theorem Tracked.push (h : Tracked r log)
    (ht : (Entry.mk view o).isTaken = decide (r view.id < view.revision))
    (ha : (Entry.mk view o).isApplied = isDue r view) :
    Tracked (record r view) (log ++ [⟨view, o⟩]) := by
  have hl : ∀ id, r id ≤ record r view id := by
    intro id
    by_cases hi : id = view.id
    · rw [hi, record, update_self]
      exact Nat.le_max_left _ _
    · rw [record, update_of_ne hi]
  refine ⟨?_, fun id => ?_, fun pre e l hs he => ?_, fun pre e l hs hp ho hw => ?_⟩
  · refine forall_mem_append.mpr ⟨fun e he => (h.above e he).trans (hl _), ?_⟩
    rw [forall_mem_singleton, record, update_self]
    exact Nat.le_max_right _ _
  · by_cases hn : id = view.id ∧ r view.id < view.revision
    · refine .inr ⟨_, mem_append_right _ (mem_singleton_self _), hn.1.symm,
        ht.trans (decide_eq_true hn.2), ?_⟩
      rw [hn.1, record, update_self, Nat.max_eq_right (Nat.le_of_lt hn.2)]
    · have hsa : record r view id = r id := by
        by_cases hi : id = view.id
        · rw [hi, record, update_self, Nat.max_eq_left]
          exact Nat.le_of_not_lt fun hlt => hn ⟨hi, hlt⟩
        · rw [record, update_of_ne hi]
      rw [hsa]
      refine (h.reached id).imp_right ?_
      rintro ⟨e, he, hr⟩
      exact ⟨e, mem_append_left _ he, hr⟩
  · rcases split_append hs with ⟨rfl, rfl⟩ | ⟨xs, hr⟩
    · rw [ha, isDue, and_eq_true, decide_eq_true_iff] at he
      exact h.newIn_of_lt he.1
    · exact h.newer pre e xs hr he
  · rcases split_append hs with ⟨rfl, rfl⟩ | ⟨xs, hr⟩
    · rw [ha, isDue, and_eq_true, decide_eq_true_iff]
      exact ⟨h.lt_of_newIn ho hw, hp⟩
    · exact h.presented pre e xs hr hp ho hw

/-- A Park that is new and failed stands last in a log. -/
def EndsFailed (log : List Entry) : Prop :=
  ∃ before view message, log = before ++ [⟨view, .failed message⟩] ∧ view.parked = true ∧
    0 < view.revision ∧ NewIn before view.id view.revision

/-- The loop goes through where every new Park can be accepted and presented, and ends with one
that failed where not. -/
theorem Tracked.observeFrom {l : Look} {i : Nat} {ru : List Value} (h : Tracked r log) :
    (Applicable l i ru r ∧ Tracked (observeFrom l i ru r).2.1
        (log ++ (observeFrom l i ru r).2.2)) ∨ (¬Applicable l i ru r ∧
        EndsFailed (log ++ (observeFrom l i ru r).2.2)) := by
  induction ru generalizing i r log with
  | nil =>
    refine .inl ⟨trivial, ?_⟩
    rw [ParkObserver.observeFrom, append_nil]
    exact h
  | cons run ru ih =>
    unfold ParkObserver.observeFrom Applicable
    cases hv : viewOf run with
    | none =>
      refine .inl ⟨nofun, ?_⟩
      rw [append_nil]
      exact h
    | some view =>
      simp only [Option.some.injEq, forall_eq']
      by_cases hd : isDue r view = true
      · rw [if_pos hd]
        have hb := hd
        rw [isDue, and_eq_true, decide_eq_true_iff] at hb
        cases hpa : applyPark l i run with
        | error m =>
          refine .inr ⟨fun ha => ?_, log, view, m, rfl, hb.2,
            (Nat.zero_le _).trans_lt hb.1, h.newIn_of_lt hb.1⟩
          obtain ⟨v, hl⟩ := ha.1 hd
          cases hl
        | ok v =>
          have hp : Tracked _ (log ++ [⟨view, .applied v⟩]) :=
            h.push (decide_eq_true hb.1).symm hd.symm
          rw [append_cons]
          refine (ih hp).imp (And.imp_left fun hr => ?_) (And.imp_left fun hr ha => hr ha.2)
          exact ⟨fun _ => ⟨v, rfl⟩, hr⟩
      · rw [if_neg hd, append_cons]
        have hp : Tracked _ (log ++
            [⟨view, if r view.id < view.revision then .noted else .skipped⟩]) := h.push
          (by by_cases hn : r view.id < view.revision <;> simp [hn, Entry.isTaken]) (by
            rw [eq_false_of_not_eq_true hd]
            by_cases hn : r view.id < view.revision <;>
              simp [hn, Entry.isApplied])
        refine (ih hp).imp (And.imp_left fun hr => ?_) (And.imp_left fun hr ha => hr ha.2)
        exact ⟨fun h => absurd h hd, hr⟩

end

/-! ### Every run -/

section

variable {s : System}

theorem Tracked.reconciled (h : Tracked s.observer.revisions s.log) :
    Reconciled s :=
  ⟨h.newer, h.presented, fun _ _ => h.lt_of_newIn⟩

/-- What stands last in a log and failed was not presented. -/
theorem EndsFailed.not_reconciled (h : EndsFailed s.log) : ¬Reconciled s := by
  obtain ⟨pre, view, m, hl, hp, ho, hn⟩ := h
  intro hr
  cases hr.presented pre _ [] hl hp ho hn

/-- What each call keeps, or breaks. -/
theorem step_tracked (h : Tracked s.observer.revisions s.log) (c : Call) :
    (Smooth s c ∧ Tracked (s.step c).observer.revisions (s.step c).log) ∨
      (¬Smooth s c ∧ ¬Reconciled (s.step c)) := by
  cases c with
  | dispose => exact .inl ⟨trivial, h⟩
  | observe l ru =>
    cases hd : s.observer.disposed with
    | true =>
      refine .inl ⟨fun hl => absurd (hd.symm.trans hl) (by decide), ?_⟩
      simpa only [System.step, Observer.observe, hd, if_true, append_nil] using h
    | false =>
      have ho := @Tracked.observeFrom _ _ l 0 ((ru.map sequence).getD []) h
      have hs : Smooth s (.observe l ru) ↔ Applicable l 0
          ((ru.map sequence).getD []) s.observer.revisions :=
        ⟨fun hs => hs hd, fun ha _ => ha⟩
      have ht : (s.step (.observe l ru)).observer.revisions =
            (ParkObserver.observeFrom l 0 ((ru.map sequence).getD []) s.observer.revisions).2.1 ∧
          (s.step (.observe l ru)).log = s.log ++
            (ParkObserver.observeFrom l 0 ((ru.map sequence).getD [])
              s.observer.revisions).2.2 := by
        unfold System.step Observer.observe
        rw [hd]
        cases ru with
        | none => exact ⟨rfl, rfl⟩
        | some v => cases v <;> exact ⟨rfl, rfl⟩
      rw [hs, ht.1, ht.2]
      refine ho.imp_right (And.imp_right fun he => ?_)
      exact EndsFailed.not_reconciled (ht.2.symm ▸ he)

/-- Along every run Parks are reconciled exactly where no new Park of a snapshot fails. -/
theorem reconciled_iff_smooth (calls : List Call) :
    Always System.step Reconciled .new calls ↔ Throughout System.step Smooth .new calls := by
  have hu : ∀ s : System, Tracked s.observer.revisions s.log →
      (Always System.step Reconciled s calls ↔ Throughout System.step Smooth s calls) := by
    induction calls with
    | nil => exact fun s h => ⟨fun _ => trivial, fun _ => h.reconciled⟩
    | cons c calls ih =>
      intro s h
      rcases step_tracked h c with ⟨hm, hn⟩ | ⟨hr, hb⟩
      · exact ⟨fun ha => ⟨hm, (ih _ hn).mp ha.2⟩, fun hc => ⟨h.reconciled, (ih _ hn).mpr hc.2⟩⟩
      · exact ⟨fun ha => absurd ha.2.first hb, fun hc => absurd hc.1 hr⟩
  refine hu .new ⟨forall_mem_nil _, fun _ => .inl rfl, ?_, ?_⟩
  · intro pre e l hs
    exact absurd hs.symm (by simp [System.new])
  · intro pre e l hs
    exact absurd hs.symm (by simp [System.new])

end

/-! ### A Park that fails once -/

/-- A Run that is parked at a revision. -/
def parkedRun (id : String) (revision : Nat) : Value :=
  .table ([("id", .str id), ("revision", .num (.ofNat revision)), ("state", .str "parked"),
    ("generated_work_ceiling", .num (.ofNat 1)), ("generated_work_consumed", .num (.ofNat 1)),
    ("generated_work_reserved", .num (.ofNat 0)), ("pending_mutation_ids", array []),
    ("park_expires_at_ms", .num (.ofNat 1))].map fun item => (Key.str item.1, item.2))

/-- A look at which the live Run refuses its Park, and one at which it accepts it. -/
def refusing : Look := ⟨fun _ => some (.error "Run cannot accept a Park"), fun _ => true⟩

def accepting : Look := ⟨fun _ => some (.ok ()), fun _ => true⟩

/-- A Park that its Run refuses, and that a later snapshot repeats. -/
def repeated : List Call :=
  [.observe refusing (some (array [parkedRun "run" 1])),
    .observe accepting (some (array [parkedRun "run" 1]))]

/-- A Park that failed once is skipped when it comes again. -/
theorem not_reconciled_repeated :
    (repeated.foldl System.step .new).log.map Entry.isApplied = [false, false] ∧
      ¬Always System.step Reconciled .new repeated := by
  have hf : (System.new.step (.observe refusing (some (array [parkedRun "run" 1])))).log.map
      (fun e => (e.isApplied, e.view.parked, e.view.revision)) = [(false, true, 1)] := by
    decide +kernel
  refine ⟨by decide +kernel, fun h => ?_⟩
  obtain ⟨e, hl, he⟩ := map_eq_singleton_iff.mp hf
  obtain ⟨ha, hr⟩ := Prod.mk.inj he
  obtain ⟨hpa, hv⟩ := Prod.mk.inj hr
  have hp := h.2.1.presented [] e [] hl hpa (by omega) fun _ hm => nomatch hm
  rw [ha] at hp
  cases hp

end Louiselm.Workflow.ParkObserver
