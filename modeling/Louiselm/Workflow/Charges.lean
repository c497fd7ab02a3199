import Louiselm.Workflow.ExecutorRuns

/-!
# Ledger calls along every run

What the executor of `Workflow/Executor` asks of its ledger, in a log beside it: one call at a
time, every consumed charge and every confirmed output counted once and within its bound, and
every reservation held or given back.
-/

namespace Louiselm.Workflow
open Base Base.Lua List Option Running Executor Function

/-! ### The log -/

/-- A ledger call that was made, or answered. -/
inductive Noted where
  | called (operation : Nat) (ledgerCall : LedgerCall)
  | answered (operation : Nat) (ledgerCall : LedgerCall) (answer : LedgerAnswer)

/-- What an event has to do with the ledger. -/
def noted (run : Running) (event : Event) : List Noted :=
  (match event with
    | .answer index answer =>
      (run.inFlight[index]?).toList.map fun item => .answered item.1 item.2 answer
    | _ => []) ++
  ((run.step event).inFlight.drop run.inFlight.length).map fun item => .called item.1 item.2

/-- An executor with the log of its ledger calls. -/
structure Traced where
  run : Running
  log : List Noted

def Traced.step (traced : Traced) (event : Event) : Traced :=
  ⟨traced.run.step event, traced.log ++ noted traced.run event⟩

/-- A charge was consumed that counts under a key. -/
def Noted.consumes (key : String) : Noted → Bool
  | .answered _ (.consume stageName _ outcomeName _) answer =>
    answer.state == some "consumed" && edgeKey stageName outcomeName == key
  | _ => false

/-- A charge was consumed for an outcome of a stage. -/
def Noted.consumesEdge (stage outcome : String) : Noted → Bool
  | .answered _ (.consume stageName _ outcomeName _) answer =>
    answer.state == some "consumed" && stageName == stage && outcomeName == outcome
  | _ => false

/-- An output of the Generator of an operation was confirmed. -/
def Noted.confirms (generator : Nat) : Noted → Bool
  | .answered _ (.confirm confirmed) answer => answer.confirmed && confirmed == generator
  | _ => false

/-- An operation was granted its reservation. -/
def Noted.grants (operation : Nat) : Noted → Bool
  | .answered granted (.reserve _ _) answer =>
        answer.state == some "reserved" && granted == operation
  | _ => false

/-- The reservation of an operation was to be given back. -/
def Noted.releases (operation : Nat) : Noted → Bool
  | .called _ (.releaseEnded generator _) => generator == operation
  | .called _ (.releaseDisposed generator _) => generator == operation
  | _ => false

/-! ### What is conserved -/

/-- An automatic back edge of a document. -/
def BackEdgeAt (manifest : Manifest) (stageName outcomeName : String) (outcome : Value) : Prop :=
  ∃ stage, manifest.stage stageName = some stage ∧
    findOutcome stage (some (.str outcomeName)) = some outcome ∧
    isBackEdge outcome = true ∧ isAutomatic outcome = true

theorem BackEdgeAt.unique {m : Manifest} {sn oun : String} {o x : Value} (h : BackEdgeAt m sn oun o)
    (ho : BackEdgeAt m sn oun x) : o = x := by
  obtain ⟨b, hb, hf, -⟩ := h
  obtain ⟨sb, hs, hsf, -⟩ := ho
  obtain rfl := some.inj (hb.symm.trans hs)
  exact some.inj (hf.symm.trans hsf)

/-- The bound of an outcome. -/
def maxIterations (outcome : Value) : Option Number :=
  Value.number? (outcome.field "max-iterations")

/-- Automatic back edges are counted under keys of their own, up to whole numbers. -/
structure Countable (manifest : Manifest) : Prop where
  keys : ∀ stage outcome value other second otherValue, BackEdgeAt manifest stage outcome value →
    BackEdgeAt manifest other second otherValue →
    edgeKey stage outcome = edgeKey other second → stage = other ∧ outcome = second
  whole : ∀ stage outcome value maximum, BackEdgeAt manifest stage outcome value →
    maxIterations value = some maximum → ∃ bound, maximum = .ofNat bound

/-- One call is in flight at most; each back edge has as many iterations as charges were consumed
for it, the live Generator as many outputs as were confirmed for it, both within their bounds;
and every reservation that was granted is the live Generator's or was to be given back. -/
structure Conserved (traced : Traced) : Prop where
  single : traced.run.inFlight.length ≤ 1
  counted : ∀ stage outcome value, BackEdgeAt traced.run.executor.manifest stage outcome value →
    traced.run.executor.iterations (edgeKey stage outcome) =
      traced.log.countP (Noted.consumesEdge stage outcome)
  bounded : ∀ stage outcome value maximum,
    BackEdgeAt traced.run.executor.manifest stage outcome value →
    maxIterations value = some maximum →
    (Number.ofNat (traced.run.executor.iterations (edgeKey stage outcome))).le maximum = true
  outputs : ∀ generator, traced.run.executor.generator = some generator →
    generator.outputs = traced.log.countP (Noted.confirms generator.operation) ∧
      (Number.ofNat generator.outputs).le generator.maximum = true
  reservations : ∀ operation, (∃ entry ∈ traced.log, entry.grants operation = true) →
    (∃ generator, traced.run.executor.generator = some generator ∧
      generator.operation = operation) ∨ ∃ entry ∈ traced.log, entry.releases operation = true

/-- A state of the ledger call that gives what was asked for. -/
def LedgerCall.Granted (ledgerCall : LedgerCall) (state : Option String) : Prop :=
  match ledgerCall with
  | .consume .. => state = some "consumed"
  | .reserve .. => state = some "reserved"
  | _ => False

/-- No operation is called while a call is in flight whose guard a settlement has cleared, an
executor with a live Generator is disposed while nothing is in flight and through a ledger that
releases, and nothing is granted to an executor that was disposed. -/
def Careful (run : Running) : Event → Prop
  | .advance .. => run.executor.status = .active → run.executor.pending = false → run.inFlight = []
  | .beginGenerator .. =>
    run.executor.status = .active → run.executor.pending = false → run.inFlight = []
  | .recordGeneratorOutput .. =>
    run.executor.status = .active → run.executor.pending = false → run.inFlight = []
  | .endGenerator .. => run.executor.status = .active → run.executor.pending = false →
        run.inFlight = []
  | .dispose callback => callback = true → run.executor.generator.isSome = true →
      run.inFlight = [] ∧ run.executor.ledger.release = true
  | .answer index answer => ∀ operation ledgerCall,
      run.inFlight[index]? = some (operation, ledgerCall) → run.executor.status = .disposed →
        ¬ ledgerCall.Granted answer.state
  | _ => True

/-! ### What a call does -/

/-- Nothing happens to the counts, the Generator or the calls in flight. -/
structure Quiet (before after : Running) : Prop where
  manifest : after.executor.manifest = before.executor.manifest
  iterations : after.executor.iterations = before.executor.iterations
  generator : after.executor.generator = before.executor.generator
  inFlight : after.inFlight = before.inFlight
  operations : before.operations ≤ after.operations
  disposed : after.executor.status = .disposed →
    before.executor.status = .disposed ∨ before.executor.generator = none

/-- A ledger call is made by a new operation, and nothing else happens. -/
structure Calls (before after : Running) (ledgerCall : LedgerCall) : Prop where
  manifest : after.executor.manifest = before.executor.manifest
  iterations : after.executor.iterations = before.executor.iterations
  generator : after.executor.generator = before.executor.generator
  status : after.executor.status = before.executor.status
  inFlight : after.inFlight = before.inFlight ++ [(before.operations, ledgerCall)]
  operations : after.operations = before.operations + 1

/-- What an operation needs to call the ledger. -/
structure Ready (run : Running) : Prop where
  status : run.executor.status = .active
  pending : run.executor.pending = false

section

variable {run : Running}

theorem Quiet.refl (run : Running) : Quiet run run := ⟨rfl, rfl, rfl, rfl, le_rfl, .inl⟩

/-- An operation that is not refused at once is ready. -/
theorem ready_of_refusal {c : Bool} (h : run.executor.refusal c = none) : Ready run := by
  constructor
  · by_contra hi
    obtain ⟨m, hm⟩ := refusal_of_inactive hi c
    rw [h] at hm
    cases hm
  · unfold refusal readyError at h
    split at h
    · cases h
    · split at h
      · cases h
      · next hp => exact Bool.eq_false_of_not_eq_true hp

theorem quiet_follow (ope : Nat) (o : Value) (s : String) (oun : Option Value) (e : Bool)
    (r : Option String) : Quiet run (run.follow ope o s oun e r) := by
  unfold follow applyTransition
  split
  · exact ⟨rfl, rfl, rfl, rfl, le_rfl, fun h => by cases h⟩
  · exact ⟨rfl, rfl, rfl, rfl, le_rfl, .inl⟩

theorem Quiet.opened {l : Running} (h : Quiet run.opened l) : Quiet run l :=
  ⟨h.manifest, h.iterations, h.generator, h.inFlight, (Nat.le_succ _).trans h.operations,
    h.disposed⟩

/-- What taking an outcome does: it calls the ledger for a bounded one that is not used up, or
leaves counts and calls as they were. -/
theorem applyAutomaticBackEdge_cases (s o : Value) (sn oun : String) (mid : Option String) :
    Quiet run (run.opened.applyAutomaticBackEdge run.operations s o sn oun mid).2 ∨
      isBackEdge o = true ∧ isAutomatic o = true ∧ ∃ m, maxIterations o = some m ∧
        m.le (.ofNat (run.executor.iterations (edgeKey sn oun))) = false ∧
        Calls run (run.opened.applyAutomaticBackEdge run.operations s o sn
          oun mid).2 (.consume sn o oun (run.executor.iterations (edgeKey sn oun))) := by
  unfold applyAutomaticBackEdge
  split
  · exact .inl (quiet_follow ..).opened
  · next ha =>
    split
    · exact .inl ⟨rfl, rfl, rfl, rfl, Nat.le_succ _, .inl⟩
    · split
      · exact .inl ⟨rfl, rfl, rfl, rfl, Nat.le_succ _, .inl⟩
      · next m hm =>
        dsimp only
        split
        · unfold exhaust
          split
          · exact .inl ⟨rfl, rfl, rfl, rfl, Nat.le_succ _, .inl⟩
          · exact .inl (quiet_follow ..).opened
        · next hr =>
          unfold charge
          split
          · exact .inl ⟨rfl, rfl, rfl, rfl, Nat.le_succ _, .inl⟩
          · have hb : isBackEdge o = true ∧ isAutomatic o = true := by
              simpa using ha
            refine .inr ⟨hb.1, hb.2, m, hm, ?_, rfl, rfl, rfl, rfl, rfl, rfl⟩
            exact Bool.eq_false_of_not_eq_true hr

theorem advance_cases (run : Running) (oun : String) (mid : Option String) (c : Bool) :
    Quiet run (run.advance oun mid c).2 ∨ Ready run ∧ run.executor.generator = none ∧ ∃ sn o m,
        BackEdgeAt run.executor.manifest sn oun o ∧ maxIterations o = some m ∧
        m.le (.ofNat (run.executor.iterations (edgeKey sn oun))) = false ∧
        Calls run (run.advance oun mid c).2 (.consume sn o
          oun (run.executor.iterations (edgeKey sn oun))) := by
  unfold advance
  split
  · exact .inl (.refl run)
  · next hr =>
    split
    · exact .inl (.refl run)
    · next hg =>
      split
      · exact .inl (.refl run)
      · split
        · exact .inl (.refl run)
        · next sv _ =>
          dsimp only
          split
          · exact .inl (.refl run)
          · next s hs =>
            split
            · exact .inl (.refl run)
            · split
              · exact .inl (.refl run)
              · next o ho =>
                obtain ⟨sn, ht, hb⟩ := bind_eq_some_iff.mp hs
                rw [ht, getD_some]
                rcases applyAutomaticBackEdge_cases s o sn oun mid
                  with hq | ⟨hba, ha, m, hm, hro, hc⟩
                · exact .inl hq
                · refine .inr ⟨ready_of_refusal hr, ?_, sn, o, m, ⟨s, hb, ho, hba, ha⟩, hm, hro, hc⟩
                  exact not_isSome_iff_eq_none.mp hg

/-- What beginning a Generator does. -/
theorem beginGenerator_cases (run : Running) (mid : String) (c : Bool) :
    Quiet run (run.beginGenerator mid c).2 ∨ Ready run ∧ run.executor.generator = none ∧ ∃ b,
        Calls run (run.beginGenerator mid c).2 (.reserve mid (.ofNat b)) := by
  unfold beginGenerator
  split
  · exact .inl (.refl run)
  · next hr =>
    split
    · exact .inl (.refl run)
    · next hg =>
      split
      · exact .inl (.refl run)
      · split
        · exact .inl (.refl run)
        · next m _ =>
          split
          · exact .inl (.refl run)
          · next hc =>
            split
            · exact .inl (.refl run)
            · have hb : (Number.ofNat 1).le m = true ∧ m.isWhole = true := by
                simpa using hc
              obtain ⟨b, -, rfl⟩ := Number.exists_ofNat hb.2 hb.1
              exact .inr ⟨ready_of_refusal hr, not_isSome_iff_eq_none.mp hg, b,
                rfl, rfl, rfl, rfl, rfl, rfl⟩

theorem recordGeneratorOutput_cases (run : Running) (oi : String) (c : Bool) :
    Quiet run (run.recordGeneratorOutput oi c).2 ∨
      Ready run ∧ ∃ g, run.executor.generator = some g ∧ g.maximum.le (.ofNat g.outputs) = false ∧
        Calls run (run.recordGeneratorOutput oi c).2 (.confirm g.operation) := by
  unfold recordGeneratorOutput
  split
  · exact .inl (.refl run)
  · next hr =>
    split
    · exact .inl (.refl run)
    · next g hg =>
      split
      · exact .inl (.refl run)
      · split
        · exact .inl (.refl run)
        · next ho =>
          split
          · exact .inl (.refl run)
          · exact .inr ⟨ready_of_refusal hr, g, hg,
              Bool.eq_false_of_not_eq_true ho, rfl, rfl, rfl, rfl, rfl, rfl⟩

theorem endGenerator_cases (run : Running) (c : Bool) : Quiet run (run.endGenerator c).2 ∨
      Ready run ∧ ∃ g, run.executor.generator = some g ∧ Calls run (run.endGenerator c).2
          (.releaseEnded g.operation g.mutationId) := by
  unfold endGenerator
  split
  · exact .inl (.refl run)
  · next hr =>
    split
    · exact .inl (.refl run)
    · next g hg =>
      split
      · exact .inl (.refl run)
      · exact .inr ⟨ready_of_refusal hr, g, hg, rfl, rfl, rfl, rfl, rfl, rfl⟩

/-- What disposing does: with a live Generator it lets go of it, and calls the ledger where it
can. -/
theorem dispose_cases (run : Running) (c : Bool) : Quiet run (run.dispose c).2 ∨
      c = true ∧ ∃ g, run.executor.generator = some g ∧
        (run.dispose c).2.executor.manifest = run.executor.manifest ∧
        (run.dispose c).2.executor.iterations = run.executor.iterations ∧
        (run.dispose c).2.executor.generator = none ∧
        (run.dispose c).2.operations = run.operations + 1 ∧
        (run.executor.ledger.release = true → (run.dispose c).2.inFlight = run.inFlight ++
          [(run.operations, .releaseDisposed g.operation g.mutationId)]) := by
  unfold dispose
  split
  · exact .inl (.refl run)
  · next hc =>
    split
    · exact .inl ⟨rfl, rfl, rfl, rfl, Nat.le_succ _, .inl⟩
    · dsimp only
      split
      · next hg => exact .inl ⟨rfl, rfl, hg.symm, rfl, Nat.le_succ _, fun _ => .inr hg⟩
      · next g hg =>
        have hc : c = true := by simpa using hc
        split
        · next hr => exact .inr ⟨hc, g, hg, rfl, rfl, rfl, rfl, fun h => by simp [h] at hr⟩
        · exact .inr ⟨hc, g, hg, rfl, rfl, rfl, rfl, fun _ => rfl⟩

end

/-! ### The invariant -/

/-- The log of one state and the call in flight, besides what is conserved: what a call was made
for is still there. -/
structure Tidy (traced : Traced) : Prop where
  single : traced.run.inFlight.length ≤ 1
  counts : ∀ key, traced.run.executor.iterations key = traced.log.countP (Noted.consumes key)
  bounded : ∀ stage outcome value maximum,
    BackEdgeAt traced.run.executor.manifest stage outcome value →
    maxIterations value = some maximum →
    (Number.ofNat (traced.run.executor.iterations (edgeKey stage outcome))).le maximum = true
  edges : ∀ operation stage value outcome used answer,
    .answered operation (.consume stage value outcome used) answer ∈ traced.log →
    BackEdgeAt traced.run.executor.manifest stage outcome value
  outputs : ∀ generator, traced.run.executor.generator = some generator →
    generator.outputs = traced.log.countP (Noted.confirms generator.operation) ∧
      (∃ bound, generator.maximum = .ofNat bound ∧ generator.outputs ≤ bound) ∧
      generator.operation < traced.run.operations
  disposed : traced.run.executor.status = .disposed → traced.run.executor.generator = none
  called : ∀ item ∈ traced.run.inFlight, .called item.1 item.2 ∈ traced.log ∧
    item.1 < traced.run.operations
  confirmed : ∀ operation generator answer,
    .answered operation (.confirm generator) answer ∈ traced.log → generator < traced.run.operations
  charging : ∀ operation stage value outcome used,
    (operation, .consume stage value outcome used) ∈ traced.run.inFlight →
    BackEdgeAt traced.run.executor.manifest stage outcome value ∧
      used = traced.run.executor.iterations (edgeKey stage outcome) ∧
      ∃ maximum, maxIterations value = some maximum ∧ maximum.le (.ofNat used) = false
  reserving : ∀ operation mutationId maximum,
    (operation, .reserve mutationId maximum) ∈ traced.run.inFlight →
    traced.run.executor.generator = none ∧ (∃ bound, maximum = .ofNat bound) ∧
      traced.log.countP (Noted.confirms operation) = 0
  confirming : ∀ operation generator, (operation, .confirm generator) ∈ traced.run.inFlight →
    ∃ live, traced.run.executor.generator = some live ∧ live.operation = generator ∧
      live.maximum.le (.ofNat live.outputs) = false
  ending : ∀ operation generator mutationId,
    (operation, .releaseEnded generator mutationId) ∈ traced.run.inFlight →
    ∃ live, traced.run.executor.generator = some live ∧ live.operation = generator
  reservations : ∀ operation, (∃ entry ∈ traced.log, entry.grants operation = true) →
    (∃ generator, traced.run.executor.generator = some generator ∧
      generator.operation = operation) ∨ ∃ entry ∈ traced.log, entry.releases operation = true

theorem tidy_start (m : Manifest) (e : String) (l : Ledger)
    (hc : Countable m) : Tidy ⟨.start (.start m e l), []⟩ where
  single := Nat.zero_le _
  counts := fun _ => rfl
  bounded := fun s o v mx he hm => by
    obtain ⟨b, rfl⟩ := hc.whole s o v mx he hm
    exact Number.ofNat_le.trans (decide_eq_true (Nat.zero_le b))
  edges := fun _ _ _ _ _ _ h => by cases h
  outputs := fun _ h => by cases h
  disposed := fun _ => rfl
  called := forall_mem_nil _
  confirmed := fun _ _ _ h => by cases h
  charging := fun _ _ _ _ _ h => by cases h
  reserving := fun _ _ _ h => by cases h
  confirming := fun _ _ h => by cases h
  ending := fun _ _ _ h => by cases h
  reservations := fun _ ⟨_, h, _⟩ => by cases h

theorem consumes_of_edges {m : Manifest} (hc : Countable m) {s o : String} {v : Value}
    (hd : BackEdgeAt m s o v) {log : List Noted} (hl : ∀ ope s v o u ans,
      .answered ope (.consume s v o u) ans ∈ log → BackEdgeAt m s o v) :
    log.countP (Noted.consumes (edgeKey s o)) = log.countP (Noted.consumesEdge s o) := by
  refine countP_congr fun e he => ?_
  cases e with
  | called ope lec => rfl
  | answered ope lec ans =>
    cases lec with
    | consume x ov se u =>
      have ho := hl ope x ov se u ans he
      simp only [Noted.consumes, Noted.consumesEdge, Bool.and_eq_true, beq_iff_eq, and_assoc]
      refine and_congr_right fun _ => ⟨fun hk => ?_, fun hn => ?_⟩
      · exact hc.keys x se ov s o v ho hd hk
      · rw [hn.1, hn.2]
    | _ => rfl

theorem Tidy.conserved {t : Traced} (h : Tidy t)
    (hn : Countable t.run.executor.manifest) : Conserved t where
  single := h.single
  counted := fun _ _ _ he => by
    rw [h.counts, consumes_of_edges hn he h.edges]
  bounded := h.bounded
  outputs := fun g hg => by
    obtain ⟨hc, ⟨b, hb, hl⟩, -⟩ := h.outputs g hg
    refine ⟨hc, ?_⟩
    rw [hb, Number.ofNat_le]
    exact decide_eq_true hl
  reservations := h.reservations

/-! ### Steps -/

section

variable {run a : Running} {log : List Noted}

theorem Tidy.quiet (h : Tidy ⟨run, log⟩) (hq : Quiet run a) : Tidy ⟨a, log⟩ where
  single := by
    dsimp only
    rw [hq.inFlight]
    exact h.single
  counts := by
    dsimp only
    rw [hq.iterations]
    exact h.counts
  bounded := by
    dsimp only
    rw [hq.iterations, hq.manifest]
    exact h.bounded
  edges := by
    dsimp only
    rw [hq.manifest]
    exact h.edges
  outputs := by
    dsimp only
    rw [hq.generator]
    intro g hg
    obtain ⟨hc, hb, hl⟩ := h.outputs g hg
    exact ⟨hc, hb, hl.trans_le hq.operations⟩
  disposed := fun hd => by
    dsimp only
    rw [hq.generator]
    exact (hq.disposed hd).elim h.disposed id
  called := by
    dsimp only
    rw [hq.inFlight]
    intro x hi
    obtain ⟨hm, hl⟩ := h.called x hi
    exact ⟨hm, hl.trans_le hq.operations⟩
  confirmed := fun o g ans hm =>
    (h.confirmed o g ans hm).trans_le hq.operations
  charging := by
    dsimp only
    rw [hq.inFlight, hq.iterations, hq.manifest]
    exact h.charging
  reserving := by
    dsimp only
    rw [hq.inFlight, hq.generator]
    exact h.reserving
  confirming := by
    dsimp only
    rw [hq.inFlight, hq.generator]
    exact h.confirming
  ending := by
    dsimp only
    rw [hq.inFlight, hq.generator]
    exact h.ending
  reservations := by
    dsimp only
    rw [hq.generator]
    exact h.reservations

/-- What a call is made for. -/
def Justified (run : Running) : LedgerCall → Prop
  | .consume stage value outcome used =>
    BackEdgeAt run.executor.manifest stage outcome value ∧
      used = run.executor.iterations (edgeKey stage outcome) ∧
      ∃ maximum, maxIterations value = some maximum ∧ maximum.le (.ofNat used) = false
  | .reserve _ maximum => run.executor.generator = none ∧ ∃ bound, maximum = .ofNat bound
  | .confirm generator => ∃ live, run.executor.generator = some live ∧
      live.operation = generator ∧ live.maximum.le (.ofNat live.outputs) = false
  | .releaseEnded generator _ =>
    ∃ live, run.executor.generator = some live ∧ live.operation = generator
  | .releaseDisposed _ _ => True

variable {op : Nat} {lc : LedgerCall}

/-- A new entry that is a call counts for nothing. -/
theorem countP_called {p : Noted → Bool} (hp : p (.called op lc) = false) :
    (log ++ [Noted.called op lc]).countP p = log.countP p := by
  simp [countP_append, hp]

variable {an : LedgerAnswer}

theorem mem_append_called {o : Nat} {oc : LedgerCall}
    (h : Noted.answered o oc an ∈ log ++ [.called op lc]) : Noted.answered o oc an ∈ log := by
  rcases mem_append.mp h with hold | hn
  · exact hold
  · cases mem_singleton.mp hn

/-- An entry that grants nothing leaves every reservation held or given back. -/
theorem Tidy.reservation_of_append (h : Tidy ⟨run, log⟩) {x : Noted} {o : Nat}
    (hx : x.grants o = false) (hg : ∃ e ∈ log ++ [x], e.grants o = true) :
    (∃ l, run.executor.generator = some l ∧ l.operation = o) ∨
      ∃ e ∈ log ++ [x], e.releases o = true := by
  obtain ⟨e, he, hg⟩ := hg
  have hold : e ∈ log := by
    rcases mem_append.mp he with hold | hn
    · exact hold
    · rw [mem_singleton.mp hn, hx] at hg
      cases hg
  refine (h.reservations o ⟨e, hold, hg⟩).imp_right ?_
  rintro ⟨r, hr, hre⟩
  exact ⟨r, mem_append_left _ hr, hre⟩

theorem Tidy.call (h : Tidy ⟨run, log⟩) (hc : Calls run a lc) (hf : run.inFlight = [])
    (hj : Justified run lc) : Tidy ⟨a, log ++ [.called run.operations lc]⟩ := by
  have ho : a.inFlight = [(run.operations, lc)] := by
    rw [hc.inFlight, hf, nil_append]
  have hi : ∀ {op : Nat} {x : LedgerCall}, (op, x) ∈ a.inFlight → op = run.operations ∧ x = lc := by
    intro op x hm
    rw [ho] at hm
    exact Prod.mk.inj (mem_singleton.mp hm)
  exact {
    single := by
      dsimp only
      rw [ho]
      exact Nat.le_refl 1
    counts := fun key => by
      rw [countP_called rfl, ← h.counts key]
      exact congrFun hc.iterations key
    bounded := by
      dsimp only
      rw [hc.iterations, hc.manifest]
      exact h.bounded
    edges := fun op s v o u an hm => by
      dsimp only
      rw [hc.manifest]
      exact h.edges op s v o u an (mem_append_called hm)
    outputs := fun g hg => by
      have hg : run.executor.generator = some g := hc.generator ▸ hg
      obtain ⟨hn, hb, hl⟩ := h.outputs g hg
      rw [countP_called rfl]
      refine ⟨hn, hb, ?_⟩
      dsimp only
      rw [hc.operations]
      exact hl.trans (Nat.lt_succ_self _)
    disposed := fun hd => by
      dsimp only
      rw [hc.generator]
      exact h.disposed (hc.status ▸ hd)
    called := fun it hm => by
      obtain ⟨hop, ha⟩ := hi hm
      dsimp only
      rw [hop, ha, hc.operations]
      exact ⟨mem_append_right _ (mem_singleton_self _), Nat.lt_succ_self _⟩
    confirmed := fun op g an hm => by
      dsimp only
      rw [hc.operations]
      exact (h.confirmed op g an (mem_append_called hm)).trans (Nat.lt_succ_self _)
    charging := fun op s v o u hm => by
      obtain ⟨-, rfl⟩ := hi hm
      dsimp only
      rw [hc.manifest, hc.iterations]
      exact hj
    reserving := fun op mid m hm => by
      obtain ⟨rfl, rfl⟩ := hi hm
      refine ⟨hc.generator.trans hj.1, hj.2, ?_⟩
      rw [countP_called rfl]
      refine countP_eq_zero.mpr fun e he hco => ?_
      unfold Noted.confirms at hco
      split at hco
      · next co confirmed an =>
        have hl := h.confirmed _ _ _ he
        have hs : confirmed = run.operations := by simp_all
        exact absurd hs (Nat.ne_of_lt hl)
      · cases hco
    confirming := fun op g hm => by
      obtain ⟨-, rfl⟩ := hi hm
      dsimp only
      rw [hc.generator]
      exact hj
    ending := fun op g mid hm => by
      obtain ⟨-, rfl⟩ := hi hm
      dsimp only
      rw [hc.generator]
      exact hj
    reservations := fun op hr => by
      dsimp only
      rw [hc.generator]
      exact h.reservation_of_append rfl hr }

/-- An executor that lets go of its Generator, and calls the ledger for it. -/
theorem Tidy.disposed_live (h : Tidy ⟨run, log⟩) {g : Generator}
    (hg : run.executor.generator = some g) (ha : a.executor.manifest = run.executor.manifest)
    (hi : a.executor.iterations = run.executor.iterations) (hn : a.executor.generator = none)
    (hops : a.operations = run.operations + 1)
    (hc : a.inFlight = [(run.operations, .releaseDisposed g.operation g.mutationId)]) :
    Tidy ⟨a, log ++ [.called run.operations (.releaseDisposed g.operation g.mutationId)]⟩ := by
  have hit : ∀ {op : Nat} {o : LedgerCall}, (op, o) ∈ a.inFlight →
      op = run.operations ∧ o = .releaseDisposed g.operation g.mutationId := by
    intro op o hm
    rw [hc] at hm
    exact Prod.mk.inj (mem_singleton.mp hm)
  exact {
    single := by
      dsimp only
      rw [hc]
      exact Nat.le_refl 1
    counts := fun key => by
      rw [countP_called rfl, ← h.counts key]
      exact congrFun hi key
    bounded := by
      dsimp only
      rw [hi, ha]
      exact h.bounded
    edges := fun op s v out u an hm => by
      dsimp only
      rw [ha]
      exact h.edges op s v out u an (mem_append_called hm)
    outputs := fun o ho => by
      rw [hn] at ho
      cases ho
    disposed := fun _ => hn
    called := fun x hm => by
      obtain ⟨hop, ho⟩ := hit hm
      dsimp only
      rw [hop, ho, hops]
      exact ⟨mem_append_right _ (mem_singleton_self _), Nat.lt_succ_self _⟩
    confirmed := fun op o an hm => by
      dsimp only
      rw [hops]
      exact (h.confirmed op o an (mem_append_called hm)).trans (Nat.lt_succ_self _)
    charging := fun _ _ _ _ _ hm => by cases (hit hm).2
    reserving := fun _ _ _ hm => by cases (hit hm).2
    confirming := fun _ _ hm => by cases (hit hm).2
    ending := fun _ _ _ hm => by cases (hit hm).2
    reservations := fun op hgr => by
      right
      rcases h.reservation_of_append rfl hgr with ⟨l, hl, hs⟩ | hr
      · obtain rfl := some.inj (hg.symm.trans hl)
        refine ⟨_, mem_append_right _ (mem_singleton_self _), ?_⟩
        exact beq_iff_eq.mpr hs
      · exact hr }

/-- Without its only call in flight a state has no call. -/
def Running.landed (run : Running) : Running := { run with inFlight := [] }

/-- The parts of the invariant that an answer leaves, whatever it grants. -/
theorem Tidy.edges_answered (h : Tidy ⟨run, log⟩) (ho : run.inFlight = [(op, lc)])
    (an : LedgerAnswer) : ∀ x s v o u oa, Noted.answered x (.consume s v o u) oa ∈
        log ++ [.answered op lc an] → BackEdgeAt run.executor.manifest s o v := by
  intro x s v o u oa hm
  rcases mem_append.mp hm with hold | hn
  · exact h.edges _ _ _ _ _ _ hold
  · obtain ⟨rfl, rfl, rfl⟩ := Noted.answered.inj (mem_singleton.mp hn)
    exact (h.charging _ _ _ _ _ (ho ▸ mem_singleton_self _)).1

theorem Tidy.confirmed_answered (h : Tidy ⟨run, log⟩) (ho : run.inFlight = [(op, lc)])
    (an : LedgerAnswer) : ∀ o g oa, Noted.answered o (.confirm g) oa ∈
        log ++ [.answered op lc an] → g < run.operations := by
  intro o g oa hm
  rcases mem_append.mp hm with hold | hn
  · exact h.confirmed _ _ _ hold
  · obtain ⟨rfl, rfl, rfl⟩ := Noted.answered.inj (mem_singleton.mp hn)
    obtain ⟨l, hl, rfl, -⟩ := h.confirming _ _ (ho ▸ mem_singleton_self _)
    exact (h.outputs l hl).2.2

/-- An answer that grants nothing changes nothing. -/
theorem Tidy.answered_plain (h : Tidy ⟨run, log⟩) (ho : run.inFlight = [(op, lc)])
    (hc : ∀ key, (Noted.answered op lc an).consumes key = false)
    (hco : ∀ o, (Noted.answered op lc an).confirms o = false)
    (hr : ∀ o, (Noted.answered op lc an).grants o = false) :
    Tidy ⟨run.landed, log ++ [.answered op lc an]⟩ where
  single := Nat.zero_le _
  counts := fun key => by
    rw [countP_append, countP_singleton, hc key]
    exact h.counts key
  bounded := h.bounded
  edges := h.edges_answered ho an
  outputs := fun g he => by
    rw [countP_append, countP_singleton, hco]
    exact h.outputs g he
  disposed := h.disposed
  called := forall_mem_nil _
  confirmed := h.confirmed_answered ho an
  charging := fun _ _ _ _ _ hm => by cases hm
  reserving := fun _ _ _ hm => by cases hm
  confirming := fun _ _ hm => by cases hm
  ending := fun _ _ _ hm => by cases hm
  reservations := fun o hg => h.reservation_of_append (hr o) hg

/-- A number that does not reach a whole bound yet. -/
theorem lt_of_le_eq_false {b u : Nat} (h : (Number.ofNat b).le (.ofNat u) = false) : u < b := by
  rw [Number.ofNat_le] at h
  exact Nat.lt_of_not_le (of_decide_eq_false h)

/-- A charge that is consumed counts for its edge. -/
theorem Tidy.answered_consumed (h : Tidy ⟨run, log⟩) (hc : Countable run.executor.manifest)
    {s o : String} {v : Value} {u : Nat} (hn : run.inFlight = [(op, .consume s v o u)])
    (hs : an.state = some "consumed") : Tidy ⟨{ run.landed with executor := { run.executor with
      iterations := Function.update run.executor.iterations (edgeKey s o) (u + 1) } },
      log ++ [.answered op (.consume s v o u) an]⟩ := by
  obtain ⟨he, rfl, m, ha, hr⟩ :=
    h.charging op s v o u (hn ▸ mem_singleton_self _)
  exact {
    single := Nat.zero_le _
    counts := fun key => by
      rw [countP_append, countP_singleton]
      by_cases hk : key = edgeKey s o
      · subst hk
        dsimp only
        rw [update_self, h.counts]
        simp [Noted.consumes, hs]
      · dsimp only
        rw [update_of_ne hk, h.counts key]
        simp [Noted.consumes, Ne.symm hk]
    bounded := fun x se ov om ho hom => by
      dsimp only
      by_cases hk : edgeKey x se = edgeKey s o
      · obtain ⟨rfl, rfl⟩ := hc.keys _ _ _ _ _ _ ho he hk
        obtain rfl := he.unique ho
        obtain rfl := some.inj (ha.symm.trans hom)
        obtain ⟨b, rfl⟩ := hc.whole _ _ _ _ he ha
        rw [update_self, Number.ofNat_le]
        exact decide_eq_true (lt_of_le_eq_false hr)
      · rw [update_of_ne hk]
        exact h.bounded x se ov om ho hom
    edges := h.edges_answered hn an
    outputs := fun g hgen => by
      rw [countP_append, countP_singleton]
      exact h.outputs g hgen
    disposed := h.disposed
    called := forall_mem_nil _
    confirmed := h.confirmed_answered hn an
    charging := fun _ _ _ _ _ hm => by cases hm
    reserving := fun _ _ _ hm => by cases hm
    confirming := fun _ _ hm => by cases hm
    ending := fun _ _ _ hm => by cases hm
    reservations := fun _ hg => h.reservation_of_append rfl hg }

/-- A reservation that is granted is the Generator's. -/
theorem Tidy.answered_reserved (h : Tidy ⟨run, log⟩) (ho : run.executor.status ≠ .disposed)
    {mid : String} {m : Number} (hone : run.inFlight = [(op, .reserve mid m)])
    (an : LedgerAnswer) : Tidy ⟨{ run.landed with executor := { run.executor with
      generator := some ⟨op, mid, m, 0⟩ } },
      log ++ [.answered op (.reserve mid m) an]⟩ := by
  have hm : (op, LedgerCall.reserve mid m) ∈ run.inFlight :=
    hone ▸ mem_singleton_self _
  obtain ⟨hn, ⟨b, rfl⟩, hz⟩ := h.reserving op mid m hm
  exact {
    single := Nat.zero_le _
    counts := fun key => by
      rw [countP_append, countP_singleton]
      exact h.counts key
    bounded := h.bounded
    edges := h.edges_answered hone an
    outputs := fun generator hgen => by
      obtain rfl := some.inj hgen
      rw [countP_append, countP_singleton, hz]
      exact ⟨rfl, ⟨b, rfl, Nat.zero_le b⟩, (h.called _ hm).2⟩
    disposed := fun hd => absurd hd ho
    called := forall_mem_nil _
    confirmed := h.confirmed_answered hone an
    charging := fun _ _ _ _ _ hi => by cases hi
    reserving := fun _ _ _ hi => by cases hi
    confirming := fun _ _ hi => by cases hi
    ending := fun _ _ _ hi => by cases hi
    reservations := fun o hg => by
      obtain ⟨e, he, hg⟩ := hg
      rcases mem_append.mp he with hold | hw
      · rcases h.reservations o ⟨e, hold, hg⟩ with ⟨l, hl, -⟩ | hr
        · rw [hn] at hl
          cases hl
        · obtain ⟨r, hm, hre⟩ := hr
          exact .inr ⟨r, mem_append_left _ hm, hre⟩
      · rw [mem_singleton.mp hw] at hg
        simp only [Noted.grants, Bool.and_eq_true, beq_iff_eq] at hg
        exact .inl ⟨_, rfl, hg.2⟩ }

/-- An output that is confirmed counts for its Generator. -/
theorem Tidy.answered_confirmed (h : Tidy ⟨run, log⟩) {live : Generator}
    (hl : run.executor.generator = some live) (he : run.inFlight = [(op, .confirm live.operation)])
    (ha : an.confirmed = true) : Tidy ⟨{ run.landed with executor := { run.executor with
      generator := some { live with outputs := live.outputs + 1 } } },
      log ++ [.answered op (.confirm live.operation) an]⟩ := by
  obtain ⟨o, ho, -, hro⟩ :=
    h.confirming op live.operation (he ▸ mem_singleton_self _)
  obtain rfl := some.inj (hl.symm.trans ho)
  obtain ⟨hc, ⟨b, hb, -⟩, ht⟩ := h.outputs live hl
  exact {
    single := Nat.zero_le _
    counts := fun key => by
      rw [countP_append, countP_singleton]
      exact h.counts key
    bounded := h.bounded
    edges := h.edges_answered he an
    outputs := fun generator hgen => by
      obtain rfl := some.inj hgen
      rw [countP_append, countP_singleton, ← hc]
      rw [hb] at hro
      refine ⟨?_, ⟨b, hb, lt_of_le_eq_false hro⟩, ht⟩
      simp [Noted.confirms, ha]
    disposed := fun hd => by
      have hn := h.disposed hd
      dsimp only at hn
      rw [hl] at hn
      cases hn
    called := forall_mem_nil _
    confirmed := h.confirmed_answered he an
    charging := fun _ _ _ _ _ hi => by cases hi
    reserving := fun _ _ _ hi => by cases hi
    confirming := fun _ _ hi => by cases hi
    ending := fun _ _ _ hi => by cases hi
    reservations := fun o hg => by
      rcases h.reservation_of_append rfl hg with ⟨held, hh, hs⟩ | hr
      · obtain rfl := some.inj (hl.symm.trans hh)
        exact .inl ⟨_, rfl, hs⟩
      · exact .inr hr }

/-- A Generator whose reservation was given back is let go of. -/
theorem Tidy.ended (h : Tidy ⟨run, log⟩) (hf : run.inFlight = [])
    (hr : ∀ l, run.executor.generator = some l → ∃ e ∈ log, e.releases l.operation = true) :
    Tidy ⟨{ run with executor := { run.executor with generator := none } }, log⟩ where
  single := h.single
  counts := h.counts
  bounded := h.bounded
  edges := h.edges
  outputs := fun _ he => by cases he
  disposed := fun _ => rfl
  called := h.called
  confirmed := h.confirmed
  charging := h.charging
  reserving := fun op mid m hm => by
    obtain ⟨-, hre⟩ := h.reserving op mid m hm
    exact ⟨rfl, hre⟩
  confirming := fun op generator hm => by
    dsimp only at hm
    rw [hf] at hm
    cases hm
  ending := fun op generator mid hm => by
    dsimp only at hm
    rw [hf] at hm
    cases hm
  reservations := fun op hg => by
    right
    rcases h.reservations op hg with ⟨l, hl, rfl⟩ | hb
    · exact hr l hl
    · exact hb

/-- What the callback of a call keeps, where nothing is granted to an executor that was disposed. -/
theorem Tidy.answered (h : Tidy ⟨run, log⟩) (hcnt : Countable run.executor.manifest)
    (hone : run.inFlight = [(op, lc)])
    (hc : run.executor.status = .disposed → ¬ lc.Granted an.state) :
    Tidy ⟨run.landed.answered op lc an, log ++ [.answered op lc an]⟩ := by
  cases lc with
  | consume s v o u =>
    have hp : an.state ≠ some "consumed" → Tidy ⟨run.landed,
        log ++ [.answered op (.consume s v o u) an]⟩ := by
      intro ho
      refine h.answered_plain hone (fun key => ?_) (fun _ => rfl) fun _ => rfl
      simp [Noted.consumes, ho]
    change Tidy ⟨run.landed.charged op s v o u an, _⟩
    unfold charged
    split
    · next hd =>
      exact (hp (hc hd)).quiet ⟨rfl, rfl, rfl, rfl, le_rfl, .inl⟩
    · split
      · next he =>
        have ho : an.state ≠ some "consumed" := by
          rw [he]
          decide
        exact (hp ho).quiet ⟨rfl, rfl, rfl, rfl, le_rfl, fun hst => by cases hst⟩
      · split
        · next ho =>
          exact (hp ho).quiet ⟨rfl, rfl, rfl, rfl, le_rfl, .inl⟩
        · next hcn =>
          exact (h.answered_consumed hcnt hone (not_not.mp hcn)).quiet (quiet_follow ..)
  | reserve mid m =>
    have hp : an.state ≠ some "reserved" → Tidy ⟨run.landed,
        log ++ [.answered op (.reserve mid m) an]⟩ := by
      intro ho
      refine h.answered_plain hone (fun _ => rfl) (fun _ => rfl) fun x => ?_
      simp [Noted.grants, ho]
    change Tidy ⟨run.landed.reserved op mid m an, _⟩
    unfold reserved
    split
    · next hd =>
      exact (hp (hc hd)).quiet ⟨rfl, rfl, rfl, rfl, le_rfl, .inl⟩
    · next hop =>
      split
      · next he =>
        have ho : an.state ≠ some "reserved" := by
          rw [he]
          decide
        exact (hp ho).quiet ⟨rfl, rfl, rfl, rfl, le_rfl, fun hst => by cases hst⟩
      · split
        · next ho =>
          exact (hp ho).quiet ⟨rfl, rfl, rfl, rfl, le_rfl, .inl⟩
        · exact (h.answered_reserved hop hone an).quiet ⟨rfl, rfl, rfl, rfl, le_rfl, .inl⟩
  | confirm g =>
    obtain ⟨l, hl, rfl, -⟩ :=
      h.confirming op g (hone ▸ mem_singleton_self _)
    have hop : run.executor.status ≠ .disposed := by
      intro hd
      have hn := h.disposed hd
      dsimp only at hn
      rw [hl] at hn
      cases hn
    change Tidy ⟨run.landed.confirmed op l.operation an, _⟩
    unfold Running.confirmed
    split
    · next held hh =>
      obtain rfl := some.inj (hl.symm.trans hh)
      split
      · next hg => exact absurd hg (by simp [landed, hop])
      · split
        · next hr =>
          have hp : Tidy ⟨run.landed, log ++ [.answered op (.confirm l.operation) an]⟩ := by
            refine h.answered_plain hone (fun _ => rfl) (fun x => ?_) fun _ => rfl
            have hf : an.confirmed = false := by simpa using hr
            simp [Noted.confirms, hf]
          exact hp.quiet ⟨rfl, rfl, rfl, rfl, le_rfl, .inl⟩
        · next hco =>
          have ht : an.confirmed = true := by simpa using hco
          exact (h.answered_confirmed hl hone ht).quiet ⟨rfl, rfl, rfl, rfl, le_rfl, .inl⟩
    · next hn =>
      have hs : run.executor.generator = none := hn
      rw [hl] at hs
      cases hs
  | releaseEnded g mid =>
    have hm : (op, LedgerCall.releaseEnded g mid) ∈ run.inFlight :=
      hone ▸ mem_singleton_self _
    have hp : Tidy ⟨run.landed, log ++ [.answered op (.releaseEnded g mid) an]⟩ :=
      h.answered_plain hone (fun _ => rfl) (fun _ => rfl) fun _ => rfl
    have hen := hp.ended rfl fun l hl => by
      obtain ⟨held, hh, hs⟩ := h.ending op g mid hm
      obtain rfl := some.inj (hh.symm.trans hl)
      refine ⟨_, mem_append_left _ (h.called _ hm).1, ?_⟩
      exact beq_iff_eq.mpr hs.symm
    change Tidy ⟨run.landed.releasedEnded op an, _⟩
    unfold releasedEnded
    dsimp only
    split
    · exact hen.quiet ⟨rfl, rfl, rfl, rfl, le_rfl, .inl⟩
    · exact hp.quiet ⟨rfl, rfl, rfl, rfl, le_rfl, .inl⟩
  | releaseDisposed g mid =>
    have hp : Tidy ⟨run.landed, log ++ [.answered op (.releaseDisposed g mid) an]⟩ :=
      h.answered_plain hone (fun _ => rfl) (fun _ => rfl) fun _ => rfl
    exact hp.quiet ⟨rfl, rfl, rfl, rfl, le_rfl, .inl⟩

variable {event : Event}

/-- What an event that is no answer has to do with the ledger are the calls that it makes. -/
theorem noted_of_inFlight (hc : ∀ i an, event ≠ .answer i an)
    {new : List (Nat × LedgerCall)} (h : (run.step event).inFlight = run.inFlight ++ new) :
    noted run event = new.map fun x => .called x.1 x.2 := by
  unfold noted
  rw [h, drop_left]
  cases event with
  | answer i an => exact absurd rfl (hc i an)
  | _ => rfl

/-- A step keeps the invariant, and the document. -/
def KeepsTidy (run : Running) (log : List Noted) (event : Event) : Prop :=
  Tidy (Traced.step ⟨run, log⟩ event) ∧ (run.step event).executor.manifest = run.executor.manifest

theorem keepsTidy_quiet (h : Tidy ⟨run, log⟩) (hc : ∀ i an, event ≠ .answer i an)
    (hq : Quiet run (run.step event)) : KeepsTidy run log event := by
  have hn : noted run event = [] :=
    noted_of_inFlight hc (hq.inFlight.trans (append_nil _).symm)
  refine ⟨?_, hq.manifest⟩
  unfold Traced.step
  dsimp only
  rw [hn, append_nil]
  exact h.quiet hq

theorem keepsTidy_calls (h : Tidy ⟨run, log⟩) (ha : ∀ i an, event ≠ .answer i an)
    (hc : Calls run (run.step event) lc) (hf : run.inFlight = [])
    (hj : Justified run lc) : KeepsTidy run log event := by
  refine ⟨?_, hc.manifest⟩
  unfold Traced.step
  dsimp only
  rw [noted_of_inFlight ha hc.inFlight]
  exact h.call hc hf hj

theorem manifest_applyTransition (e : Executor) (o : Value) (s : String) (oun : Option Value)
    (ex : Bool) (r : Option String) : (e.applyTransition o s oun ex r).2.manifest =
      e.manifest := by
  unfold applyTransition
  split <;> rfl

theorem manifest_answered (run : Running) (op : Nat) (lc : LedgerCall) (an : LedgerAnswer) :
    (run.answered op lc an).executor.manifest = run.executor.manifest := by
  cases lc with
  | consume s v o u =>
    change (run.charged op s v o u an).executor.manifest = _
    unfold charged
    split
    · rfl
    · split
      · rfl
      · split
        · rfl
        · exact manifest_applyTransition ..
  | reserve mid m =>
    change (run.reserved op mid m an).executor.manifest = _
    unfold reserved
    split
    · rfl
    · split
      · rfl
      · split <;> rfl
  | confirm g =>
    change (run.confirmed op g an).executor.manifest = _
    unfold Running.confirmed
    split
    · split
      · rfl
      · split <;> rfl
    · rfl
  | releaseEnded g mid =>
    change (run.releasedEnded op an).executor.manifest = _
    unfold releasedEnded
    dsimp only
    split <;> rfl
  | releaseDisposed g mid => rfl

theorem keepsTidy_answer (h : Tidy ⟨run, log⟩) (hcnt : Countable run.executor.manifest) {i : Nat}
    (hc : Careful run (.answer i an)) : KeepsTidy run log (.answer i an) := by
  have hs : run.inFlight.length ≤ 1 := h.single
  unfold KeepsTidy Traced.step noted step handle
  dsimp only
  unfold answer
  cases ha : run.inFlight[i]? with
  | none =>
    dsimp only
    rw [toList_none, map_nil, nil_append, drop_length, map_nil, append_nil]
    exact ⟨h, rfl⟩
  | some it =>
    obtain ⟨op, lc⟩ := it
    obtain ⟨hd, hi⟩ := List.getElem?_eq_some_iff.mp ha
    have ho : run.inFlight = [(op, lc)] := by
      obtain ⟨x, hf⟩ := length_eq_one_iff.mp (by omega : run.inFlight.length = 1)
      have hz : i = 0 := by omega
      subst hz
      simp only [hf, getElem_cons_zero] at hi
      rw [hf, hi]
    have hz : i = 0 := by omega
    have hl : ({ run with inFlight := run.inFlight.eraseIdx i } : Running) = run.landed := by
      rw [ho, hz]
      rfl
    have ht := h.answered hcnt ho (hc op lc ha)
    dsimp only
    rw [hl]
    have hn : (run.landed.answered op lc an).inFlight.drop run.inFlight.length = [] := by
      refine drop_eq_nil_of_le ?_
      rw [ho]
      exact ht.single
    rw [hn]
    exact ⟨ht, manifest_answered ..⟩

/-- What a step keeps where the condition is met. -/
theorem Tidy.step (h : Tidy ⟨run, log⟩) (ht : Countable run.executor.manifest)
    (hc : Careful run event) : KeepsTidy run log event := by
  have hf : Ready run → (run.executor.status = .active → run.executor.pending = false →
      run.inFlight = []) → run.inFlight = [] := fun hr hcn =>
    hcn hr.status hr.pending
  cases event with
  | advance oun mid c =>
    rcases advance_cases run oun mid c with hq | hh
    · exact keepsTidy_quiet h (fun _ _ => Event.noConfusion) hq
    · obtain ⟨hr, -, s, v, m, he, hx, ho, ha⟩ := hh
      exact keepsTidy_calls h (fun _ _ => Event.noConfusion) ha (hf hr hc) ⟨he, rfl, m, hx, ho⟩
  | beginGenerator mid c =>
    rcases beginGenerator_cases run mid c with hq | hrs
    · exact keepsTidy_quiet h (fun _ _ => Event.noConfusion) hq
    · obtain ⟨hr, hn, b, ha⟩ := hrs
      exact keepsTidy_calls h (fun _ _ => Event.noConfusion) ha (hf hr hc) ⟨hn, b, rfl⟩
  | recordGeneratorOutput oi c =>
    rcases recordGeneratorOutput_cases run oi c with hq | hco
    · exact keepsTidy_quiet h (fun _ _ => Event.noConfusion) hq
    · obtain ⟨hr, g, hg, ho, ha⟩ := hco
      exact keepsTidy_calls h (fun _ _ => Event.noConfusion) ha (hf hr hc) ⟨g, hg, rfl, ho⟩
  | endGenerator c =>
    rcases endGenerator_cases run c with hq | hre
    · exact keepsTidy_quiet h (fun _ _ => Event.noConfusion) hq
    · obtain ⟨hr, g, hg, ha⟩ := hre
      exact keepsTidy_calls h (fun _ _ => Event.noConfusion) ha (hf hr hc) ⟨g, hg, rfl⟩
  | park =>
    refine keepsTidy_quiet h (fun _ _ => Event.noConfusion) ?_
    change Quiet run run.park.2
    unfold Running.park
    split
    · exact .refl run
    · exact .refl run
    · exact ⟨rfl, rfl, rfl, rfl, le_rfl, fun hs => by cases hs⟩
  | cancel =>
    refine keepsTidy_quiet h (fun _ _ => Event.noConfusion) ?_
    change Quiet run run.cancel.2
    unfold cancel
    split
    · exact .refl run
    · exact .refl run
    · exact ⟨rfl, rfl, rfl, rfl, le_rfl, fun hs => by cases hs⟩
  | resume =>
    refine keepsTidy_quiet h (fun _ _ => Event.noConfusion) ?_
    change Quiet run run.resume.2
    unfold resume
    split
    · exact .refl run
    · exact .refl run
    · exact .refl run
    · exact .refl run
    · exact ⟨rfl, rfl, rfl, rfl, le_rfl, fun hs => by cases hs⟩
  | dispose c =>
    rcases dispose_cases run c with hq | hl
    · exact keepsTidy_quiet h (fun _ _ => Event.noConfusion) hq
    · obtain ⟨hcl, g, hg, hm, hi, hn, hops, hcal⟩ :=
        hl
      obtain ⟨hf, hre⟩ := hc hcl (by rw [hg]; rfl)
      have hif := hcal hre
      refine ⟨?_, hm⟩
      have hno : noted run (.dispose c) = _ :=
        noted_of_inFlight (fun _ _ => Event.noConfusion) hif
      unfold Traced.step
      dsimp only
      rw [hno]
      rw [hf, nil_append] at hif
      exact h.disposed_live hg hm hi hn hops hif
  | answer i an => exact keepsTidy_answer h ht hc
  | settle i =>
    refine keepsTidy_quiet h (fun _ _ => Event.noConfusion) ?_
    change Quiet run (run.deliver i)
    unfold deliver
    split
    · exact .refl run
    · exact ⟨rfl, rfl, rfl, rfl, le_rfl, .inl⟩

end

/-! ### Runs -/

/-- Whatever the order of calls, answers and settlements: where no operation is called while a
call is in flight whose guard a settlement cleared, an executor with a live Generator is disposed
only while nothing is in flight and through a ledger that releases, and nothing is granted to an
executor that was disposed, its ledger calls are made one at a time, every charge and output is
counted once and within its bound, and every reservation is held or given back. -/
theorem ledger_conserved (text : Key → String) (workflow : String) (manifest : Manifest)
    (ledger : Ledger) (executor : Executor)
    (hnew : new text workflow manifest ledger = .ok executor)
    (hcountable : Countable executor.manifest) (events : List Event)
    (hcareful : Throughout Traced.step (fun traced event => Careful traced.run event)
      ⟨.start executor, []⟩ events) :
    Always Traced.step Conserved ⟨.start executor, []⟩ events := by
  have hs : Tidy ⟨.start executor, []⟩ := by
    unfold new at hnew
    split at hnew
    · cases hnew
    · dsimp only at hnew
      split at hnew
      · cases hnew
      · split at hnew
        · cases hnew
        · next e _ =>
          obtain rfl := Except.ok.inj hnew
          exact tidy_start _ e ledger hcountable
  have ha : Always Traced.step (fun traced => Tidy traced ∧
      Countable traced.run.executor.manifest) ⟨.start executor, []⟩ events := by
    refine always_of_throughout (fun traced event h he => ?_) ⟨hs, hcountable⟩ hcareful
    obtain ⟨ht, hm⟩ := h.1.step h.2 he
    refine ⟨ht, ?_⟩
    change Countable (traced.run.step event).executor.manifest
    rw [hm]
    exact h.2
  exact ha.mono fun traced h => h.1.conserved h.2

/-! ### An example -/

theorem backEdgeAt_sample {s o : String} {v : Value}
    (h : BackEdgeAt sampleExecutor.manifest s o v) :
    s = "plan" ∧ o = "again" ∧ v = sampleAgain := by
  obtain ⟨b, hb, hf, ha, -⟩ := h
  have hn : s = "plan" ∧ b.field "outcomes" = some (.array [sampleAgain, sampleDone, park]) := by
    change (escape "w" sampleManifest).stage s = some b at hb
    rw [stage_escape] at hb
    obtain ⟨ori, ho, rfl⟩ := map_eq_some_iff.mp hb
    obtain ⟨rfl, rfl⟩ := Prod.mk.inj (mem_singleton.mp (Manifest.stage_eq_some.mp ho))
    refine ⟨rfl, ?_⟩
    rw [outcomes_escapeBlock (by decide +kernel)]
    exact congrArg (fun xs => some (Value.array (xs ++ [park])))
      (Value.sequence_array [sampleAgain, sampleDone])
  obtain ⟨rfl, hu⟩ := hn
  have hv : findOutcome b (some (.str o)) = [sampleAgain, sampleDone, park].find? fun v =>
        Value.isTable (some v) && rawEqual (v.field "name") (some (.str o)) := by
    unfold findOutcome
    rw [hu]
    exact congrArg (List.find? _) (Value.sequence_array [sampleAgain, sampleDone, park])
  rw [hv] at hf
  have hna := List.find?_some hf
  have hm := mem_of_find?_eq_some hf
  simp only [mem_cons, not_mem_nil, or_false] at hm
  rcases hm with rfl | rfl | rfl
  · have hs : ("again" == o) = true := hna
    exact ⟨rfl, (beq_iff_eq.mp hs).symm, rfl⟩
  · cases ha
  · cases ha

theorem countable_sample : Countable sampleExecutor.manifest where
  keys := fun _ _ _ _ _ _ h ho _ => by
    obtain ⟨ht, hu, -⟩ := backEdgeAt_sample h
    obtain ⟨ho, hs, -⟩ := backEdgeAt_sample ho
    exact ⟨ht.trans ho.symm, hu.trans hs.symm⟩
  whole := fun _ _ _ m h hm => by
    obtain ⟨-, -, rfl⟩ := backEdgeAt_sample h
    exact ⟨2, (some.inj hm).symm⟩

/-- An advance over the automatic back edge whose charge is consumed. -/
theorem ledger_conserved_sample : Always Traced.step Conserved ⟨.start sampleExecutor, []⟩
      [.advance "again" (some "m") true, .answer 0 ⟨some "consumed", true, none⟩] := by
  refine ledger_conserved (fun _ => "") "w" sampleManifest sampleLedger sampleExecutor new_sample
    countable_sample _ ⟨fun _ _ => rfl, fun _ _ _ hd => ?_, trivial⟩
  exact absurd hd (by decide +kernel)

/-- A settlement of a refused charge clears the guard of the next one, so that a third one is
called beside it and both count once; and a reservation that is granted after the executor was
disposed is neither held nor given back. -/
theorem ledger_raced : new (fun _ => "") "w" sampleManifest sampleLedger = .ok sampleExecutor ∧
      ¬ Conserved ([.advance "again" none true, .advance "again" (some "m") true, .settle 0,
        .advance "again" (some "n") true].foldl Traced.step ⟨.start sampleExecutor, []⟩) ∧
      ¬ Conserved ([.beginGenerator "g" true, .dispose true,
        .answer 0 ⟨some "reserved", true, none⟩].foldl Traced.step
          ⟨.start sampleExecutor, []⟩) := by
  refine ⟨new_sample, fun h => ?_, fun h => ?_⟩
  · have hs := h.single
    revert hs
    decide +kernel
  · have hl : ∀ t : Traced, t.log.any (·.grants 0) = true →
        t.log.any (·.releases 0) = false → t.run.executor.generator.isNone = true →
        ¬ Conserved t := by
      intro t hg hr hn hc
      rcases hc.reservations 0 (any_eq_true.mp hg) with ⟨l, hi, -⟩ | he
      · simp [hi] at hn
      · rw [any_eq_true.mpr he] at hr
        cases hr
    exact hl _ (by decide +kernel) (by decide +kernel) (by decide +kernel) h

end Louiselm.Workflow
