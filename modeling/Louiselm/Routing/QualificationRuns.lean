import Louiselm.Base.Runs
import Louiselm.Routing.Qualification

/-!
# Comparison approvals from several processes

`lua/louiselm/routing/qualification.lua`, `Qualification:decide`: each object reads the whole file
in one scheduled step and replaces it in a later one. Only an object's own flag keeps two of its
decisions apart; nothing keeps those of different objects apart.
-/

namespace Louiselm.Routing.Qualification
open Base Base.Lua List Value State
open Option (some.inj some.injEq bind_some mem_some_iff)
open Except (ok.inj)

/-- What an object is busy with: its scheduled read, or its scheduled write of one more decision
than it has read. -/
inductive Operation where
  | reading (input : Value)
  | writing (state : State) (decision : Value)

/-- The result of a failed write, which keeps the file. -/
inductive WriteFailure where
  | directory
  | encode
  | file (operation detail : String)

def WriteFailure.message : WriteFailure → String
  | .directory => "could not create comparison approval directory"
  | .encode => "could not encode comparison approvals"
  | .file operation detail =>
    "could not " ++ operation ++ " comparison approvals: " ++ detail

/-- How one write goes: it fails, or it replaces the file, after which the callback reports success
unless the process ends first. -/
inductive WriteOutcome where
  | failed (failure : WriteFailure)
  | replaced (reported : Bool)

/-- The file, what every object is busy with, and the decisions so far: those whose callback has
reported success, and all that were ever in the file. -/
structure System where
  file : Stored
  operations : Nat → Option Operation
  acknowledged : List Value
  recorded : List Value

inductive Event where
  | decide (object : Nat) (input : Option Value)
  | read (object : Nat) (look : ReadLook) (now : Int)
  | write (object : Nat) (outcome : WriteOutcome)
  | exit (object : Nat)

/-- The durable history: the decisions of the file as far as it can be read. -/
def history (file : Stored) : List Value :=
  match readState ⟨true, none⟩ file with
  | .ok state => state.decisions
  | .error _ => []

namespace System

/-- A path before any decision of these objects. -/
def start (file : Stored) : System := ⟨file, fun _ => none, [], history file⟩

/-- The object is busy with another operation, or with none. -/
def become (system : System) (object : Nat) (operation : Option Operation) : System :=
  { system with operations := Function.update system.operations object operation }

/-- One step of one object. -/
def step (system : System) : Event → System
  | .decide object input =>
    match checkInput (system.operations object).isSome input with
    | .ok input => system.become object (some (.reading input))
    | .error _ => system
  | .read object look now =>
    match system.operations object with
    | some (.reading input) =>
      match readState look system.file with
      | .error _ => system.become object none
      | .ok state =>
        system.become object (some (.writing state (decisionOf input (state.revision + 1) now)))
    | _ => system
  | .write object outcome =>
    match system.operations object with
    | some (.writing state decision) =>
      match outcome with
      | .failed _ => system.become object none
      | .replaced reported =>
        { system.become object none with
          file := .regular (some (document ⟨state.decisions ++ [decision]⟩))
          acknowledged := system.acknowledged ++ if reported then [decision] else []
          recorded := system.recorded ++ [decision] }
    | _ => system
  | .exit object => system.become object none

end System

/-! ### What the decisions are to be -/

/-- What is reported as decided stays decided. -/
structure Durable (system : System) : Prop where
  present : ∀ decision ∈ system.acknowledged, decision ∈ history system.file
  named : ∀ decision ∈ system.recorded, ∀ other ∈ system.recorded,
    revisionOf decision = revisionOf other → decision = other
  rejected : ∀ decision ∈ system.acknowledged, isAction "reject" decision = true →
    ∀ look scope expected published, covers scope decision = true →
      lookup look system.file scope expected = .ok (some published) →
        ∃ later ∈ history system.file, published = result later ∧
          ∃ revision laterRevision, revisionOf decision = some (.ofNat revision) ∧
            revisionOf later = some (.ofNat laterRevision) ∧ revision < laterRevision
  atRevision : ∀ decision ∈ system.acknowledged, ∀ look scope outcome,
    covers scope decision = true →
      lookup look system.file scope (revisionOf decision) = .ok outcome →
        outcome = if isAction "approve" decision then some (result decision) else none

/-- A step keeps the history and adds to it at most. -/
def Grows (system : System) (event : Event) : Prop :=
  history system.file <+: history (system.step event).file

/-- A write finds the history that its read found, or the very decision that it adds already after
it. -/
def Current (system : System) : Event → Prop
  | .write object (.replaced _) => ∀ state decision,
      system.operations object = some (.writing state decision) →
        history system.file = state.decisions ∨ history system.file = state.decisions ++ [decision]
  | _ => True

/-! ### Decisions in the file -/

variable {ds : List Value}

theorem validDecisions_append {i : Nat} {os : List Value} : validDecisions i (ds ++ os) =
      (validDecisions i ds && validDecisions (i + ds.length) os) := by
  induction ds generalizing i with
  | nil => simp [validDecisions]
  | cons x xs ih =>
    rw [cons_append, validDecisions, validDecisions, ih, length_cons, Bool.and_assoc,
      Nat.add_right_comm, Nat.add_assoc]

variable {pl : Nat} {decision : Value}

/-- The revision of a decision is its place. -/
theorem revisionOf_getElem {i : Nat} (h : validDecisions i ds = true)
    (hp : ds[pl]? = some decision) : revisionOf decision = some (.ofNat (i + pl)) := by
  induction ds generalizing i pl with
  | nil => simp at hp
  | cons x xs ih =>
    rw [validDecisions, Bool.and_eq_true] at h
    cases pl with
    | zero =>
      obtain rfl := some.inj hp
      simp only [validDecision, Bool.and_eq_true, beq_iff_eq] at h
      exact h.1.1.2
    | succ pl =>
      rw [ih h.2 hp]
      congr 2
      omega

variable {state : State}

/-- A document reads back as the state that it was made of. -/
theorem decodeState_document (h : validDecisions 1 state.decisions = true) :
    decodeState state.document = .ok state := by
  have hi : items (state.document.field "decisions") = state.decisions :=
    sequence_array state.decisions
  have ha : array (state.document.field "decisions") 0 = true := by
    show array (some (Value.array state.decisions)) 0 = true
    simp only [array, Nat.zero_le, decide_true, Bool.and_true, Value.isArray_array]
    rfl
  have hv : number? (state.document.field "version") = some version := rfl
  have hr : number? (state.document.field "revision") = some (.ofNat state.decisions.length) := rfl
  have he : exact (some state.document) ["version", "revision", "decisions"] = true := by
    simp [exact, document]
  unfold decodeState
  rw [hi, ha, h, hv, hr, he]
  simp

theorem decodeState_ok {d : Value} (h : decodeState d = .ok state) :
    validDecisions 1 state.decisions = true := by
  unfold decodeState at h
  split at h
  · next hv =>
    obtain rfl := ok.inj h
    rw [Bool.and_eq_true] at hv
    exact hv.2
  · contradiction

variable {look : ReadLook} {file : Stored}

/-- What is read has valid decisions, and is what stands there or nothing. -/
theorem readState_ok (h : readState look file = .ok state) :
    validDecisions 1 state.decisions = true ∧
      (state = .empty ∨ readState ⟨true, none⟩ file = .ok state) := by
  have he : validDecisions 1 empty.decisions = true := rfl
  unfold readState at h
  split at h
  · obtain rfl := ok.inj h
    exact ⟨he, Or.inl rfl⟩
  · cases file with
    | absent =>
      obtain rfl := ok.inj h
      exact ⟨he, Or.inl rfl⟩
    | other => contradiction
    | regular d =>
      dsimp only at h
      split at h
      · contradiction
      · cases d with
        | none => contradiction
        | some d =>
          exact ⟨decodeState_ok h, Or.inr h⟩

variable {fields : List (Key × Value)}

theorem exact_iff {k : List String} :
    exact (some (.table fields)) k = true ↔ ∀ f ∈ fields, ∃ n ∈ k, f.1 = .str n := by
  simp only [exact, all_eq_true]
  refine forall_congr' fun f => imp_congr_right fun _ => ?_
  cases f.1 <;> simp

/-- A table with one more field has one more name. -/
theorem exact_set {k : List String} (n : String) (x : Value)
    (h : exact (some (.table fields)) k = true) :
    exact (some ((table fields).set n x)) (k ++ [n]) = true := by
  rw [exact_iff] at h
  refine exact_iff.mpr fun f hf => ?_
  rcases mem_append.mp hf with hold | hn
  · obtain ⟨key, hk, heq⟩ := h f (mem_of_mem_filter hold)
    exact ⟨key, mem_append_left _ hk, heq⟩
  · obtain rfl := mem_singleton.mp hn
    exact ⟨n, mem_append_right _ (mem_singleton_self n), rfl⟩

/-- An input that is taken is a table that decides. -/
theorem checkInput_ok {b : Bool} {g : Option Value} {i : Value}
    (h : checkInput b g = .ok i) : ∃ fields, i = .table fields ∧
      exact (some i) ["action", "report", "economics", "api_for_quota"] = true ∧
      decided i = true := by
  cases g with
  | none => contradiction
  | some v =>
    rw [checkInput] at h
    split at h
    · contradiction
    split at h
    · contradiction
    split at h
    · contradiction
    split at h
    · contradiction
    split at h
    · contradiction
    obtain rfl := ok.inj h
    next ha hr hc hp _ =>
    simp only [Bool.not_eq_true, Bool.not_eq_false', Bool.and_eq_true] at ha hr hp
    have ht : ∃ fields, v = .table fields := by
      cases v with
      | table fields => exact ⟨fields, rfl⟩
      | _ => simp [exact] at ha
    obtain ⟨fields, rfl⟩ := ht
    refine ⟨fields, rfl, ha.1, ?_⟩
    simp only [decided, Bool.and_eq_true, ha.2, hr, hp.1, hp.2]
    cases hap : isAction "approve" (table fields) <;> simp_all

/-- What is made of an input that is taken is a decision of its revision. -/
theorem validDecision_decisionOf {b : Bool} {g : Option Value} {i : Value}
    (h : checkInput b g = .ok i) (rev : Nat) (now : Int) :
    validDecision (decisionOf i rev now) rev = true := by
  obtain ⟨fields, rfl, he, hd⟩ := checkInput_ok h
  have hf : ∀ n, n ≠ "revision" → n ≠ "decided_at" →
      (decisionOf (.table fields) rev now).field n = (table fields).field n := by
    intro n hr ha
    rw [decisionOf, Value.set, Value.field_set_of_ne ha]
    exact Value.field_set_of_ne hr _
  have hr : (decisionOf (.table fields) rev now).field "revision" = some (.num (.ofNat rev)) := by
    rw [decisionOf, Value.set, Value.field_set_of_ne (by decide)]
    exact Value.field_set_self fields _ _
  have ha : (decisionOf (.table fields) rev now).field "decided_at" =
      some (.num (.finite now)) := Value.field_set_self _ _ _
  have hk : exact (some (decisionOf (.table fields) rev now))
      ["action", "report", "economics", "api_for_quota", "revision", "decided_at"] = true :=
    exact_set "decided_at" _ (exact_set "revision" _ he)
  have hs : decided (decisionOf (.table fields) rev now) = true := by
    rw [← hd]
    simp only [decided, isAction, hf "action" (by decide) (by decide),
      hf "report" (by decide) (by decide), hf "economics" (by decide) (by decide),
      hf "api_for_quota" (by decide) (by decide)]
  rw [validDecision, hk, hs, revisionOf, hr, ha]
  simp [number?, Number.isWhole]

/-! ### The history -/

theorem history_eq (h : readState ⟨true, none⟩ file = .ok state) :
    history file = state.decisions := by
  rw [history, h]

theorem validDecisions_history (file : Stored) : validDecisions 1 (history file) = true := by
  cases h : readState ⟨true, none⟩ file with
  | error error => rw [history, h, validDecisions]
  | ok state => rw [history_eq h, (readState_ok h).1]

/-- The file holds the history that was written. -/
theorem history_document (h : validDecisions 1 ds = true) :
    history (.regular (some (document ⟨ds⟩))) = ds := by
  have hr : readState ⟨true, none⟩ (.regular (some (document ⟨ds⟩))) =
      .ok ⟨ds⟩ := decodeState_document h
  exact history_eq hr

/-- What is read is the history or nothing. -/
theorem readState_history (h : readState look file = .ok state) :
    state.decisions = [] ∨ state.decisions = history file := by
  rcases (readState_ok h).2 with rfl | hr
  · exact Or.inl rfl
  · exact Or.inr (history_eq hr).symm

/-- A decision of the history has the revision of its place. -/
theorem revisionOf_history (h : (history file)[pl]? = some decision) :
    revisionOf decision = some (.ofNat (pl + 1)) := by
  rw [revisionOf_getElem (validDecisions_history file) h, Nat.add_comm]

/-- One revision of the history is one decision. -/
theorem eq_of_revisionOf {o : Value} (hd : decision ∈ history file)
    (ho : o ∈ history file) (h : revisionOf decision = revisionOf o) : decision = o := by
  obtain ⟨pl, hp⟩ := mem_iff_getElem?.mp hd
  obtain ⟨p', hp'⟩ := mem_iff_getElem?.mp ho
  rw [revisionOf_history hp, revisionOf_history hp', some.injEq,
    Number.ofNat_inj, Nat.add_right_cancel_iff] at h
  subst h
  exact some.inj (hp.symm.trans hp')

/-! ### Lookups -/

/-- What a lookup returns is the newest decision about the scope, and approves. -/
theorem lookup_ok {s : Option Value} {e : Option Number} {o : Option Value}
    (h : lookup look file s e = .ok o) : ∃ state, readState look file = .ok state ∧
      (∀ rev ∈ e, rev = .ofNat state.revision) ∧
      o = (state.decisions.reverse.find? (covers s)).bind fun decision =>
        if isAction "approve" decision then some (result decision) else none := by
  unfold lookup at h
  split at h
  · contradiction
  split at h
  · contradiction
  next state hs =>
  split at h
  · contradiction
  next he =>
  refine ⟨state, hs, fun rev hr => ?_, ?_⟩
  · rw [Option.mem_def] at hr
    subst hr
    simpa using he
  · split at h
    · next hn =>
      rw [hn]
      exact (ok.inj h).symm
    · next decision hf =>
      rw [hf, bind_some]
      split at h
      · next ha => rw [if_pos ha, ok.inj h]
      · next ho => rw [if_neg ho, ok.inj h]

/-- Nothing that a lookup returns is older than a decision about its scope. -/
theorem find?_newest {s : Option Value} {f : Value} (hp : ds[pl]? = some decision)
    (hc : covers s decision = true) (hf : ds.reverse.find? (covers s) = some f) :
    ∃ la, pl ≤ la ∧ ds[la]? = some f := by
  obtain ⟨-, pre, l, hs, hb⟩ := List.find?_eq_some_iff_append.mp hf
  have hd : ds = l.reverse ++ f :: pre.reverse := by
    rw [← reverse_reverse ds, hs, reverse_append, reverse_cons, append_assoc, singleton_append]
  refine ⟨l.reverse.length, ?_, ?_⟩
  · by_contra hl
    rw [Nat.not_le] at hl
    rw [hd, List.getElem?_append_right (Nat.le_of_lt hl),
      show pl - l.reverse.length = (pl - l.reverse.length - 1) + 1 by omega,
      List.getElem?_cons_succ] at hp
    have hm := mem_reverse.mp (mem_of_getElem? hp)
    have hn := hb decision hm
    rw [hc] at hn
    contradiction
  · rw [hd, List.getElem?_append_right (Nat.le_refl _), Nat.sub_self]
    rfl

/-! ### What every state keeps -/

/-- What an operation was begun with. -/
def Operation.Begun (file : Stored) : Operation → Prop
  | .reading input => ∃ busy given, checkInput busy given = .ok input
  | .writing state decision => state.decisions <+: history file ∧
      validDecisions 1 (state.decisions ++ [decision]) = true

/-- Every operation was begun properly, and no decision has left the file. -/
structure Kept (system : System) : Prop where
  begun : ∀ object operation, system.operations object = some operation →
    operation.Begun system.file
  recorded : ∀ decision ∈ system.recorded, decision ∈ history system.file
  acknowledged : ∀ decision ∈ system.acknowledged, decision ∈ system.recorded

theorem kept_start (file : Stored) : Kept (.start file) where
  begun := fun _ _ h => by contradiction
  recorded := fun _ h => h
  acknowledged := fun _ h => by contradiction

variable {sys : System}

/-- An object takes up an operation. -/
theorem Kept.become (h : Kept sys) (o : Nat) (op : Option Operation)
    (hb : ∀ begun ∈ op, begun.Begun sys.file) : Kept (sys.become o op) where
  begun := by
    intro x begun ho
    have hu : Function.update sys.operations o op x = some begun := ho
    rw [Function.update_apply] at hu
    split at hu
    · exact hb begun hu
    · exact h.begun x begun hu
  recorded := h.recorded
  acknowledged := h.acknowledged

/-- A longer history has what an operation was begun with. -/
theorem Operation.Begun.mono {op : Operation} {l : Stored} (h : op.Begun file)
    (hg : history file <+: history l) : op.Begun l := by
  cases op with
  | reading i => exact h
  | writing state decision => exact ⟨h.1.trans hg, h.2⟩

/-- A write puts its history in place. -/
theorem history_write (h : Kept sys) {o : Nat}
    (hop : sys.operations o = some (.writing state decision)) (r : Bool) :
    history (sys.step (.write o (.replaced r))).file = state.decisions ++ [decision] := by
  rw [System.step, hop]
  exact history_document (h.begun _ _ hop).2

/-- Every other step leaves the file. -/
theorem file_step {e : Event} (h : ∀ o r state decision, e = .write o (.replaced r) →
      sys.operations o ≠ some (.writing state decision)) : (sys.step e).file = sys.file := by
  cases e with
  | decide o i =>
    rw [System.step]
    split <;> rfl
  | read o look now =>
    rw [System.step]
    split
    · split <;> rfl
    · rfl
  | write o out =>
    rw [System.step]
    split
    · next state decision hop =>
      cases out with
      | failed f => rfl
      | replaced r => exact absurd hop (h o r state decision rfl)
    · rfl
  | exit o => rfl

/-- The history grows with exactly the steps that are current. -/
theorem grows_iff_current (h : Kept sys) (e : Event) : Grows sys e ↔ Current sys e := by
  by_cases hw : ∃ o r state decision, e = .write o (.replaced r) ∧
      sys.operations o = some (.writing state decision)
  · obtain ⟨o, r, state, decision, rfl, hop⟩ := hw
    have hb := (h.begun _ _ hop).1
    rw [Grows, history_write h hop]
    constructor
    · intro hg s' d' ho'
      obtain ⟨rfl, rfl⟩ :=
        Operation.writing.inj (some.inj (hop.symm.trans ho'))
      -- the history lies between what was read and one decision more
      rcases prefix_concat_iff.mp hg with heq | hi
      · exact Or.inr heq
      · exact Or.inl (hi.eq_of_length_le hb.length_le)
    · intro hc
      rcases hc state decision hop with heq | heq
      · exact heq ▸ prefix_append _ _
      · exact heq ▸ prefix_refl _
  · have hf : (sys.step e).file = sys.file :=
      file_step fun o r state decision he hop =>
        hw ⟨o, r, state, decision, he, hop⟩
    refine iff_of_true ?_ ?_
    · simp only [Grows, hf, prefix_refl]
    · cases e with
      | write o out =>
        cases out with
        | failed f => trivial
        | replaced r =>
          intro state decision hop
          exact absurd ⟨o, r, state, decision, rfl, hop⟩ hw
      | _ => trivial

/-- A current step keeps what every state keeps. -/
theorem Kept.step (h : Kept sys) {e : Event} (hc : Current sys e) : Kept (sys.step e) := by
  cases e with
  | decide o i =>
    rw [System.step]
    split
    · next i' hi =>
      refine h.become o _ fun b hb => ?_
      obtain rfl := mem_some_iff.mp hb
      exact ⟨_, _, hi⟩
    · exact h
  | read o look now =>
    rw [System.step]
    split
    · next i hop =>
      split
      · exact h.become o _ fun _ hb => by contradiction
      · next state hs =>
        refine h.become o _ fun b hb => ?_
        obtain rfl := mem_some_iff.mp hb
        obtain ⟨bu, g, hi⟩ := h.begun _ _ hop
        refine ⟨?_, ?_⟩
        · rcases readState_history hs with hn | ha
          · exact hn ▸ nil_prefix
          · exact ha ▸ prefix_refl _
        · rw [validDecisions_append, (readState_ok hs).1, Bool.true_and, validDecisions,
            Nat.add_comm, ← revision, validDecision_decisionOf hi]
          rfl
    · exact h
  | write o out =>
    have hg := (grows_iff_current h _).mpr hc
    rw [Grows] at hg
    cases hop : sys.operations o with
    | none => simpa only [System.step, hop] using h
    | some op =>
      cases op with
      | reading i => simpa only [System.step, hop] using h
      | writing state decision =>
        have hf := h.become o none fun _ hb => by contradiction
        cases out with
        | failed f => simpa only [System.step, hop] using hf
        | replaced r =>
          have hh := history_write h hop r
          simp only [System.step, hop] at hg hh ⊢
          refine ⟨fun x b ho => (hf.begun x b ho).mono hg, ?_, ?_⟩
          · intro x ho
            rcases mem_append.mp ho with hold | he
            · exact hg.subset (h.recorded x hold)
            · rw [hh]
              exact mem_append_right _ he
          · intro x ho
            rcases mem_append.mp ho with hold | he
            · exact mem_append_left _ (h.acknowledged x hold)
            · refine mem_append_right _ ?_
              cases r with
              | true => exact he
              | false => contradiction
  | exit o => exact h.become o _ fun _ hb => by contradiction

/-! ### Runs -/

/-- Where no decision has left the file, what is reported as decided stays decided. -/
theorem Kept.durable (h : Kept sys) : Durable sys where
  present := fun decision he => h.recorded _ (h.acknowledged _ he)
  named := fun decision he ot ho =>
    eq_of_revisionOf (h.recorded _ he) (h.recorded _ ho)
  rejected := by
    intro decision he hre look s e p hc hl
    obtain ⟨pl, hp⟩ := mem_iff_getElem?.mp (h.recorded _ (h.acknowledged _ he))
    obtain ⟨state, hs, -, hu⟩ := lookup_ok hl
    obtain ⟨f, hf, hpu⟩ := Option.bind_eq_some_iff.mp hu.symm
    obtain ⟨ha, hres⟩ := Option.ite_none_right_eq_some.mp hpu
    have hd : state.decisions = history sys.file := by
      refine (readState_history hs).resolve_left fun hn => ?_
      rw [hn] at hf
      contradiction
    rw [hd] at hf
    obtain ⟨l, hle, hla⟩ := find?_newest hp hc hf
    have hne : pl ≠ l := by
      rintro rfl
      obtain rfl := some.inj (hp.symm.trans hla)
      simp only [isAction, beq_iff_eq] at hre ha
      exact absurd (hre.symm.trans ha) (by decide)
    refine ⟨f, mem_of_getElem? hla, (some.inj hres).symm, pl + 1,
      l + 1, revisionOf_history hp, revisionOf_history hla, ?_⟩
    omega
  atRevision := by
    intro decision he look s o hc hl
    obtain ⟨pl, hp⟩ := mem_iff_getElem?.mp (h.recorded _ (h.acknowledged _ he))
    obtain ⟨state, hs, hx, hu⟩ := lookup_ok hl
    have hv := Number.ofNat_inj.mp (hx _ (revisionOf_history hp))
    have hd : state.decisions = history sys.file := by
      refine (readState_history hs).resolve_left fun hn => ?_
      rw [revision, hn] at hv
      contradiction
    -- the expected revision is the last, so the decision is
    have hls : (history sys.file).getLast? = some decision := by
      rw [List.getLast?_eq_getElem?, ← hd, ← revision, ← hv, hd, Nat.add_sub_cancel, hp]
    have hr : (history sys.file).reverse.head? = some decision := by
      rw [List.head?_reverse, hls]
    rw [hu, hd]
    cases hi : (history sys.file).reverse with
    | nil => simp [hi] at hr
    | cons x xs =>
      rw [hi, List.head?_cons, some.injEq] at hr
      subst hr
      rw [List.find?_cons_of_pos hc, bind_some]

/-- However the steps of the decisions of several objects are ordered: the history only grows, and
what is reported as decided stays decided, exactly where each write finds what its read found. -/
theorem decisions_durable_iff (file : Stored) (events : List Event) :
    (Throughout System.step Grows (.start file) events ∧
        Always System.step Durable (.start file) events) ↔
      Throughout System.step Current (.start file) events := by
  have hr : ∀ sys, Kept sys →
      ((Throughout System.step Grows sys events ∧ Always System.step Durable sys events) ↔
        Throughout System.step Current sys events) := by
    induction events with
    | nil => exact fun sys h => ⟨fun _ => trivial, fun _ => ⟨trivial, h.durable⟩⟩
    | cons e events ih =>
      intro sys h
      constructor
      · rintro ⟨⟨hgr, hg⟩, -, ha⟩
        have hc := (grows_iff_current h e).mp hgr
        exact ⟨hc, (ih _ (h.step hc)).mp ⟨hg, ha⟩⟩
      · rintro ⟨hc, ht⟩
        obtain ⟨hg, ha⟩ := (ih _ (h.step hc)).mpr ht
        exact ⟨⟨(grows_iff_current h e).mpr hc, hg⟩, h.durable, ha⟩
  exact hr _ (kept_start file)

/-! ### Two processes at once -/

private def record (fields : List (String × Value)) : Value :=
  .table (fields.map fun item => (.str item.1, item.2))

private def sampleRoute (model : String) : Value :=
  record [("agent", .str "agent"), ("provider", .str "provider"), ("model", .str model),
    ("model_option_id", .str "model"), ("options", record [("model", .str model)])]

private def sampleFixture : Value :=
  record [("id", .str "fixture"), ("source", .str "source"),
    ("digest", .str ("sha256:" ++ String.ofList (List.replicate 64 'a'))),
    ("checks", .array [record [("id", .str "result"), ("baseline", .str "pass"),
      ("candidate", .str "pass")]]), ("human_review_required", .bool false)]

private def sampleScope : Value :=
  record [("workload", record [("kind", .str "main"), ("id", .str "implementation")]),
    ("baseline", sampleRoute "large"), ("candidate", sampleRoute "small"),
    ("policy_revision", .str "policy-1")]

private def sampleReport : Value :=
  record [("version", .num version), ("id", .str "report"), ("policy_revision", .str "policy-1"),
    ("workload", record [("kind", .str "main"), ("id", .str "implementation")]),
    ("baseline", sampleRoute "large"), ("candidate", sampleRoute "small"),
    ("fixtures", .array [sampleFixture])]

/-- A decision about one report. -/
def sampleInput (action : String) : Value :=
  record [("action", .str action), ("report", sampleReport)]

/-- One process rejects while another approves, both having read the file before either writes. -/
def crossing : List Event :=
  [.decide 0 (some (sampleInput "reject")), .decide 1 (some (sampleInput "approve")),
    .read 0 ⟨true, none⟩ 0, .read 1 ⟨true, none⟩ 0, .write 0 (.replaced true),
    .write 1 (.replaced true)]

/-- What the two processes leave. -/
def crossed : System := crossing.foldl System.step (.start .absent)

/-- Both decisions are reported as taken; the file has the approval only, and a lookup returns
it. -/
theorem acknowledged_rejection_lost : crossed.acknowledged.map (isAction "reject") = [true, false] ∧
      (history crossed.file).map (isAction "reject") = [false] ∧
      (lookup ⟨true, none⟩ crossed.file (some sampleScope) none).toOption.join.isSome = true ∧
      ¬ (Throughout System.step Grows (.start .absent) crossing ∧
        Always System.step Durable (.start .absent) crossing) := by
  have ha : crossed.acknowledged.map (isAction "reject") = [true, false] := by
    decide +kernel
  have hh : (history crossed.file).map (isAction "reject") = [false] := by decide +kernel
  refine ⟨ha, hh, by decide +kernel, ?_⟩
  rintro ⟨-, hal⟩
  have hd : Durable crossed := hal.last
  have he : true ∈ crossed.acknowledged.map (isAction "reject") := by simp [ha]
  obtain ⟨r, hm, hr⟩ := mem_map.mp he
  have hl : isAction "reject" r ∈ (history crossed.file).map (isAction "reject") :=
    mem_map_of_mem (hd.present r hm)
  rw [hh, hr] at hl
  contradiction

end Louiselm.Routing.Qualification
