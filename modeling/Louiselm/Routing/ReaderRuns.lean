import Mathlib.Data.List.TakeWhile
import Louiselm.Routing.QualificationRuns
import Louiselm.Routing.Reader

/-!
# Approvals of reader jobs

`lua/louiselm/routing/reader.lua`: the first lookup captures the revision of the decision that it
returns, and the second one compares it with the revision of the whole file. A job is dispatched
under an approval that is the newest decision of all; under one that is only the newest of its
scope it never is.
-/

namespace Louiselm.Routing.ReaderJobs
open Base Base.Lua Routing.Qualification List Reader Value State ReaderJobs

/-! ### What is to hold -/

/-- A phase between the callback of the first lookup and the read of the second. -/
def Phase.isPinned : Phase → Bool
  | .creating => true
  | .configuring _ => true
  | .checking => true
  | _ => false

/-- A phase between the reads of the two lookups. -/
def Phase.isBetween : Phase → Bool
  | .found _ => true
  | phase => phase.isPinned

/-- A phase before the callback of the second lookup. -/
def Phase.isEarly : Phase → Bool
  | .looking => true
  | .checked _ => true
  | phase => phase.isBetween

/-- Nothing is decided, the file can be read, and the worker shows the approved configuration. -/
def Quiet (system : System) : Event → Prop
  | .record _ => False
  | .read look => look = ⟨true, none⟩
  | .called look => ∀ approval, system.reader.phase = .checked approval →
      confirmed system.reader.provider system.reader.job look.options = true
  | _ => True

/-- The second lookup returns an approval, and the job does not end for a changed admission. -/
structure Admitted (approval : Value) (system : System) : Prop where
  same : ∀ found, system.reader.phase = .checked found → found = some approval
  unchanged : system.reader.phase ≠ .done (some "admission_changed")

/-- A job on an approval is dispatched where nothing is decided meanwhile, and not where something
is decided of its scope between the lookups. -/
structure Dispatched (provider : Option Provider) (job : Job) (history : List Value)
    (decision : Value) : Prop where
  admitted : ∀ events, Throughout System.step Quiet (start provider job history) events →
    Always System.step (Admitted (result decision)) (start provider job history) events
  superseded : ∀ (before : List Event) later after system,
    before.foldl System.step (start provider job history) = system →
    system.reader.phase.isBetween = true → covers (some job.scope) later = true →
    validDecision later (system.history.length + 1) = true →
    Always System.step (fun system => system.reader.prompted = false)
      (system.step (.record later)) after

/-! ### What the steps do -/

/-- What a step leaves of the reader: nothing but a count of bytes changes, a lookup reads, its
callback captures an approval or sends the prompt, the configuration goes on, or the job ends. -/
inductive Moves (system : System) : Event → Reader → Prop where
  | stays {event : Event} (bytes : Nat) :
      Moves system event { system.reader with outputBytes := bytes }
  | first (look : ReadLook) (hphase : system.reader.phase = .looking) : Moves system (.read look)
      { system.reader with phase := .found (system.lookup look none) }
  | second (look : ReadLook) (hphase : system.reader.phase = .checking) : Moves system (.read look)
      { system.reader with phase := .checked (system.lookup look system.reader.revision) }
  | captures (look : Look) (approval : Value)
      (hphase : system.reader.phase = .found (some approval)) : Moves system (.called look)
      { system.reader with
        revision := number? (approval.field "revision")
        reportId := approval.field "report_id"
        session := true
        phase := .creating }
  | configures {event : Event} (phase : Phase) (hphase : system.reader.phase.isPinned = true)
      (hnext : phase.isPinned = true) : Moves system event { system.reader with phase := phase }
  | sends (look : Look) (approval : Value)
      (hphase : system.reader.phase = .checked (some approval)) : Moves system (.called look)
      { system.reader with prompted := true, phase := .prompting }
  | changes (look : Look) (found : Option Value) (code : Option String)
      (hphase : system.reader.phase = .checked found) (hreason : found = none ∨
        confirmed system.reader.provider system.reader.job look.options = false) :
      Moves system (.called look) { system.reader with phase := .done code }
  | ends {event : Event} (code : Option String) (revision : Option Number) (reportId : Option Value)
      (bytes : Nat) (hcode : code ≠ some "admission_changed" ∨ system.reader.phase = .done code) :
      Moves system event { system.reader with
        phase := .done code
        revision := revision
        reportId := reportId
        outputBytes := bytes }

section

variable {sys : System} {ev : Event} {lo : Look} {code : Option String}

theorem finish_moves {revision : Option Number} {reportId : Option Value} {b : Nat}
    (hc : code ≠ some "admission_changed") : Moves sys ev (({ sys.reader with
        revision := revision
        reportId := reportId
        outputBytes := b } : Reader).finish lo code) := by
  unfold finish isDone
  cases hp : sys.reader.phase with
  | done done =>
    have he : Moves sys ev _ := .ends done revision reportId b (.inr hp)
    rw [← hp] at he
    exact he
  | _ =>
    refine .ends _ revision reportId b (.inl ?_)
    split
    · decide
    · split
      · decide
      · exact hc

theorem nextOption_moves (hp : sys.reader.phase.isPinned = true) (xs : List String)
    (os : List ConfigOption) : Moves sys ev (sys.reader.nextOption lo xs os) := by
  unfold nextOption
  split
  · exact .configures _ hp rfl
  · split
    · exact .configures _ hp rfl
    · exact finish_moves (by decide)

variable {ap : Option Value}

theorem create_moves (hp : sys.reader.phase = .found ap) :
    Moves sys (.called lo) (sys.reader.create lo ap) := by
  unfold create
  split
  · exact finish_moves (by decide)
  · cases ap with
    | none => exact finish_moves (by decide)
    | some ap =>
      dsimp only
      split
      · exact .captures lo ap hp
      · exact @finish_moves _ _ _ _ _ _ sys.reader.outputBytes (by decide)

theorem send_moves (hp : sys.reader.phase = .checked ap) :
    Moves sys (.called lo) (sys.reader.send lo ap) := by
  unfold send
  split
  · exact finish_moves (by decide)
  · split
    · next hr =>
      unfold finish isDone
      rw [hp]
      refine .changes lo ap _ hp ?_
      simpa [or_comm] using hr
    · next hr =>
      cases ap with
      | none => exact absurd rfl hr
      | some ap =>
        split
        · exact .sends lo ap hp
        · exact finish_moves (by decide)

theorem updated_moves (os : Option (List ConfigOption)) :
    Moves sys ev (sys.reader.updated lo os) := by
  unfold updated
  split
  · next hp => exact nextOption_moves (by rw [hp]; rfl) _ _
  · exact finish_moves (by decide)
  · exact .stays _

theorem completed_moves (a : Option Bool) : Moves sys ev (sys.reader.completed lo a) := by
  unfold completed
  split
  · exact finish_moves (by decide)
  · exact finish_moves (by decide)
  · exact finish_moves (by decide)
  · exact .stays _

theorem observe_moves (o : Observed) : Moves sys ev (sys.reader.observe lo o) := by
  unfold observe
  split
  · exact .stays _
  · cases o with
    | text b =>
      dsimp only
      split
      · exact finish_moves (by decide)
      · exact .stays _
    | _ => exact finish_moves (by decide)

/-- What every step leaves of the reader. -/
theorem step_moves (sys : System) (ev : Event) : Moves sys ev (sys.step ev).reader := by
  cases ev with
  | record decision =>
    unfold System.step
    dsimp only
    split <;> exact .stays _
  | read lo =>
    change Moves sys _ (sys.read lo)
    unfold System.read
    split
    · next hp => exact .first lo hp
    · next hp => exact .second lo hp
    · exact .stays _
  | called lo =>
    change Moves sys _ (sys.called lo)
    unfold System.called
    split
    · next hp => exact create_moves hp
    · next hp => exact send_moves hp
    · exact .stays _
  | ready e lo =>
    change Moves sys _ (sys.ready e lo)
    unfold System.ready
    split
    · next hp =>
      split
      · exact nextOption_moves (by rw [hp]; rfl) _ _
      · exact finish_moves (by decide)
    · exact .stays _
  | updated os lo => exact updated_moves os
  | completed a lo => exact completed_moves a
  | observed observed lo => exact observe_moves observed
  | timer lo => exact finish_moves (by decide)
  | dispose lo => exact finish_moves (by decide)

end

/-! ### What is captured -/

/-- What is known of the result and of the revision of the first lookup and of the result of the
second. -/
structure Bound (first : Option Value → Prop) (captured : Option Number → Prop)
    (second : Option Value → Prop) (reader : Reader) : Prop where
  first : ∀ approval, reader.phase = .found approval → first approval
  captured : reader.phase.isPinned = true → captured reader.revision
  second : ∀ approval, reader.phase = .checked approval → second approval

section

variable {first second : Option Value → Prop} {c : Option Number → Prop} {sy : System}
  {eve : Event} {r : Reader}

/-- A reader keeps its job. -/
theorem Moves.job (h : Moves sy eve r) : r.job = sy.reader.job := by
  cases h <;> rfl

/-- No step goes back. -/
theorem Moves.looking (h : Moves sy eve r) (hp : r.phase = .looking) :
    sy.reader.phase = .looking := by
  cases h with
  | stays => exact hp
  | configures phase _ hn =>
    obtain rfl : phase = .looking := hp
    cases hn
  | _ => cases hp

theorem Phase.isEarly_of_isPinned {p : Phase} (h : p.isPinned = true) : p.isEarly = true := by
  cases p <;> first | rfl | cases h

theorem Moves.isEarly (h : Moves sy eve r) (he : r.phase.isEarly = true) :
    sy.reader.phase.isEarly = true := by
  cases h with
  | stays => exact he
  | first look hp => rw [hp]; rfl
  | second look hp => rw [hp]; rfl
  | captures look a hp => rw [hp]; rfl
  | configures phase hp => exact Phase.isEarly_of_isPinned hp
  | _ => cases he

/-- Only the second lookup's callback sends a prompt, and on an approval. -/
theorem Moves.prompted (h : Moves sy eve r) (hp : r.prompted = true) : sy.reader.prompted = true ∨
      (∃ a, sy.reader.phase = .checked (some a)) ∧ r.phase = .prompting := by
  cases h with
  | sends look a hh => exact .inr ⟨⟨a, hh⟩, rfl⟩
  | _ => exact .inl hp

/-- Where the second lookup returns an approval and the configuration is confirmed, the admission
is not changed. -/
theorem Moves.unchanged (h : Moves sy eve r) (hq : Quiet sy eve)
    (hs : ∀ f, sy.reader.phase = .checked f → f ≠ none)
    (hb : sy.reader.phase ≠ .done (some "admission_changed")) :
    r.phase ≠ .done (some "admission_changed") := by
  intro hp
  cases h with
  | stays => exact hb hp
  | configures phase _ hn =>
    obtain rfl : phase = .done (some "admission_changed") := hp
    cases hn
  | changes look f code hh hr =>
    rcases hr with ho | hu
    · exact hs f hh ho
    · rw [hq f hh] at hu
      cases hu
  | ends code _ _ _ hc =>
    obtain rfl := Phase.done.inj hp
    exact hc.elim (fun h => h rfl) hb
  | _ => cases hp

/-- What the lookups read and the callbacks do with it. -/
theorem Moves.bound (h : Moves sy eve r) (hb : Bound first c second sy.reader)
    (hi : ∀ look, eve = .read look → sy.reader.phase = .looking → first (sy.lookup look none))
      (hc : ∀ a, first (some a) → c (number? (a.field "revision")))
    (hs : ∀ look, eve = .read look → c sy.reader.revision →
      second (sy.lookup look sy.reader.revision)) :
    Bound first c second r := by
  cases h with
  | stays => exact ⟨hb.first, hb.captured, hb.second⟩
  | first look hp =>
    refine ⟨?_, nofun, fun _ => nofun⟩
    rintro a ⟨⟩
    exact hi look rfl hp
  | second look hp =>
    refine ⟨fun _ => nofun, nofun, ?_⟩
    rintro a ⟨⟩
    exact hs look rfl (hb.captured (by rw [hp]; rfl))
  | captures look a hp =>
    exact ⟨fun _ => nofun, fun _ => hc a (hb.first _ hp), fun _ => nofun⟩
  | configures phase hp hn =>
    refine ⟨fun a hf => ?_, fun _ => hb.captured hp, fun a hf => ?_⟩
    · obtain rfl : phase = .found a := hf
      cases hn
    · obtain rfl : phase = .checked a := hf
      cases hn
  | _ => exact ⟨fun _ => nofun, nofun, fun _ => nofun⟩

end

/-! ### The history -/

section

variable {system : System}

/-- The history only grows. -/
theorem history_step (e : Event) : system.history <+: (system.step e).history := by
  cases e with
  | record decision =>
    unfold System.step
    dsimp only
    split
    · exact prefix_append _ _
    · exact prefix_refl _
  | _ => exact prefix_refl _

/-- What is recorded is valid. -/
theorem valid_step (h : validDecisions 1 system.history = true) (e : Event) :
    validDecisions 1 (system.step e).history = true := by
  cases e with
  | record decision =>
    unfold System.step
    dsimp only
    split
    · next hv =>
      rw [validDecisions_append, h, Nat.add_comm, validDecisions, hv]
      rfl
    · exact h
  | _ => exact h

end

/-! ### Lookups -/

section

variable {d : Value} {sc : Option Value} {his : List Value}

/-- A result has the revision of its decision. -/
theorem revision_result {revision : Number} (h : revisionOf d = some revision) :
    number? ((result d).field "revision") = some revision := by
  unfold revisionOf at h
  cases hf : d.field "revision" with
  | none =>
    rw [hf] at h
    cases h
  | some v =>
    rw [hf] at h
    have hs : (result d).field "revision" = some v := by
      rw [result, hf]
      rfl
    rw [hs, h]

/-- The newest decision of a scope stands somewhere in the history, under its revision. -/
theorem revisionOf_newest (hv : validDecisions 1 his = true)
    (h : his.reverse.find? (covers sc) = some d) :
    ∃ p, his[p]? = some d ∧ revisionOf d = some (.ofNat (p + 1)) := by
  obtain ⟨p, hp⟩ :=
    mem_iff_getElem?.mp (mem_reverse.mp (mem_of_find?_eq_some h))
  refine ⟨p, hp, ?_⟩
  rw [revisionOf_getElem hv hp, Nat.add_comm]

/-- A lookup pinned to an earlier revision than that of the file finds nothing. -/
theorem lookup_behind (hv : validDecisions 1 his = true) (look : ReadLook) {revision : Nat}
    (hp : 0 < revision) (hb : revision < his.length) :
    (Qualification.lookup look (.regular (some (document ⟨his⟩))) sc
      (some (.ofNat revision))).toOption.join = none := by
  cases hl : Qualification.lookup look (.regular (some (document ⟨his⟩))) sc
      (some (.ofNat revision)) with
  | error m => rfl
  | ok o =>
    obtain ⟨s, hs, hx, -⟩ := lookup_ok hl
    have hr := Number.ofNat_inj.mp (hx _ rfl)
    rw [State.revision] at hr
    rcases readState_history hs with he | ha
    · rw [he, length_nil] at hr
      omega
    · rw [ha, history_document hv] at hr
      omega

variable {exp : Option Number}

/-- Any lookup that is not pinned, or pinned to the revision of the file, finds the newest
approval. -/
theorem lookup_newest (hv : validDecisions 1 his = true) (hs : validScope sc = true)
    (h : his.reverse.find? (covers sc) = some d) (ha : isAction "approve" d = true)
    (he : ∀ revision ∈ exp, revision = .ofNat his.length) :
    (Qualification.lookup ⟨true, none⟩ (.regular (some (document ⟨his⟩))) sc
      exp).toOption.join = some (result d) := by
  have hr : readState ⟨true, none⟩ (.regular (some (document ⟨his⟩))) =
      .ok ⟨his⟩ := decodeState_document hv
  have hc : (exp.any (· != Number.ofNat (State.revision ⟨his⟩))) = false := by
    cases exp with
    | none => rfl
    | some revision =>
      rw [he revision rfl]
      exact bne_self_eq_false _
  unfold Qualification.lookup
  rw [hs, hr]
  simp only [Bool.not_true, Bool.false_eq_true, if_false, hc]
  rw [h]
  simp only [ha, if_true]
  rfl

/-- Whatever a lookup finds has a revision of the history. -/
theorem lookup_known (hv : validDecisions 1 his = true) {look : ReadLook} {a : Value}
    (h : (Qualification.lookup look (.regular (some (document ⟨his⟩))) sc
      exp).toOption.join = some a) : ∃ revision, 0 < revision ∧ revision ≤ his.length ∧
      number? (a.field "revision") = some (.ofNat revision) := by
  cases hl : Qualification.lookup look (.regular (some (document ⟨his⟩))) sc exp with
  | error m =>
    rw [hl] at h
    cases h
  | ok o =>
    rw [hl] at h
    obtain ⟨s, ht, -, ho⟩ := lookup_ok hl
    have hs : o = some a := h
    rw [hs] at ho
    obtain ⟨f, hf, hp⟩ := Option.bind_eq_some_iff.mp ho.symm
    obtain ⟨-, hr⟩ := Option.ite_none_right_eq_some.mp hp
    have hd : s.decisions = his := by
      rcases readState_history ht with he | ha
      · rw [he] at hf
        cases hf
      · rw [ha, history_document hv]
    rw [hd] at hf
    obtain ⟨p, hpl, hrev⟩ := revisionOf_newest hv hf
    have hlt := (List.getElem?_eq_some_iff.mp hpl).1
    refine ⟨p + 1, Nat.succ_pos p, hlt, ?_⟩
    rw [← Option.some.inj hr]
    exact revision_result hrev

end

/-! ### Between the lookups -/

section

variable {pr : Option Provider} {job : Job} {history : List Value} {decision : Value}

/-- A revision of a history. -/
def Known (length : Nat) (revision : Option Number) : Prop :=
  ∃ number, 0 < number ∧ number ≤ length ∧ revision = some (.ofNat number)

/-- A revision before the last of a history. -/
def Behind (length : Nat) (revision : Option Number) : Prop :=
  ∃ number, 0 < number ∧ number < length ∧ revision = some (.ofNat number)

/-- What is captured is a revision of the history, and no prompt was sent early. -/
structure Captured (system : System) : Prop where
  valid : validDecisions 1 system.history = true
  bound : Bound (fun found => ∀ approval, found = some approval →
      Known system.history.length (number? (approval.field "revision")))
    (Known system.history.length) (fun _ => True) system.reader
  unsent : system.reader.phase.isEarly = true → system.reader.prompted = false

/-- What is captured was superseded, and the prompt is not sent. -/
structure Superseded (system : System) : Prop where
  valid : validDecisions 1 system.history = true
  bound : Bound (fun found => ∀ approval, found = some approval →
      Behind system.history.length (number? (approval.field "revision")))
    (Behind system.history.length) (fun found => found = none) system.reader
  read : system.reader.phase ≠ .looking
  unsent : system.reader.prompted = false

variable {len : Nat} {revision : Option Number}

theorem Known.mono {l : Nat} (h : Known len revision) (hl : len ≤ l) :
    Known l revision := by
  obtain ⟨n, hp, hk, hr⟩ := h
  exact ⟨n, hp, hk.trans hl, hr⟩

theorem Behind.mono {l : Nat} (h : Behind len revision) (hl : len ≤ l) :
    Behind l revision := by
  obtain ⟨n, hp, hk, hr⟩ := h
  exact ⟨n, hp, hk.trans_le hl, hr⟩

/-- A revision of a history is behind a longer one. -/
theorem Known.behind (h : Known len revision) : Behind (len + 1) revision := by
  obtain ⟨n, hp, hk, hr⟩ := h
  exact ⟨n, hp, Nat.lt_succ_of_le hk, hr⟩

theorem Bound.mono {first x' : Option Value → Prop} {ca c' : Option Number → Prop}
    {second s' : Option Value → Prop} {re : Reader} (h : Bound first ca second re)
    (hf : ∀ f, first f → x' f) (hc : ∀ revision, ca revision → c' revision)
    (hs : ∀ f, second f → s' f) : Bound x' c' s' re :=
  ⟨fun a ha => hf _ (h.first a ha), fun hp => hc _ (h.captured hp),
    fun a ha => hs _ (h.second a ha)⟩

theorem Captured.start (hv : validDecisions 1 history = true) : Captured (start pr job history) :=
  ⟨hv, ⟨fun _ => nofun, nofun, fun _ => nofun⟩, fun _ => rfl⟩

variable {system : System}

/-- Every step keeps what is captured known. -/
theorem Captured.step (h : Captured system) (e : Event) : Captured (system.step e) := by
  have hl : system.history.length ≤ _ := (history_step e).length_le
  refine ⟨valid_step h.valid e, ?_, fun he => ?_⟩
  · have hb := (step_moves system e).bound h.bound (fun look _ _ a hf => lookup_known h.valid hf)
      (fun a hf => hf a rfl) (fun _ _ _ => trivial)
    exact hb.mono (fun f hk a hf => (hk a hf).mono hl) (fun revision hk => hk.mono hl) fun _ => id
  · have hu := h.unsent ((step_moves system e).isEarly he)
    by_contra hs
    rcases (step_moves system e).prompted (Bool.eq_true_of_not_eq_false hs) with
      hbef | ⟨-, hp⟩
    · rw [hu] at hbef
      cases hbef
    · rw [hp] at he
      cases he

/-- A decision between the lookups supersedes what was captured. -/
theorem Captured.superseded (h : Captured system) (hb : system.reader.phase.isBetween = true)
    {l : Value} (ha : validDecision l (system.history.length + 1) = true) :
    Superseded (system.step (.record l)) := by
  have hv := valid_step h.valid (.record l)
  rw [System.step, if_pos ha] at hv ⊢
  refine ⟨hv, ?_, ?_, ?_⟩
  · rw [length_append, length_singleton]
    refine ⟨fun f hf a hs => (h.bound.first f hf a hs).behind,
      fun hp => (h.bound.captured hp).behind, fun f hc => ?_⟩
    change system.reader.phase = .checked f at hc
    rw [hc] at hb
    cases hb
  · intro hl
    change system.reader.phase = .looking at hl
    rw [hl] at hb
    cases hb
  · refine h.unsent ?_
    cases hh : system.reader.phase <;> rw [hh] at hb <;> first | rfl | cases hb

/-- What is superseded stays so, and no prompt is sent. -/
theorem Superseded.step (h : Superseded system) (e : Event) : Superseded (system.step e) := by
  have he : system.history.length ≤ _ := (history_step e).length_le
  have hm := step_moves system e
  refine ⟨valid_step h.valid e, ?_, fun hl => h.read (hm.looking hl), ?_⟩
  · have hlo : ∀ look, e = .read look → Behind system.history.length
        system.reader.revision → system.lookup look system.reader.revision = none := by
      rintro look - ⟨revision, ho, hb, hr⟩
      rw [hr]
      exact lookup_behind h.valid look ho hb
    have hbo := hm.bound h.bound (fun look _ hl => absurd hl h.read) (fun a hf => hf a rfl) hlo
    exact hbo.mono (fun f hk a hf => (hk a hf).mono he) (fun revision hk => hk.mono he) fun _ => id
  · by_contra hs
    rcases hm.prompted (Bool.eq_true_of_not_eq_false hs) with
      hbef | ⟨⟨f, hp⟩, -⟩
    · rw [h.unsent] at hbef
      cases hbef
    · cases h.bound.second _ hp

/-- What is superseded is never sent. -/
theorem Superseded.always (h : Superseded system) (es : List Event) :
    Always System.step (fun system => system.reader.prompted = false) system es := by
  induction es generalizing system with
  | nil => exact h.unsent
  | cons e es ih => exact ⟨h.unsent, ih (h.step e)⟩

theorem Captured.run (h : Captured system) (es : List Event) :
    Captured (es.foldl System.step system) := by
  induction es generalizing system with
  | nil => exact h
  | cons e es ih => exact ih (h.step e)

/-! ### Quiet runs -/

/-- The job is under way on an approval that is the newest decision of all. -/
structure UnderWay (job : Job) (decisions : List Value) (decision : Value) (system : System) :
    Prop where
  history : system.history = decisions
  job : system.reader.job = job
  bound : Bound (fun found => found = some (result decision))
    (fun revision => revision = some (.ofNat decisions.length))
    (fun found => found = some (result decision)) system.reader
  unchanged : system.reader.phase ≠ .done (some "admission_changed")

/-- The newest approval of a scope is the newest decision of all. -/
structure Newest (job : Job) (decisions : List Value) (decision : Value) : Prop where
  valid : validDecisions 1 decisions = true
  scope : validScope (some job.scope) = true
  found : decisions.reverse.find? (covers (some job.scope)) = some decision
  approves : isAction "approve" decision = true

variable {ds : List Value}

theorem UnderWay.step (hn : Newest job ds decision)
    (hr : revisionOf decision = some (.ofNat ds.length)) (h : UnderWay job ds decision system)
    {event : Event} (hq : Quiet system event) : UnderWay job ds decision (system.step event) := by
  have hl : ∀ e : Option Number, (∀ revision ∈ e, revision = .ofNat ds.length) →
      system.lookup ⟨true, none⟩ e = some (result decision) := by
    intro e he
    unfold System.lookup
    rw [h.history, h.job]
    exact lookup_newest hn.valid hn.scope hn.found hn.approves he
  have hm := step_moves system event
  refine ⟨?_, hm.job.trans h.job, ?_, ?_⟩
  · cases event with
    | record l => exact hq.elim
    | _ => exact h.history
  · refine hm.bound h.bound ?_ ?_ ?_
    · rintro look rfl -
      rw [hq]
      exact hl none nofun
    · rintro a ⟨⟩
      exact revision_result hr
    · rintro look rfl hc
      rw [hq]
      refine hl _ fun revision hs => ?_
      exact Option.some.inj (hs.symm.trans hc)
  · refine hm.unchanged hq (fun f hp => ?_) h.unchanged
    rw [h.bound.second f hp]
    exact Option.some_ne_none _

/-- In a quiet run on the newest decision of all the second lookup returns it again. -/
theorem UnderWay.always (hn : Newest job ds decision)
    (hr : revisionOf decision = some (.ofNat ds.length)) (h : UnderWay job ds decision system)
    {es : List Event} (hq : Throughout System.step Quiet system es) :
    Always System.step (Admitted (result decision)) system es := by
  have ha : Always System.step (UnderWay job ds decision) system es :=
    always_of_throughout (fun _ _ hu hs => hu.step hn hr hs) h hq
  exact ha.mono fun _ hu => ⟨hu.bound.second, hu.unchanged⟩

/-! ### A decision of another scope -/

/-- A callback that finds nothing amiss, with these options. -/
def calm (options : List ConfigOption) : Look := ⟨false, true, true, true, true, options⟩

/-- The options of a worker that shows the approved configuration. -/
def Job.options (job : Job) : List ConfigOption :=
  job.keys.map fun key => ⟨key, none, under (under job.route "options") key⟩

/-- The worker has the approved configuration from the start, and the second lookup reads. -/
def straight (job : Job) : List Event :=
  [.read ⟨true, none⟩, .called (calm []), .ready true (calm job.options), .read ⟨true, none⟩]

/-- The values of an approved route are equal to themselves. -/
theorem sameValue_option {v : Option Value} (hr : route v = true)
    (key : String) : sameValue (under (under v "options") key)
      (under (under v "options") key) = true := by
  unfold route at hr
  have hf := (Bool.and_eq_true_iff.mp hr).2
  split at hf
  · next fs i ho _ =>
    rw [ho]
    cases hfi : (table fs).field key with
    | none =>
      change sameValue ((table fs).field key) ((table fs).field key) = true
      rw [hfi]
      rfl
    | some x =>
      obtain ⟨pre, l, hs, -⟩ := lookup_eq_some_iff.mp hfi
      have hm : (Key.str key, x) ∈ fs :=
        hs ▸ mem_append_right pre mem_cons_self
      have hi := (Bool.and_eq_true_iff.mp (all_eq_true.mp (Bool.and_eq_true_iff.mp hf).2 _ hm)).2
      change sameValue ((table fs).field key) ((table fs).field key) = true
      rw [hfi, sameValue]
      cases x with
      | str t => simp [deepEqual]
      | bool v => simp [deepEqual]
      | _ => cases hi
  · cases hf

/-- A worker that shows the approved configuration needs no option set. -/
theorem isSet_options (hr : route job.route = true) {key : String}
    (hk : key ∈ job.keys) : isSet job job.options key = true := by
  unfold isSet
  cases hf : job.options.reverse.find? fun o => o.id == key with
  | none =>
    have hm : (⟨key, none, under (under job.route "options") key⟩ : ConfigOption) ∈
        job.options.reverse :=
      mem_reverse.mpr (mem_map.mpr ⟨key, hk, rfl⟩)
    exact absurd (beq_self_eq_true key) (List.find?_eq_none.mp hf _ hm)
  | some o =>
    obtain ⟨x, -, rfl⟩ :=
      mem_map.mp (mem_reverse.mp (mem_of_find?_eq_some hf))
    have hs := List.find?_some hf
    rw [← beq_iff_eq.mp hs]
    exact sameValue_option hr x

/-- A worker that shows the approved configuration is looked up again at once. -/
theorem configure_options {re : Reader} (hr : route re.job.route = true) :
    re.configure (calm re.job.options) = re.dispatch := by
  have hd : re.job.keys.dropWhile (isSet re.job re.job.options) = [] :=
    dropWhile_eq_nil_iff.mpr fun key hk => isSet_options hr hk
  unfold configure nextOption
  rw [show (calm re.job.options).options = re.job.options from rfl, hd]

/-- What the straight run leaves: the result of the second lookup. -/
theorem straight_run (hn : Newest job ds decision) {revision : Number}
    (he : revisionOf decision = some revision) : Throughout System.step Quiet (start pr job ds)
    (straight job) ∧ ((straight job).foldl System.step (start pr job ds)).reader.phase =
        .checked ((Qualification.lookup ⟨true, none⟩
          (.regular (some (document ⟨ds⟩))) (some job.scope) (some revision)).toOption.join) := by
  have ho : route job.route = true := by
    have hs := hn.scope
    unfold validScope at hs
    exact (Bool.and_eq_true_iff.mp (Bool.and_eq_true_iff.mp hs).1).2
  have hl : (start pr job ds).lookup ⟨true, none⟩ none = some (result decision) :=
    lookup_newest hn.valid hn.scope hn.found hn.approves nofun
  have hr : (start pr job ds).step (.read ⟨true, none⟩) =
      ⟨ds, ⟨job, pr, .found (some (result decision)), false, none, none, 0, false⟩⟩ := by
    rw [← hl]
    rfl
  have hc : System.step ⟨ds, ⟨job, pr, .found (some (result decision)), false,
      none, none, 0, false⟩⟩ (.called (calm [])) = ⟨ds, ⟨job, pr, .creating, true, some revision,
        (result decision).field "report_id", 0, false⟩⟩ := by
    rw [← revision_result he]
    rfl
  have hre : System.step ⟨ds, ⟨job, pr, .creating, true, some revision,
      (result decision).field "report_id", 0, false⟩⟩ (.ready true (calm job.options)) =
      ⟨ds, ⟨job, pr, .checking, true, some revision,
        (result decision).field "report_id", 0, false⟩⟩ := by
    have hco := @configure_options ⟨job, pr, .creating, true, some revision,
      (result decision).field "report_id", 0, false⟩ ho
    exact congrArg (System.mk ds) hco
  have hq : Throughout System.step Quiet (start pr job ds) (straight job) := by
    refine ⟨rfl, ?_⟩
    rw [hr]
    refine ⟨fun _ => nofun, ?_⟩
    rw [hc]
    exact ⟨trivial, rfl, trivial⟩
  refine ⟨hq, ?_⟩
  rw [straight, foldl_cons, hr, foldl_cons, hc, foldl_cons, hre]
  rfl

/-- An approval that is not the newest decision of all is not found again. -/
theorem newest_of_dispatched (hn : Newest job ds decision)
    (h : Dispatched pr job ds decision) : ds.getLast? = some decision := by
  obtain ⟨p, hp, hr⟩ := revisionOf_newest hn.valid hn.found
  by_contra hl
  have ht := (List.getElem?_eq_some_iff.mp hp).1
  have he : p + 1 ≠ ds.length := by
    intro heq
    rw [List.getLast?_eq_getElem?, ← heq, Nat.add_sub_cancel] at hl
    exact hl hp
  obtain ⟨hq, hh⟩ := @straight_run pr _ _ _ hn _ hr
  rw [lookup_behind hn.valid _ (Nat.succ_pos p) (by omega)] at hh
  cases (h.admitted _ hq).last.same _ hh

/-- On the newest decision of all a job is dispatched. -/
theorem dispatched_of_newest (hn : Newest job ds decision)
    (h : ds.getLast? = some decision) : Dispatched pr job ds decision := by
  have hr : revisionOf decision = some (.ofNat ds.length) := by
    rw [List.getLast?_eq_getElem?] at h
    rw [revisionOf_getElem hn.valid h]
    have ho := (List.getElem?_eq_some_iff.mp h).1
    congr 2
    omega
  refine ⟨fun es hq => ?_, ?_⟩
  · refine UnderWay.always hn hr ⟨rfl, rfl, ?_, fun hp => ?_⟩ hq
    · exact ⟨fun _ => nofun, nofun, fun _ => nofun⟩
    · cases hp
  · rintro pre la l system rfl hb - hl
    have hs : Captured (start pr job ds) := .start hn.valid
    have hc := hs.run pre
    exact (hc.superseded hb hl).always l

end

/-- A job whose scope has an approval as its newest decision is dispatched under it exactly where
that approval is the newest decision of all. -/
theorem dispatched_iff {provider : Option Provider} {job : Job} {decisions : List Value}
    {decision : Value} (hvalid : validDecisions 1 decisions = true)
    (hscope : validScope (some job.scope) = true)
    (hfound : decisions.reverse.find? (covers (some job.scope)) = some decision)
    (happroves : isAction "approve" decision = true) :
    Dispatched provider job decisions decision ↔ decisions.getLast? = some decision :=
  ⟨newest_of_dispatched ⟨hvalid, hscope, hfound, happroves⟩,
    dispatched_of_newest ⟨hvalid, hscope, hfound, happroves⟩⟩

/-! ### Two comparisons -/

private def fields (items : List (String × Value)) : Value :=
  .table (items.map fun item => (.str item.1, item.2))

private def readerRoute (model : String) : Value :=
  fields [("agent", .str "agent"), ("provider", .str "provider"), ("model", .str model),
    ("model_option_id", .str "model"), ("options", fields [("model", .str model)])]

private def readerWorkload : Value := fields [("kind", .str "reader"), ("id", .str "summary")]

/-- The scope of a reader with this model for its worker. -/
def readerScope (model : String) : Value :=
  fields [("workload", readerWorkload), ("baseline", readerRoute "large"),
    ("candidate", readerRoute model), ("policy_revision", .str "policy-1")]

private def passedFixture : Value :=
  fields [("id", .str "fixture"), ("source", .str "source"),
    ("digest", .str ("sha256:" ++ String.ofList (List.replicate 64 'a'))),
    ("checks", .array [fields [("id", .str "result"), ("baseline", .str "pass"),
      ("candidate", .str "pass")]]), ("human_review_required", .bool false)]

/-- The approval of a comparison for a worker's model, under a revision. -/
def readerApproval (model : String) (revision : Nat) : Value :=
  decisionOf (fields [("action", .str "approve"), ("report", fields [("version", .num version),
    ("id", .str model), ("policy_revision", .str "policy-1"), ("workload", readerWorkload),
    ("baseline", readerRoute "large"), ("candidate", readerRoute model),
    ("fixtures", .array [passedFixture])])]) revision 0

/-- The approval of one worker's model, and after it that of another. -/
def twoComparisons : List Value := [readerApproval "small" 1, readerApproval "tiny" 2]

theorem newest_small : Newest ⟨readerScope "small", 65536⟩ twoComparisons
    (readerApproval "small" 1) := by
  have hf : covers (some (readerScope "small")) (readerApproval "tiny" 2) = false := by
    decide +kernel
  have hs : covers (some (readerScope "small")) (readerApproval "small" 1) = true := by
    decide +kernel
  refine ⟨by decide +kernel, by decide +kernel, ?_, by decide +kernel⟩
  simp [twoComparisons, hf, hs]

/-- The approval of another comparison keeps a job from being dispatched. -/
theorem not_dispatched : ¬∀ provider job decisions decision, validDecisions 1 decisions = true →
    validScope (some job.scope) = true →
    decisions.reverse.find? (covers (some job.scope)) = some decision →
    isAction "approve" decision = true → Dispatched provider job decisions decision := by
  intro h
  have hn := newest_small
  have hl := newest_of_dispatched hn (h none _ _ _ hn.valid hn.scope hn.found hn.approves)
  have hr : (twoComparisons.getLast?.bind revisionOf) = some (.ofNat 2) := by decide +kernel
  rw [hl, Option.bind_some] at hr
  have ho : revisionOf (readerApproval "small" 1) = some (.ofNat 1) := by decide +kernel
  rw [ho] at hr
  exact absurd (Number.ofNat_inj.mp (Option.some.inj hr)) (by decide)

theorem dispatched_iff_small :
    Dispatched none ⟨readerScope "small", 65536⟩ twoComparisons (readerApproval "small" 1) ↔
      twoComparisons.getLast? = some (readerApproval "small" 1) :=
  dispatched_iff newest_small.valid newest_small.scope newest_small.found newest_small.approves

end Louiselm.Routing.ReaderJobs
