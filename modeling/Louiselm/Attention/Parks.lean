import Louiselm.Attention.Snapshots
import Louiselm.Capture.Records

/-!
# Local Parks and the Runs they are about

Every load of the Attention file looks up the Runs of its local Park conditions in the Run
store of `capture-service/src/runs.rs`, between any two of its steps. A Run that was admitted
and has no Session yet is the one state that `capture-service/src/attention_runs.rs` does not
know, and while a condition for such a Run is retained no operation succeeds.
-/

namespace Louiselm.Attention
open Base Canonical Option
open Base.Program Capture

/-! ### Both stores -/

/-- The Attention file and the Run records. -/
structure System where
  file : PersistedAttention
  runs : RunStore

/-- One request to either store. While the Attention store serves one, others change the
Runs: `meanwhile` holds what is done before each of its looks. -/
inductive SystemEvent where
  | run (call : Capture.Call) (faults : List Fault)
  | attend (operation : Operation) (meanwhile : List (List (Capture.Call × List Fault)))
      (clock : Nat → UInt64) (faults : List Fault)

section

variable (uuid : String → Option String) (sha256 : Sha256) (canonical : BrokerProjection → Bytes)

/-- What each look sees. -/
def seen (runs : RunStore) (meanwhile : List (List (Capture.Call × List Fault)))
    (clock : Nat → UInt64) (place : Nat) : Reading where
  runs := some (((meanwhile.take (place + 1)).flatten).foldl (Capture.step uuid sha256) runs)
  nowMs := clock place

/-- A request to the Attention store looks once for each item it finds and then, where it
reports a condition, once for that one. -/
def attendEvent (s : System) (operation : Operation)
    (meanwhile : List (List (Capture.Call × List Fault))) (clock : Nat → UInt64)
    (faults : List Fault) : Event where
  operation := operation
  look := seen uuid sha256 s.runs meanwhile clock
  again := seen uuid sha256 s.runs meanwhile clock s.file.items.length
  faults := faults

def systemStep (s : System) : SystemEvent → System
  | .run call faults => { s with runs := Capture.step uuid sha256 s.runs (call, faults) }
  | .attend operation meanwhile clock faults => {
    file := step uuid sha256 canonical s.file
      (attendEvent uuid sha256 s operation meanwhile clock faults)
    runs := meanwhile.flatten.foldl (Capture.step uuid sha256) s.runs }

/-- Both stores as they are opened on nothing. -/
def System.initial : System := ⟨.initial, ∅⟩

/-! ### What an operation needs -/

/-- A look finds the Run of a local Park that was admitted and has no Session. -/
def SeesAdmitted (reading : Reading) (key : AttentionKey) : Prop :=
  isLocalPark sha256 key = true ∧ ∃ runs ∈ reading.runs, ∃ run,
    runs.lookup key.subjectId = some run ∧ run.state = "admitted"

/-- No look of the operation finds such a Run. -/
def NoneAdmitted (look : Nat → Reading) (again : Reading) (file : PersistedAttention)
    (operation : Operation) : Prop :=
  (∀ place item, file.items[place]? = some item → ¬ SeesAdmitted sha256 (look place) item.key) ∧
    ∀ draft, operation = .upsert draft → ¬ SeesAdmitted sha256 again draft.key

/-- The operation changes the items that are left, or the cursor. -/
def alters (again : Reading) (file : PersistedAttention) (retained : List AttentionItem) :
    Operation → Bool
  | .snapshot => false
  | .upsert draft => (localParkResolved uuid sha256 again draft.key).toOption == some false &&
    (upsertItems sha256 draft retained).isSome
  | .setEligible key eligible =>
    (retained.find? (·.key == key)).any (·.eligible != eligible)
  | .clear key => !retained.all (·.key != key)
  | .clearSessionKind sessionId kind => !retained.all fun item =>
    item.subjectKind != .session || item.subjectId != sessionId || item.kind != kind
  | .clearSession sessionId => !retained.all fun item =>
    item.subjectKind != .session || item.subjectId != sessionId
  | .project projection => appliedSequence file < projection.sequence

/-- The generations that the operation takes are left. -/
def HasRoom (look : Nat → Reading) (again : Reading) (file : PersistedAttention)
    (operation : Operation) : Prop :=
  ∀ retained, unresolved uuid sha256 look 0 file.items = .ok retained →
    file.generation.toNat + (if retained.length = file.items.length then 0 else 1) +
      (if alters uuid sha256 again file retained operation then 1 else 0) < 2 ^ 64

/-- A request that the store has to serve: its input passes its checks, the condition to mark
is one of those left, and a projection is the next one or one that was applied. -/
def Proper (look : Nat → Reading) (file : PersistedAttention) : Operation → Prop
  | .snapshot => True
  | .upsert draft => validateDraft uuid draft = .ok ()
  | .setEligible key _ => validateKey uuid key = .ok () ∧
    ∀ retained, unresolved uuid sha256 look 0 file.items = .ok retained →
      ∃ item ∈ retained, item.key = key
  | .clear key => validateKey uuid key = .ok ()
  | .clearSessionKind sessionId _ => validateSubjectId sessionId = .ok ()
  | .clearSession sessionId => validateSubjectId sessionId = .ok ()
  | .project projection => validateProjection uuid projection = .ok () ∧
    projection.sequence.toNat ≤ (appliedSequence file).toNat + 1 ∧
    ∀ cursor ∈ file.brokerProjection, cursor.sequence = projection.sequence →
      cursor.digest = projectionDigest sha256 canonical projection

end

/-! ### Looks -/

section

variable {uuid : String → Option String} {sh2 : Sha256} {look : Nat → Reading}
  {items : List AttentionItem}

/-- A UUID text that is printed is lower case. -/
abbrev PrintsLower (uuid : String → Option String) : Prop :=
  ∀ text canonical, uuid text = some canonical → canonical.toLower = canonical

/-- A look sees Runs as the Run store keeps them. -/
def Sees (reading : Reading) : Prop := ∀ runs ∈ reading.runs, AllWellFormed runs

/-- The Run of a valid Run condition can be looked up. -/
theorem validateId_subject (hl : PrintsLower uuid) {key : AttentionKey}
    (hk : validateKey uuid key = .ok ()) (hr : key.subjectKind = .run) :
    validateId uuid key.subjectId = .ok () := by
  unfold validateKey at hk
  obtain ⟨-, hk⟩ := check_ok.mp hk
  rw [if_pos hr] at hk
  have hs := (check_ok.mp hk).1
  unfold validateUuid at hs
  split at hs
  · simp at hs
  next canonical hc =>
  rw [require_ok, beq_iff_eq] at hs
  subst hs
  rw [validateId, hc]
  simp [hl _ _ hc]

theorem findView_of_wellFormed {r : RunStore} (h : AllWellFormed r) {id : String}
    (hi : validateId uuid id = .ok ()) : findView uuid r id = .ok (r.lookup id) := by
  unfold findView
  rw [hi, ok_bind]
  cases hr : r.lookup id with
  | none => rfl
  | some run =>
    obtain ⟨rfl, hw⟩ := h id run hr
    simp [require, hw.version, hw.revision, hw.ceiling, hw.ttl, bind, Except.bind, pure,
      Except.pure]

/-- Of all states a Run can be in, only the one of a Run that was just admitted is not handled. -/
theorem runResolved_ok_iff {run : Capture.Run} (h : WellFormed run) (ms : UInt64) :
    (∃ r, runResolved run ms = .ok r) ↔ run.state ≠ "admitted" := by
  have hs := h.state
  have ho : run.state = "parked" ∨ run.state = "cold_parked" → 0 < run.parkExpiresAtMs :=
    fun hp => UInt64.pos_iff_ne_zero.mpr (h.expiry hp)
  simp only [lifecycleStates, List.mem_cons, List.not_mem_nil, or_false] at hs
  rcases hs with hs | hs | hs | hs | hs | hs
  · simp [runResolved, hs]
  · simp [runResolved, hs]
  · simp [runResolved, hs, ho (.inl hs)]
  · simp [runResolved, hs, ho (.inr hs)]
  · simp [runResolved, hs]
  · simp [runResolved, hs]

variable (sh2) in
theorem localParkResolved_ok_iff (hlw : PrintsLower uuid) {r : Reading} (h : Sees r)
    {key : AttentionKey} (hk : validateKey uuid key = .ok ()) :
    (∃ re, localParkResolved uuid sh2 r key = .ok re) ↔ ¬ SeesAdmitted sh2 r key := by
  unfold localParkResolved SeesAdmitted
  cases hr : r.runs with
  | none => simp
  | some ru =>
    cases ho : isLocalPark sh2 key with
    | false => simp
    | true =>
      have hu : key.subjectKind = .run := by
        simp only [isLocalPark, Bool.and_eq_true, beq_iff_eq] at ho
        exact ho.1.1
      have hw := h ru hr
      simp only [findView_of_wellFormed hw (validateId_subject hlw hk hu)]
      cases hl : ru.lookup key.subjectId with
      | none => simp [hl]
      | some run => simpa [hl] using runResolved_ok_iff (hw _ run hl).2 r.nowMs

variable (sh2) in
/-- The file can be reconciled when each of its conditions can be looked up. -/
theorem unresolved_ok_iff (ho : PrintsLower uuid) (h : ∀ p, Sees (look p)) (p : Nat)
    (hv : ∀ it ∈ items, validateItem uuid it = .ok ()) :
    (∃ re, unresolved uuid sh2 look p items = .ok re) ↔ ∀ i it, items[i]? = some it →
        ¬ SeesAdmitted sh2 (look (p + i)) it.key := by
  induction items generalizing p with
  | nil => simp [unresolved]
  | cons x xs ih =>
    obtain ⟨hf, hs⟩ := List.forall_mem_cons.mp hv
    have he : validateKey uuid x.key = .ok () := (check_ok.mp hf).1
    have hl := localParkResolved_ok_iff sh2 ho (h p) he
    constructor
    · rintro ⟨re, hre⟩ i it hi
      obtain ⟨r, hr, k, hk, -⟩ := unresolved_cons.mp hre
      cases i with
      | zero =>
        obtain rfl := some.inj hi
        exact hl.mp ⟨r, hr⟩
      | succ i =>
        have := (ih (p + 1) hs).mp ⟨k, hk⟩ i it hi
        rwa [Nat.add_right_comm, Nat.add_assoc] at this
    · intro hn
      obtain ⟨r, hr⟩ := hl.mpr (hn 0 x rfl)
      have ha : ∃ k, unresolved uuid sh2 look (p + 1) xs = .ok k := by
        refine (ih (p + 1) hs).mpr fun i it hi => ?_
        rw [Nat.add_right_comm, Nat.add_assoc]
        exact hn (i + 1) it hi
      obtain ⟨k, hk⟩ := ha
      exact ⟨_, unresolved_cons.mpr ⟨r, hr, k, hk, rfl⟩⟩

end

/-! ### Operations that nothing interrupts -/

section

variable {uuid : String → Option String} {sha256 : Sha256} {ca : BrokerProjection → Bytes}
  {look : Nat → Reading} {again : Reading} {file loaded : PersistedAttention} {α : Type}

theorem checkedAdd_one {g : UInt64} :
    (∃ next, checkedAdd g 1 = some next) ↔ g.toNat + 1 < 2 ^ 64 := by
  unfold checkedAdd
  rw [show (1 : UInt64).toNat = 1 from rfl]
  split
  · next h => exact ⟨fun _ => h, fun _ => ⟨_, rfl⟩⟩
  · next h => simpa using h

theorem calm_persist (s : PersistedAttention) : Program.Calm (persist s) :=
  calm_write _ _

theorem calm_load : Program.Calm (load uuid sha256 look) := by
  refine (calm_query _ _).bind fun s => ?_
  refine (calm_ofExcept _).bind fun _ => ?_
  refine (calm_ofExcept _).bind fun r => ?_
  split
  · refine (calm_ofExcept _).bind fun s => ?_
    exact (calm_persist s).bind fun _ => calm_pure s
  · exact calm_pure s

theorem calm_commit (s : PersistedAttention) : Program.Calm (commit s) :=
  (calm_ofExcept _).bind fun s => (calm_persist s).bind fun _ =>
    calm_pure (snapshotOf s)

theorem succeeds_commit : Program.Succeeds (commit loaded) file ↔
    loaded.generation.toNat + 1 < 2 ^ 64 := by
  rw [← checkedAdd_one]
  unfold commit
  rw [succeeds_ofExcept_bind]
  unfold advanceGeneration
  cases checkedAdd loaded.generation 1 with
  | none => simp
  | some generation =>
    refine ⟨fun _ => ⟨generation, rfl⟩, fun _ => ⟨_, rfl, ?_⟩⟩
    exact (returns_write _ _ _).succeeds_bind.mpr Program.succeeds_pure

/-- Loading a file that passes its check returns what reconciling makes of it. -/
theorem returns_load_iff (h : Loadable uuid file) {l : PersistedAttention} :
    Returns (load uuid sha256 look) file loaded l ↔
      l = loaded ∧ Reconciled uuid sha256 look file loaded := by
  constructor
  · exact fun hr => wp_load.returns hr
  · rintro ⟨rfl, hi, he⟩
    refine returns_bind (returns_query _ _ rfl) ?_
    refine returns_bind (returns_ofExcept h.validateState _) ?_
    refine returns_bind (returns_ofExcept hi _) ?_
    rcases he with rfl | ⟨hl, hg, heq⟩
    · rw [if_neg (not_not.mpr rfl)]
      exact returns_pure _ _
    · rw [if_pos hl]
      have ha : advanceGeneration { file with items := l.items } = .ok l := by
        rw [advanceGeneration, hg]
        exact congrArg Except.ok heq.symm
      refine returns_bind (returns_ofExcept ha _) ?_
      exact returns_bind (returns_write _ _ _) (returns_pure _ _)

theorem succeeds_withLock_load {b : PersistedAttention → Action α} (h : Loadable uuid file)
    (hb : ∀ loaded, Program.Calm (b loaded)) :
    Program.Succeeds (withLock (load uuid sha256 look >>= b)) file ↔
      ∃ loaded, Reconciled uuid sha256 look file loaded ∧ Program.Succeeds (b loaded) loaded := by
  unfold withLock
  rw [(returns_probe _ _).succeeds_bind, (calm_load.bind hb).succeeds_bind]
  constructor
  · rintro ⟨a, l, ha, -⟩
    obtain ⟨loaded, m, hl, hs⟩ := calm_load.succeeds_bind.mp ⟨a, l, ha⟩
    obtain ⟨rfl, hr⟩ := (returns_load_iff h).mp hl
    exact ⟨_, hr, hs⟩
  · rintro ⟨loaded, hr, hs⟩
    have hl := (returns_load_iff h).mpr ⟨rfl, hr⟩
    obtain ⟨a, l, ha⟩ := hl.succeeds_bind.mpr hs
    exact ⟨a, l, ha, (returns_probe _ _).succeeds_bind.mpr Program.succeeds_pure⟩

/-- Committing or leaving a file, as a test says. -/
theorem succeeds_ite_commit {c : Prop} [Decidable c] {state : PersistedAttention}
    (hs : state.generation = loaded.generation) (shown : AttentionSnapshot) :
    Program.Succeeds (if c then commit state else pure shown : Action AttentionSnapshot) loaded ↔
      (c → loaded.generation.toNat + 1 < 2 ^ 64) := by
  split
  · next hc => rw [succeeds_commit, hs]; exact ⟨fun h _ => h, fun h => h hc⟩
  · next hc => exact ⟨fun _ h => absurd h hc, fun _ => Program.succeeds_pure⟩

variable (uuid sha256) in
/-- The part of an operation on the loaded file succeeds where the generations last. -/
def Served (again : Reading) (file loaded : PersistedAttention) (operation : Operation) : Prop :=
  (∀ draft, operation = .upsert draft →
    ∃ resolved, localParkResolved uuid sha256 again draft.key = .ok resolved) ∧
  (alters uuid sha256 again file loaded.items operation = true →
    loaded.generation.toNat + 1 < 2 ^ 64)

theorem succeeds_upsert {d : AttentionDraft} (h : Loadable uuid file)
    (hd : validateDraft uuid d = .ok ()) : Program.Succeeds (upsert uuid sha256 look again d) file ↔
      ∃ loaded, Reconciled uuid sha256 look file loaded ∧
        Served uuid sha256 again file loaded (.upsert d) := by
  unfold upsert
  rw [hd, (returns_ofExcept rfl file).succeeds_bind, succeeds_withLock_load h]
  · refine exists_congr fun loaded => and_congr_right fun _ => ?_
    rw [succeeds_ofExcept_bind]
    constructor
    · rintro ⟨r, hr, hs⟩
      refine ⟨?_, fun ha => ?_⟩
      · rintro _ ⟨⟩
        exact ⟨r, hr⟩
      · simp only [alters, hr, Except.toOption, Bool.and_eq_true, beq_iff_eq, some.injEq] at ha
        obtain ⟨rfl, hso⟩ := ha
        obtain ⟨items, hi⟩ := isSome_iff_exists.mp hso
        rw [if_neg (by decide), hi] at hs
        have ho := succeeds_commit.mp hs
        exact ho
    · rintro ⟨hl, ho⟩
      obtain ⟨r, hr⟩ := hl d rfl
      refine ⟨r, hr, ?_⟩
      cases r with
      | true => exact Program.succeeds_pure
      | false =>
        rw [if_neg (by decide)]
        cases hi : upsertItems sha256 d loaded.items with
        | none => exact Program.succeeds_pure
        | some items =>
          refine succeeds_commit.mpr (ho ?_)
          simp [alters, hr, hi, Except.toOption]
  · intro loaded
    refine (calm_ofExcept _).bind fun r => ?_
    split
    · exact calm_pure _
    · split
      · exact calm_pure _
      · exact calm_commit _

theorem succeeds_setEligible {key : AttentionKey} {e : Bool} (h : Loadable uuid file)
    (hp : Proper uuid sha256 ca look file (.setEligible key e)) :
    Program.Succeeds (setEligible uuid sha256 look key e) file ↔
      ∃ loaded, Reconciled uuid sha256 look file loaded ∧
        Served uuid sha256 again file loaded (.setEligible key e) := by
  unfold setEligible
  rw [hp.1, (returns_ofExcept rfl file).succeeds_bind, succeeds_withLock_load h]
  · refine exists_congr fun loaded => and_congr_right fun hl => ?_
    obtain ⟨x, hm, hk⟩ := hp.2 _ hl.items
    cases hf : loaded.items.find? (·.key == key) with
    | none =>
      rw [List.find?_eq_none] at hf
      exact absurd (beq_iff_eq.mpr hk) (hf x hm)
    | some f =>
      simp only [Served, alters, hf, any_some, bne_iff_ne, reduceCtorEq,
        IsEmpty.forall_iff, implies_true, true_and]
      split
      · next hs => exact ⟨fun _ hn => absurd hs hn, fun _ => Program.succeeds_pure⟩
      · next hd =>
        rw [succeeds_commit]
        exact ⟨fun hr _ => hr, fun hr => hr hd⟩
  · intro loaded
    split
    · exact calm_fail _
    · split
      · exact calm_pure _
      · exact calm_commit _

variable {keep : AttentionItem → Bool}

theorem succeeds_retain (h : Loadable uuid file) :
    Program.Succeeds (retain uuid sha256 look keep) file ↔
      ∃ loaded, Reconciled uuid sha256 look file loaded ∧
        ((!loaded.items.all keep) = true → loaded.generation.toNat + 1 < 2 ^ 64) := by
  unfold retain
  rw [succeeds_withLock_load h]
  · refine exists_congr fun loaded => and_congr_right fun _ => ?_
    refine (succeeds_ite_commit ?_ _).trans ?_
    · rfl
    · rw [Ne, List.length_filter_eq_length_iff]
      simp
  · intro loaded
    split
    · exact calm_commit _
    · exact calm_pure _

variable {op : Operation}

/-- A retaining operation behind a check that its input passes. -/
theorem succeeds_check_retain {c : Except AttentionError Unit} (h : Loadable uuid file)
    (hc : c = .ok ()) (ha : ∀ r, alters uuid sha256 again file r op = !r.all keep)
    (ho : ∀ d, op ≠ .upsert d) :
    Program.Succeeds (do ofExcept c; retain uuid sha256 look keep) file ↔
      ∃ loaded, Reconciled uuid sha256 look file loaded ∧
        Served uuid sha256 again file loaded op := by
  rw [hc, (returns_ofExcept rfl file).succeeds_bind, succeeds_retain h]
  refine exists_congr fun loaded => and_congr_right fun _ => ?_
  rw [Served, ha]
  exact ⟨fun hr => ⟨fun d heq => absurd heq (ho d), hr⟩, And.right⟩

theorem Reconciled.brokerProjection_eq (h : Reconciled uuid sha256 look file loaded) :
    loaded.brokerProjection = file.brokerProjection := by
  rcases h.rest with rfl | ⟨-, -, heq⟩
  · rfl
  · rw [heq]

theorem checkedAdd_one_eq {a b : UInt64} (h : b.toNat = a.toNat + 1) : checkedAdd a 1 = some b := by
  have hr : a.toNat + (1 : UInt64).toNat < 2 ^ 64 := by
    rw [UInt64.toNat_one, ← h]
    exact b.toNat_lt
  unfold checkedAdd
  rw [if_pos hr]
  refine congrArg some (UInt64.toNat_inj.mp ?_)
  rw [UInt64.toNat_add, Nat.mod_eq_of_lt hr, UInt64.toNat_one, h]

theorem succeeds_project {p : BrokerProjection} (h : Loadable uuid file)
    (hr : Proper uuid sha256 ca look file (.project p)) :
    Program.Succeeds (project uuid sha256 ca look p) file ↔
      ∃ loaded, Reconciled uuid sha256 look file loaded ∧
        Served uuid sha256 again file loaded (.project p) := by
  obtain ⟨hv, hn, hc⟩ := hr
  unfold project
  rw [hv, (returns_ofExcept rfl file).succeeds_bind, succeeds_withLock_load h]
  · refine exists_congr fun loaded => and_congr_right fun hl => ?_
    have hp := hl.brokerProjection_eq
    have hs : Served uuid sha256 again file loaded (.project p) ↔
        (appliedSequence file < p.sequence → loaded.generation.toNat + 1 < 2 ^ 64) := by
      simp [Served, alters]
    have ha : (file.brokerProjection.map (·.sequence)).getD 0 = appliedSequence file := rfl
    rw [hs, hp]
    dsimp only
    rw [ha]
    split
    · next hle =>
      have hsa : ¬ (p.sequence = appliedSequence file ∧ file.brokerProjection.any
          (·.digest != projectionDigest sha256 ca p) = true) := by
        rintro ⟨he, hd⟩
        obtain ⟨c, hst, hi⟩ := (any_eq_true _ _).mp hd
        have heq : appliedSequence file = c.sequence := by
          rw [appliedSequence, hst]
          rfl
        exact (bne_iff_ne.mp hi) (hc c hst (heq.symm.trans he.symm))
      rw [if_neg hsa]
      refine ⟨fun _ ht => absurd ht (UInt64.not_lt.mpr hle), fun _ => ?_⟩
      exact (returns_write _ _ _).succeeds_bind.mpr Program.succeeds_pure
    · next hg =>
      have ht : appliedSequence file < p.sequence := UInt64.not_le.mp hg
      have he : p.sequence.toNat = (appliedSequence file).toNat + 1 := by
        have := UInt64.lt_iff_toNat_lt.mp ht
        omega
      rw [if_neg (not_not.mpr (checkedAdd_one_eq he)), succeeds_ofExcept_bind]
      unfold advanceGeneration
      rw [← checkedAdd_one]
      cases checkedAdd loaded.generation 1 with
      | none => simp [ht]
      | some g =>
        refine ⟨fun _ _ => ⟨g, rfl⟩, fun _ => ⟨_, rfl, ?_⟩⟩
        exact (returns_write _ _ _).succeeds_bind.mpr Program.succeeds_pure
  · intro loaded
    dsimp only
    split
    · split
      · exact calm_fail _
      · exact (calm_persist _).bind fun _ => calm_pure _
    split
    · exact calm_fail _
    · refine (calm_ofExcept _).bind fun _ => ?_
      exact (calm_persist _).bind fun _ => calm_pure _

/-- A request succeeds when the file can be reconciled and the part on the loaded file does. -/
theorem succeeds_perform (h : Loadable uuid file) (hp : Proper uuid sha256 ca look file op) :
    Program.Succeeds (perform uuid sha256 ca look again op) file ↔
      ∃ loaded, Reconciled uuid sha256 look file loaded ∧
        Served uuid sha256 again file loaded op := by
  cases op with
  | snapshot =>
    refine (Program.succeeds_map _).trans ?_
    unfold snapshot
    rw [succeeds_withLock_load h fun _ => calm_pure _]
    refine exists_congr fun loaded => and_congr_right fun _ => ?_
    simp [Served, alters, Program.succeeds_pure]
  | upsert d => exact (Program.succeeds_map _).trans (succeeds_upsert h hp)
  | setEligible key e => exact (Program.succeeds_map _).trans (succeeds_setEligible h hp)
  | clear key =>
    exact (Program.succeeds_map _).trans
      (succeeds_check_retain h hp (fun _ => rfl) (fun _ => by simp))
  | clearSessionKind si k =>
    exact (Program.succeeds_map _).trans
      (succeeds_check_retain h hp (fun _ => rfl) (fun _ => by simp))
  | clearSession si =>
    exact (Program.succeeds_map _).trans
      (succeeds_check_retain h hp (fun _ => rfl) (fun _ => by simp))
  | project p => exact (Program.succeeds_map _).trans (succeeds_project h hp)

/-- The file can be reconciled and the loaded one served exactly when no look finds a Run that was
just admitted and the generations last. -/
theorem served_iff (hw : PrintsLower uuid) (hf : Loadable uuid file)
    (hk : ∀ place, Sees (look place)) (hag : Sees again) (hp : Proper uuid sha256 ca look file op) :
    (∃ loaded, Reconciled uuid sha256 look file loaded ∧ Served uuid sha256 again file loaded op) ↔
      NoneAdmitted sha256 look again file op ∧
        HasRoom uuid sha256 look again file op := by
  have hi := unresolved_ok_iff sha256 hw hk 0 hf.items.valid
  simp only [Nat.zero_add] at hi
  have hre : ∀ draft, op = .upsert draft →
      ((∃ resolved, localParkResolved uuid sha256 again draft.key = .ok resolved) ↔
        ¬ SeesAdmitted sha256 again draft.key) := by
    rintro draft rfl
    exact localParkResolved_ok_iff sha256 hw hag (check_ok.mp hp).1
  constructor
  · rintro ⟨loaded, hlo, hs⟩
    refine ⟨⟨hi.mp ⟨_, hlo.items⟩, fun draft hd =>
      (hre draft hd).mp (hs.1 draft hd)⟩, ?_⟩
    intro retained hr
    obtain rfl := Except.ok.inj (hlo.items.symm.trans hr)
    have ho := hs.2
    rcases hlo.rest with rfl | ⟨he, hg, -⟩
    · rw [if_pos rfl]
      split
      · next ha => exact ho ha
      · exact loaded.generation.toNat_lt
    · have hn := checkedAdd_eq_some hg
      rw [UInt64.toNat_one] at hn
      rw [if_neg he, ← hn]
      split
      · next ha => exact ho ha
      · exact loaded.generation.toNat_lt
  · rintro ⟨⟨hno, hd⟩, ho⟩
    obtain ⟨retained, hr⟩ := hi.mpr hno
    have hl := ho retained hr
    by_cases he : retained.length = file.items.length
    · obtain rfl := (unresolved_sublist hr).eq_of_length he
      rw [if_pos rfl] at hl
      refine ⟨file, ⟨hr, .inl rfl⟩, fun draft heq => (hre draft heq).mpr (hd draft heq),
        fun ha => ?_⟩
      rw [if_pos ha] at hl
      exact hl
    · rw [if_neg he] at hl
      obtain ⟨generation, hg⟩ := checkedAdd_one.mpr (by omega : file.generation.toNat + 1 < 2 ^ 64)
      have hn := checkedAdd_eq_some hg
      rw [UInt64.toNat_one] at hn
      refine ⟨{ file with items := retained, generation }, ⟨hr, .inr ⟨he, hg, rfl⟩⟩,
        fun draft heq => (hre draft heq).mpr (hd draft heq), fun ha => ?_⟩
      rw [if_pos ha, ← hn] at hl
      exact hl

end

/-! ### Runs of both stores -/

section

variable {uuid : String → Option String} {sha256 : Sha256} {can : BrokerProjection → Bytes}

/-- The file can be loaded and the Runs are well formed. -/
structure InOrder (uuid : String → Option String) (s : System) : Prop where
  file : Loadable uuid s.file
  runs : AllWellFormed s.runs

theorem systemStep_inOrder {s : System} (h : InOrder uuid s) (e : SystemEvent) :
    InOrder uuid (systemStep uuid sha256 can s e) := by
  cases e with
  | run call fs => exact ⟨h.file, Capture.step_allWellFormed h.runs call fs⟩
  | attend o m c fs =>
    exact ⟨(step_succeeds sha256 can h.file _).loadable h.file, Capture.run_allWellFormed h.runs _⟩

theorem run_inOrder {s : System} (h : InOrder uuid s) (es : List SystemEvent) :
    InOrder uuid (es.foldl (systemStep uuid sha256 can) s) := by
  induction es generalizing s with
  | nil => exact h
  | cons e es ih => exact ih (systemStep_inOrder h e)

theorem inOrder_initial : InOrder uuid .initial :=
  ⟨loadable_initial, fun id run h => by simp [System.initial] at h⟩

theorem sees_seen {r : RunStore} (h : AllWellFormed r) (m : List (List (Capture.Call × List Fault)))
    (c : Nat → UInt64) (p : Nat) : Sees (seen uuid sha256 r m c p) := by
  rintro _ ⟨⟩
  exact Capture.run_allWellFormed h _

variable (uuid sha256 can)

/-- After any run of both stores, and with any changes of the Runs between its looks, a request
to the Attention store succeeds exactly when no look finds a Run that was admitted and has no
Session, and the generations it takes are left. -/
theorem attend_succeeds_iff (hlower : PrintsLower uuid) (events : List SystemEvent)
    (operation : Operation) (meanwhile : List (List (Capture.Call × List Fault)))
    (clock : Nat → UInt64) :
    let s := events.foldl (systemStep uuid sha256 can) .initial
    let e := attendEvent uuid sha256 s operation meanwhile clock []
    Proper uuid sha256 can e.look s.file operation →
      (Program.Succeeds (perform uuid sha256 can e.look e.again operation) s.file ↔
        NoneAdmitted sha256 e.look e.again s.file operation ∧
          HasRoom uuid sha256 e.look e.again s.file operation) := by
  intro s e hp
  have hs : InOrder uuid s := run_inOrder inOrder_initial events
  refine (succeeds_perform hs.file hp).trans (served_iff hlower hs.file ?_ ?_ hp)
  · exact fun p => sees_seen hs.runs meanwhile clock p
  · exact sees_seen hs.runs meanwhile clock s.file.items.length

end

/-! ### A Run that is admitted after its alert -/

/-- A parser for lower-case texts, which prints what it parsed. -/
def lowerUuid (text : String) : Option String := if text.toLower = text then some text else none

def sampleRunId : String := "00000000-0000-4000-8000-000000000001"

/-- A hash for a run in which a single operation is derived. -/
def zeroHash : Sha256 := fun _ => Vector.replicate 32 0

/-- The report of a local Park of a Run that the store does not know. -/
def sampleDraft : AttentionDraft where
  subjectKind := .run
  subjectId := sampleRunId
  kind := .runParked
  sourceOperationId := parkOperation zeroHash sampleRunId
  createdAtMs := 1
  linkedRunId := none
  stage := none
  code := none
  withdrawal := none

/-- The Park is reported while no Run is known. -/
def reportedPark : List SystemEvent := [.attend (.upsert sampleDraft) [] (fun _ => 0) []]

theorem printsLower_lowerUuid : PrintsLower lowerUuid := by
  intro t canonical h
  unfold lowerUuid at h
  split at h
  · next hl => rw [← some.inj h, hl]
  · simp at h

/-- The retained condition of an unknown Run does not stand in the way of a snapshot. -/
theorem attend_succeeds_iff_reported :
    let s := reportedPark.foldl (systemStep lowerUuid zeroHash fun _ => []) .initial
    let e := attendEvent lowerUuid zeroHash s .snapshot [] (fun _ => 0) []
    s.file.items.length = 1 ∧ Program.Succeeds (perform lowerUuid zeroHash (fun _ => [])
      e.look e.again .snapshot) s.file := by
  intro s e
  have hf : s.file.items.length = 1 ∧ s.file.generation.toNat = 1 := by decide +kernel
  refine ⟨hf.1, (attend_succeeds_iff lowerUuid zeroHash (fun _ => [])
    printsLower_lowerUuid reportedPark .snapshot [] (fun _ => 0) trivial).mpr ⟨⟨?_, by simp⟩, ?_⟩⟩
  · rintro p x - ⟨-, ru, ⟨⟩, run, hr, -⟩
    simp [reportedPark, systemStep, System.initial] at hr
  · intro r _
    have hg := hf.2
    change s.file.generation.toNat + _ + _ < 2 ^ 64
    rw [hg]
    split <;> simp [alters]

/-- Once that Run is admitted, neither the snapshot nor the clearing of the condition works. -/
theorem admitRun_disables_attention :
    let s := (reportedPark ++
      [SystemEvent.run (.admitRun ⟨sampleRunId, 1, 1⟩ "0123456789abcdef") []]).foldl
      (systemStep lowerUuid zeroHash fun _ => []) .initial
    let e := attendEvent lowerUuid zeroHash s .snapshot [] (fun _ => 0) []
    ∀ o ∈ [Operation.snapshot, .clear sampleDraft.key],
      Proper lowerUuid zeroHash (fun _ => []) e.look s.file o ∧
      (perform lowerUuid zeroHash (fun _ => []) e.look e.again o []
        s.file).1 = .error (.run "stored Run lifecycle state is invalid") := by
  intro s e o hop
  have hp : validateKey lowerUuid sampleDraft.key = .ok () := by decide +kernel
  rcases List.mem_cons.mp hop with rfl | hc
  · exact ⟨trivial, by decide +kernel⟩
  · obtain rfl := List.mem_singleton.mp hc
    exact ⟨hp, by decide +kernel⟩

end Louiselm.Attention
