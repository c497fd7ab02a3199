import Louiselm.Workflow.Charges

/-!
# What validation accepts

A workflow that `Workflow/Validate` accepts, as the executor of `Workflow/Executor` finds it:
which stages and outcomes it has, where the executor starts, which stages it comes to, and when
an outcome of the current stage can be taken.
-/

namespace Louiselm.Workflow
open Base Base.Lua List Running Value Executor
open Option (some.inj isSome_iff_exists map_some getD_some isSome_none bind_some)
open Bool (and_eq_true_iff false_eq_true)

/-! ### Checks that find nothing -/

/-- An outcome as the executor relies on it. -/
structure SoundOutcome (stages : Manifest) (outcome : Value) : Prop where
  table : isTable (some outcome) = true
  named : ∃ name, nameOf outcome = some name ∧ name ≠ ""
  number : ∀ value, outcome.field "max-iterations" = some value → ∃ n, value = .num n
  target : isTerminal outcome = false →
    ∃ target, targetOf outcome = some target ∧ (stages.stage target).isSome = true
  bounded : isTerminal outcome = false → isBackEdge outcome = true → isAutomatic outcome = true →
    isLiteralCount (outcome.field "max-iterations") = true

/-- A stage as the executor relies on it. -/
structure SoundStage (stages : Manifest) (block : Value) : Prop where
  outcomes : ∀ value, block.field "outcomes" = some value → value.isArray = true
  sound : ∀ outcome ∈ outcomesOf block, SoundOutcome stages outcome
  distinct : ((outcomesOf block).filterMap nameOf).Nodup

section

variable {text : Key → String} {w : String} {st : Manifest} {be : List (String × String)}

/-- Where no field is rejected, each one is known and of its type. -/
theorem hasType_of_checkFields {block : Value} {a : List (String × FieldType)} {s : String}
    {outcome : Option String} (h : checkFields text block a s outcome = []) {key : String}
    {v : Value} (hv : block.field key = some v) :
    ∃ e, a.lookup key = some e ∧ hasType v e = true := by
  have hk : key ∈ sorted ((fieldsOf block).map fun x => keyText text x.1) := by
    cases block with
    | table fs =>
      refine mem_sorted.mpr (mem_map.mpr ⟨(.str key, v), ?_, rfl⟩)
      obtain ⟨_, _, rfl, -⟩ := lookup_eq_some_iff.mp hv
      exact mem_append_right _ mem_cons_self
    | _ => cases hv
  have hn := flatMap_eq_nil_iff.mp h key hk
  split at hn
  · cases hn
  · next e he =>
    refine ⟨e, he, ?_⟩
    by_contra hw
    rw [hv, Option.any_some, if_neg hw] at hn
    cases hn

/-- An outcome in which nothing is wrong. -/
theorem checkOutcome_eq_nil {o : List Value} {name : String} {i : Nat} {s : List String}
    {outcome : Value} (h : checkOutcome text w st be o name i s outcome = []) :
    SoundOutcome st outcome ∧ (∀ k, nameOf outcome = some k → k ∉ s) ∧
      (isTerminal outcome = false → ∃ l t, targetOf outcome = some t ∧
        (st.stage t).isSome = true ∧ checkTarget st be o name l outcome t = []) := by
  unfold checkOutcome at h
  split at h
  · cases h
  · next hta =>
    obtain ⟨hbo, ht⟩ := append_eq_nil_iff.mp h
    obtain ⟨hf, hn⟩ := append_eq_nil_iff.mp hbo
    have hna : ∃ k, nameOf outcome = some k ∧ k ≠ "" ∧ k ∉ s := by
      split at hn
      · cases hn
      · cases hn
      · next k he hk =>
        refine ⟨k, hk, he, fun hse => ?_⟩
        rw [if_pos (contains_iff_mem.mpr hse)] at hn
        cases hn
    obtain ⟨k, hk, he, hse⟩ := hna
    have hl : isTerminal outcome = false → ∃ l t, targetOf outcome = some t ∧
        (st.stage t).isSome = true ∧ checkTarget st be o name l outcome t = [] := by
      intro hte
      rw [hte, if_neg Bool.false_ne_true] at ht
      split at ht
      · cases ht
      · next t hto =>
        split at ht
        · cases ht
        · next hs =>
          refine ⟨_, t, hto, ?_, ht⟩
          exact Option.isSome_iff_ne_none.mpr fun hnn => hs (by simp [hnn])
    refine ⟨⟨?_, ⟨k, hk, he⟩, ?_, ?_, ?_⟩, ?_, hl⟩
    · exact Bool.eq_true_of_not_eq_false fun hfa => hta (by rw [hfa]; rfl)
    · intro v hv
      obtain ⟨e, hx, hy⟩ := hasType_of_checkFields hf hv
      obtain rfl : e = .number := some.inj (hx.symm.trans rfl)
      cases v with
      | num n => exact ⟨n, rfl⟩
      | other ty => cases ty <;> exact absurd hy (by decide)
      | _ => cases hy
    · intro hte
      obtain ⟨_, t, hto, hs, -⟩ := hl hte
      exact ⟨t, hto, hs⟩
    · intro hte hba ha
      obtain ⟨_, t, -, -, hno⟩ := hl hte
      have hb := (append_eq_nil_iff.mp hno).2
      rw [hba, ha, Bool.and_self, if_pos rfl] at hb
      by_contra hc
      rw [if_neg hc] at hb
      cases (append_eq_nil_iff.mp hb).1
    · intro other ho
      obtain rfl := some.inj (hk.symm.trans ho)
      exact hse

/-- Outcomes in which nothing is wrong: each is sound, and no two have one name. -/
theorem checkOutcomes_eq_nil {all : List Value} {name : String} {i : Nat} {s : List String}
    {o : List Value} (h : checkOutcomes text w st be all name i s o = []) :
    (∀ outcome ∈ o, SoundOutcome st outcome ∧
      (isTerminal outcome = false → ∃ l t, targetOf outcome = some t ∧
        (st.stage t).isSome = true ∧ checkTarget st be all name l outcome t = [])) ∧
      (o.filterMap nameOf).Nodup ∧ ∀ k ∈ o.filterMap nameOf, k ∉ s := by
  induction o generalizing i s with
  | nil => exact ⟨forall_mem_nil _, nodup_nil, forall_mem_nil _⟩
  | cons outcome o ih =>
    obtain ⟨hf, hr⟩ := append_eq_nil_iff.mp h
    obtain ⟨hs, he, hl⟩ := checkOutcome_eq_nil hf
    obtain ⟨ha, hd, hu⟩ := ih hr
    obtain ⟨k, hk, -⟩ := hs.named
    rw [hk, Option.toList_some, singleton_append] at hu
    rw [filterMap_cons_some hk]
    refine ⟨forall_mem_cons.mpr ⟨⟨hs, hl⟩, ha⟩, nodup_cons.mpr ⟨?_, hd⟩,
      forall_mem_cons.mpr ⟨he k hk, fun x ho hi => ?_⟩⟩
    · exact fun hi => hu k hi mem_cons_self
    · exact hu x ho (mem_cons_of_mem _ hi)

end

/-! ### Accepted workflows -/

/-- What is known of the stages of a workflow that validation accepts. -/
structure Accepted (stages : Manifest) (entry : String) : Prop where
  entries : entriesOf stages = [entry]
  stage : ∀ name block, stages.stage name = some block → SoundStage stages block
  returning : ∀ name block, stages.stage name = some block → ∀ outcome ∈ outcomesOf block,
    isTerminal outcome = false → ∃ label target, targetOf outcome = some target ∧
      checkTarget stages (classifyBackEdges stages entry) (outcomesOf block) name label outcome
        target = []
  reached : ∀ name block, stages.stage name = some block → Graph.Reaches (edges stages) entry name

variable {stages : Manifest} {name : String}

theorem mem_names : name ∈ names stages ↔ (stages.stage name).isSome = true := by
  rw [isSome_iff_exists, names, mem_map]
  constructor
  · rintro ⟨⟨k, block⟩, hm, rfl⟩
    exact ⟨block, Manifest.stage_eq_some.mpr hm⟩
  · rintro ⟨block, hb⟩
    exact ⟨(name, block), Manifest.stage_eq_some.mp hb, rfl⟩

theorem mem_stageNames : name ∈ stageNames stages ↔ (stages.stage name).isSome = true :=
  mem_sorted.trans mem_names

/-- Edges lead to stages. -/
theorem mem_names_of_edge {next : String} (h : next ∈ edges stages name) : next ∈ names stages := by
  unfold edges at h
  cases hb : stages.stage name with
  | none => simp [hb] at h
  | some block =>
    rw [hb, map_some, getD_some] at h
    obtain ⟨outcome, -, ht⟩ := mem_filterMap.mp h
    obtain ⟨he, hs⟩ := Option.filter_eq_some_iff.mp ht
    exact mem_names.mpr hs

/-- A workflow in which nothing is wrong is accepted. -/
theorem accepted_of_rejectionsOf {text : Key → String} {workflow : String}
    (h : rejectionsOf text workflow stages = []) : ∃ entry, Accepted stages entry := by
  unfold rejectionsOf at h
  dsimp only at h
  obtain ⟨h, hr⟩ := append_eq_nil_iff.mp h
  obtain ⟨h, ho⟩ := append_eq_nil_iff.mp h
  obtain ⟨h, -⟩ := append_eq_nil_iff.mp h
  obtain ⟨hs, hes⟩ := append_eq_nil_iff.mp h
  obtain ⟨entry, he⟩ : ∃ entry, entriesOf stages = [entry] := by
    unfold checkEntries at hes
    split at hes
    · cases hes
    · next entry he => exact ⟨entry, he⟩
    · cases hes
  have ha : ∀ {name block}, stages.stage name = some block → name ∈ stageNames stages :=
    fun hb => mem_stageNames.mpr (by rw [hb]; rfl)
  have hc : ∀ name block, stages.stage name = some block → _ ∧ _ ∧ _ :=
    fun name block hb => by
      have hn := flatMap_eq_nil_iff.mp ho name (ha hb)
      rw [hb, map_some, getD_some, he] at hn
      exact checkOutcomes_eq_nil hn
  refine ⟨entry, he, fun name block hb => ⟨?_, ?_, ?_⟩, ?_, ?_⟩
  · intro v hv
    have hn := flatMap_eq_nil_iff.mp hs name (ha hb)
    rw [hb, map_some, getD_some] at hn
    simp only [checkStage, append_eq_nil_iff] at hn
    obtain ⟨e, hx, hy⟩ := hasType_of_checkFields hn.1.1.1.1 hv
    obtain rfl : e = .array := some.inj (hx.symm.trans rfl)
    exact hy
  · exact fun outcome hu => ((hc name block hb).1 outcome hu).1
  · exact (hc name block hb).2.1
  · intro name block hb outcome hu hte
    obtain ⟨l, t, ht, -, hn⟩ :=
      ((hc name block hb).1 outcome hu).2 hte
    exact ⟨l, t, ht, hn⟩
  · intro name block hb
    have hn := (append_eq_nil_iff.mp hr).2
    rw [he] at hn
    have hm := flatMap_eq_nil_iff.mp hn name (ha hb)
    have hf : name ∈ reachableFrom stages [entry] := by
      by_contra habs
      rw [if_neg (by simpa using habs)] at hm
      cases hm
    obtain ⟨r, hro, -, hre⟩ := (Graph.mem_reachableFrom
      fun n _ next hne => mem_names_of_edge hne).mp hf
    obtain rfl := mem_singleton.mp hro
    exact hre

theorem stage_stagesOf {workflow : String} {manifest : Manifest} {block : Value} :
    (stagesOf workflow manifest).stage name = some block ↔
      manifest.stage name = some block ∧ claims workflow block = true := by
  rw [Manifest.stage_eq_some, Manifest.stage_eq_some]
  exact mem_filter

section

variable {stages : Manifest} {bl out : Value}

/-- What the executor finds is the first outcome with the name. -/
theorem findOutcome_eq (h : SoundStage stages bl) (name : Option Value) :
    findOutcome bl name = (outcomesOf bl).find? fun out =>
      isTable (some out) && rawEqual (out.field "name") name := by
  unfold findOutcome outcomesOf
  cases ho : bl.field "outcomes" with
  | none => rfl
  | some v =>
    have ha := h.outcomes v ho
    cases v with
    | table fs =>
      dsimp only
      rw [if_pos ha]
    | _ => cases ha

theorem mem_of_findOutcome (h : SoundStage stages bl) {name : Option Value}
    (hf : findOutcome bl name = some out) : out ∈ outcomesOf bl := by
  rw [findOutcome_eq h] at hf
  exact mem_of_find?_eq_some hf

variable {name : String}

theorem field_of_nameOf (h : nameOf out = some name) : out.field "name" = some (.str name) := by
  unfold nameOf text? at h
  split at h
  · next text hf =>
    obtain rfl := some.inj h
    exact hf
  · cases h

theorem field_of_targetOf {t : String} (h : targetOf out = some t) :
    out.field "to" = some (.str t) := by
  unfold targetOf text? at h
  split at h
  · next text hf =>
    obtain rfl := some.inj h
    exact hf
  · cases h

theorem rawEqual_name :
    rawEqual (out.field "name") (some (.str name)) = true ↔ nameOf out = some name := by
  constructor
  · intro h
    cases hf : out.field "name" with
    | none => simp [hf, rawEqual] at h
    | some v =>
      cases v with
      | str text => simp_all [rawEqual, nameOf, text?]
      | _ => simp [hf, rawEqual] at h
  · intro h
    rw [field_of_nameOf h]
    simp [rawEqual]

/-- Each outcome of a stage is the one that the executor finds under its name. -/
theorem findOutcome_of_mem (h : SoundStage stages bl) (hm : out ∈ outcomesOf bl)
    (hn : nameOf out = some name) : findOutcome bl (some (.str name)) = some out := by
  rw [findOutcome_eq h]
  have ha := h.sound
  have hd := h.distinct
  generalize outcomesOf bl = o at hm ha hd
  induction o with
  | nil => cases hm
  | cons x o ih =>
    obtain ⟨hf, hr⟩ := forall_mem_cons.mp ha
    obtain ⟨k, hk, -⟩ := hf.named
    rw [filterMap_cons_some hk] at hd
    obtain ⟨he, hd⟩ := nodup_cons.mp hd
    rcases mem_cons.mp hm with rfl | hl
    · rw [List.find?_cons_of_pos]
      rw [hf.table, rawEqual_name.mpr hn, Bool.and_self]
    · rw [List.find?_cons_of_neg, ih hl hr hd]
      rw [hf.table, Bool.true_and, rawEqual_name, hk]
      rintro ⟨⟩
      exact he (mem_filterMap.mpr ⟨out, hl, hn⟩)

end

/-! ### Where the executor is -/

/-- The executor is at one of some stages or at none, and what is charged for is one of some
outcomes. -/
structure Placed (manifest : Manifest) (P : String → Prop) (Q : Value → Prop) (run : Running) :
    Prop where
  document : run.executor.manifest = manifest
  stage : ∀ value, run.executor.currentStage = some value → ∃ name, value = .str name ∧ P name
  charged : ∀ operation stageName outcome outcomeName used,
    (operation, .consume stageName outcome outcomeName used) ∈ run.inFlight → Q outcome

/-- Where they are not terminal, some outcomes lead to some stages. -/
def LeadTo (P : String → Prop) (Q : Value → Prop) : Prop :=
  ∀ outcome, Q outcome → isTerminal outcome = false → ∃ target, targetOf outcome = some target ∧
      P target

/-- The executor is at a stage of its workflow or at none, and what is charged for is sound. -/
abbrev InStages (workflow : String) (manifest : Manifest) : Running → Prop :=
  Placed manifest (fun name => ((stagesOf workflow manifest).stage name).isSome = true)
    (SoundOutcome (stagesOf workflow manifest))

/-- A ledger call that is no charge. -/
def LedgerCall.free : LedgerCall → Prop
  | .consume .. => False
  | _ => True

section

variable {wo : String} {ma : Manifest} {entry : String} {run : Running}
  {P : String → Prop} {Q : Value → Prop}

variable {af : Running}

/-- What neither moves the executor nor charges keeps it in its place. -/
theorem Placed.keep (h : Placed ma P Q run) (hm : af.executor.manifest = run.executor.manifest)
    (hs : af.executor.currentStage = run.executor.currentStage)
    (hc : ∀ x ∈ af.inFlight, x ∈ run.inFlight ∨ x.2.free) :
    Placed ma P Q af := by
  refine ⟨hm.trans h.document, hs ▸ h.stage, ?_⟩
  intro op sn outcome oun u he
  rcases hc _ he with hold | hf
  · exact h.charged _ _ _ _ _ hold
  · exact hf.elim

theorem Placed.same (h : Placed ma P Q run) (hm : af.executor.manifest = run.executor.manifest)
    (hs : af.executor.currentStage = run.executor.currentStage)
    (hc : af.inFlight = run.inFlight) : Placed ma P Q af :=
  h.keep hm hs fun _ he => .inl (hc ▸ he)

variable {lc : LedgerCall}

theorem Placed.call (h : Placed ma P Q run) {op : Nat}
    (ha : af.executor.manifest = run.executor.manifest)
    (hs : af.executor.currentStage = run.executor.currentStage)
    (hc : af.inFlight = run.inFlight ++ [(op, lc)]) (hf : lc.free) :
    Placed ma P Q af := by
  refine h.keep ha hs fun x hm => ?_
  rw [hc] at hm
  exact (mem_append.mp hm).imp_right fun hn => by rwa [mem_singleton.mp hn]

variable {ou : Value}

/-- An outcome is followed to a stage or to the end. -/
theorem Placed.follow (h : Placed ma P Q run) (hl : LeadTo P Q) (ho : Q ou) (op : Nat)
    (s : String) (oun : Option Value) (e : Bool) (r : Option String) :
    Placed ma P Q (run.follow op ou s oun e r) := by
  unfold Running.follow applyTransition
  split
  · exact ⟨h.document, fun _ hv => (Option.some_ne_none _ hv.symm).elim, h.charged⟩
  · next he =>
    obtain ⟨t, ht, hs⟩ :=
      hl ou ho (Bool.eq_false_of_not_eq_true he)
    refine ⟨h.document, fun v hv => ⟨t, ?_, hs⟩, h.charged⟩
    exact some.inj (hv.symm.trans (field_of_targetOf ht))

/-- The block of the stage that an executor is at. -/
theorem Placed.soundStage (h : InStages wo ma run) (ha : Accepted (stagesOf wo ma) entry)
    {name : String} {block : Value} (hs : run.executor.currentStage = some (.str name))
    (hb : run.executor.manifest.stage name = some block) :
    isTable (some block) = true ∧ SoundStage (stagesOf wo ma) block := by
  obtain ⟨s, heq, hc⟩ := h.stage _ hs
  obtain rfl := str.inj heq
  obtain ⟨c, hf⟩ := isSome_iff_exists.mp hc
  obtain ⟨hm, hl⟩ := stage_stagesOf.mp hf
  rw [h.document, hm] at hb
  obtain rfl := some.inj hb
  exact ⟨(and_eq_true_iff.mp hl).1, ha.stage _ _ hf⟩

theorem placed_applyAutomaticBackEdge (h : Placed ma P Q run) (hl : LeadTo P Q) {stages : Manifest}
    {s : Value} (hs : SoundStage stages s) (ha : ∀ ou ∈ outcomesOf s, Q ou) (hm : ou ∈ outcomesOf s)
    (o : Nat) (sn oun : String) (mid : Option String) : Placed ma P Q
      (run.applyAutomaticBackEdge o s ou sn oun mid).2 := by
  unfold applyAutomaticBackEdge
  split
  · exact h.follow hl (ha ou hm) ..
  · split
    · exact h.same rfl rfl rfl
    · split
      · exact h
      · dsimp only
        split
        · unfold exhaust
          split
          · exact h.same rfl rfl rfl
          · next e hf =>
            exact h.follow hl (ha e (mem_of_findOutcome hs hf)) ..
        · unfold charge
          split
          · exact h.same rfl rfl rfl
          · refine ⟨h.document, h.stage, ?_⟩
            intro op name x otn u hc
            rcases mem_append.mp hc with hold | hn
            · exact h.charged _ _ _ _ _ hold
            · obtain ⟨-, rfl, rfl, rfl, rfl⟩ : op = o ∧ name = sn ∧ x = ou ∧ otn = oun ∧ u = _ := by
                simpa using mem_singleton.mp hn
              exact ha _ hm

theorem leadTo_stages : LeadTo (fun name => ((stagesOf wo ma).stage name).isSome = true)
    (SoundOutcome (stagesOf wo ma)) :=
  fun _ hs => hs.target

theorem placed_advance (h : Placed ma P Q run) (hl : LeadTo P Q) (stages : Manifest)
    (hst : ∀ name block, run.executor.currentStage = some (.str name) →
      run.executor.manifest.stage name = some block →
      SoundStage stages block ∧ ∀ ou ∈ outcomesOf block, Q ou) (oun : String)
    (mid : Option String) (c : Bool) : Placed ma P Q (run.advance oun mid c).2 := by
  unfold advance
  split
  · exact h
  · split
    · exact h
    · split
      · exact h
      · split
        · exact h
        · next v hv =>
          obtain ⟨name, rfl, -⟩ := h.stage v hv
          dsimp only
          split
          · exact h
          · next stage ht =>
            split
            · exact h
            · split
              · exact h
              · next ou hf =>
                obtain ⟨hs, ha⟩ := hst name stage hv ht
                have ho : Placed ma P Q run.opened := h.same rfl rfl rfl
                exact placed_applyAutomaticBackEdge ho hl hs ha (mem_of_findOutcome hs hf) ..

theorem placed_beginGenerator (h : Placed ma P Q run) (mid : String)
    (c : Bool) : Placed ma P Q (run.beginGenerator mid c).2 := by
  unfold beginGenerator
  split
  · exact h
  · split
    · exact h
    · split
      · exact h
      · split
        · exact h
        · split
          · exact h
          · split
            · exact h
            · exact h.call rfl rfl rfl trivial

theorem placed_recordGeneratorOutput (h : Placed ma P Q run) (oi : String) (c : Bool) :
    Placed ma P Q (run.recordGeneratorOutput oi c).2 := by
  unfold recordGeneratorOutput
  split
  · exact h
  · split
    · exact h
    · split
      · exact h
      · split
        · exact h
        · split
          · exact h
          · exact h.call rfl rfl rfl trivial

theorem placed_endGenerator (h : Placed ma P Q run) (c : Bool) :
    Placed ma P Q (run.endGenerator c).2 := by
  unfold endGenerator
  split
  · exact h
  · split
    · exact h
    · split
      · exact h
      · exact h.call rfl rfl rfl trivial

theorem placed_dispose (h : Placed ma P Q run) (c : Bool) : Placed ma P Q (run.dispose c).2 := by
  unfold dispose
  split
  · exact h
  · split
    · exact h.same rfl rfl rfl
    · dsimp only
      split
      · exact h.same rfl rfl rfl
      · split
        · exact h.same rfl rfl rfl
        · exact h.call rfl rfl rfl trivial

theorem placed_charged (h : Placed ma P Q run) (hl : LeadTo P Q) (ho : Q ou)
    (op : Nat) (sn oun : String) (u : Nat) (a : LedgerAnswer) :
    Placed ma P Q (run.charged op sn ou oun u a) := by
  unfold charged
  split
  · exact h.same rfl rfl rfl
  · split
    · exact h.same rfl rfl rfl
    · split
      · exact h.same rfl rfl rfl
      · refine Placed.follow ?_ hl ho ..
        exact h.same rfl rfl rfl

theorem placed_answered (h : Placed ma P Q run) (hl : LeadTo P Q) {op : Nat}
    (ho : ∀ sn ou oun u, lc = .consume sn ou oun u → Q ou)
    (a : LedgerAnswer) : Placed ma P Q (run.answered op lc a) := by
  cases lc with
  | consume sn ou oun u =>
    exact placed_charged h hl (ho _ _ _ _ rfl) ..
  | reserve mid m =>
    change Placed ma P Q (run.reserved op mid m a)
    unfold reserved
    split
    · exact h.same rfl rfl rfl
    · split
      · exact h.same rfl rfl rfl
      · split
        · exact h.same rfl rfl rfl
        · exact h.same rfl rfl rfl
  | confirm g =>
    change Placed ma P Q (run.confirmed op g a)
    unfold confirmed
    split
    · split
      · exact h.same rfl rfl rfl
      · split
        · exact h.same rfl rfl rfl
        · exact h.same rfl rfl rfl
    · exact h.same rfl rfl rfl
  | releaseEnded g mid =>
    change Placed ma P Q (run.releasedEnded op a)
    unfold releasedEnded
    dsimp only
    split
    · exact h.same rfl rfl rfl
    · exact h.same rfl rfl rfl
  | releaseDisposed g mid => exact h.same rfl rfl rfl

theorem placed_answer (h : Placed ma P Q run) (hl : LeadTo P Q) (i : Nat)
    (a : LedgerAnswer) : Placed ma P Q (run.answer i a) := by
  unfold answer
  split
  · exact h
  · next op lc hc =>
    refine placed_answered ?_ hl ?_ a
    · exact h.keep rfl rfl fun _ hm => .inl (mem_of_mem_eraseIdx hm)
    · rintro sn ou oun u rfl
      exact h.charged _ _ _ _ _ (mem_of_getElem? hc)

theorem placed_deliver (h : Placed ma P Q run) (i : Nat) : Placed ma P Q (run.deliver i) := by
  unfold deliver
  split
  · exact h
  · exact h.same rfl rfl rfl

/-- Whatever happens, the executor of an accepted workflow stays in its stages. -/
theorem placed_step (ha : Accepted (stagesOf wo ma) entry)
    (h : InStages wo ma run) (e : Event) : InStages wo ma (run.step e) := by
  cases e with
  | advance oun mid c =>
    refine placed_advance h leadTo_stages (stagesOf wo ma) (fun name block ht hb => ?_) ..
    have hs := (h.soundStage ha ht hb).2
    exact ⟨hs, hs.sound⟩
  | beginGenerator mid c => exact placed_beginGenerator h ..
  | recordGeneratorOutput oi c => exact placed_recordGeneratorOutput h ..
  | endGenerator c => exact placed_endGenerator h c
  | park =>
    change InStages wo ma run.park.2
    unfold Running.park
    split
    · exact h
    · exact h
    · exact h.same rfl rfl rfl
  | cancel =>
    change InStages wo ma run.cancel.2
    unfold cancel
    split
    · exact h
    · exact h
    · exact h.same rfl rfl rfl
  | resume =>
    change InStages wo ma run.resume.2
    unfold resume
    split
    · exact h
    · exact h
    · exact h
    · exact h
    · exact h.same rfl rfl rfl
  | dispose c => exact placed_dispose h c
  | answer i answer => exact placed_answer h leadTo_stages i answer
  | settle i => exact placed_deliver h i

end

/-! ### Taking an outcome -/

/-- A settlement of an operation waits for the main loop. -/
def Running.Delivers (run : Running) (operation : Nat) : Prop :=
  ∃ index outcome, (run.step (.settle index)).delivered = run.delivered ++ [⟨operation, outcome⟩]

/-- The callback of an operation is called once the main loop turns, or once the ledger has
answered, whatever it answers. -/
def Running.Underway (run : Running) (operation : Nat) : Prop :=
  run.Delivers operation ∨ ∃ index, ∀ answer, (run.step (.answer index answer)).Delivers operation

/-- An outcome is refused with a message and nothing happens, or an operation is begun whose
callback is called. No error is raised. -/
def Answers (run : Running) (outcomeName : String) (mutationId : Option String)
    (callback : Bool) : Prop :=
  (∃ message, run.advance outcomeName mutationId callback = (.refused message, run)) ∨
    (run.advance outcomeName mutationId callback).1 = .accepted ∧
      (run.advance outcomeName mutationId callback).2.Underway run.operations

/-- An active executor can take every outcome, or says why not. -/
def Safe (run : Running) : Prop :=
  run.executor.status = .active →
    ∀ outcomeName mutationId callback, Answers run outcomeName mutationId callback

/-- At the stage of an executor that is ready, each terminal outcome that is an automatic back
edge has its number of iterations. -/
def Counted (run : Running) : Prop :=
  run.executor.refusal true = none → run.executor.generator = none →
    ∀ name block outcome, run.executor.currentStage = some (.str name) →
      run.executor.manifest.stage name = some block → outcome ∈ outcomesOf block →
      isTerminal outcome = true → isBackEdge outcome = true → isAutomatic outcome = true →
      (outcome.field "max-iterations").isSome = true

section

variable {workflow : String} {manifest : Manifest} {entry : String} {run : Running}

theorem delivers_settle (run : Running) (op : Nat) (outcome : Outcome) :
    (run.settle op outcome).Delivers op := by
  refine ⟨run.deferred.length, outcome, ?_⟩
  change ((run.settle op outcome).deliver run.deferred.length).delivered = _
  unfold deliver settle
  simp

/-- Whatever the ledger answers, the operation is settled. -/
theorem answered_settles (run : Running) (op : Nat) (lec : LedgerCall)
    (a : LedgerAnswer) : ∃ pre outcome, run.answered op lec a = settle pre op outcome := by
  cases lec with
  | consume sn outcome oun u =>
    change ∃ pre s, run.charged op sn outcome oun u a = _
    unfold charged
    split
    · exact ⟨_, _, rfl⟩
    · split
      · exact ⟨_, _, rfl⟩
      · split
        · exact ⟨_, _, rfl⟩
        · exact ⟨_, _, rfl⟩
  | reserve mid m =>
    change ∃ pre s, run.reserved op mid m a = _
    unfold reserved
    split
    · exact ⟨_, _, rfl⟩
    · split
      · exact ⟨_, _, rfl⟩
      · split
        · exact ⟨_, _, rfl⟩
        · exact ⟨_, _, rfl⟩
  | confirm g =>
    change ∃ pre s, run.confirmed op g a = _
    unfold confirmed
    split
    · split
      · exact ⟨_, _, rfl⟩
      · split
        · exact ⟨_, _, rfl⟩
        · exact ⟨_, _, rfl⟩
    · exact ⟨_, _, rfl⟩
  | releaseEnded g mid => exact ⟨_, _, rfl⟩
  | releaseDisposed g mid => exact ⟨_, _, rfl⟩

theorem underway_settle (run : Running) (op : Nat) (outcome : Outcome) :
    (run.settle op outcome).Underway op := .inl (delivers_settle ..)

theorem underway_call (run : Running) (op : Nat) (lec : LedgerCall) :
    (run.call op lec).Underway op := by
  refine .inr ⟨run.inFlight.length, fun a => ?_⟩
  obtain ⟨pre, outcome, hs⟩ := answered_settles { run.call op lec with
      inFlight := (run.call op lec).inFlight.eraseIdx run.inFlight.length }
    op lec a
  have hc : (run.call op lec).inFlight[run.inFlight.length]? = some (op, lec) := by
    simp [call]
  change ((run.call op lec).answer run.inFlight.length a).Delivers op
  unfold answer
  rw [hc]
  dsimp only
  rw [hs]
  exact delivers_settle pre op outcome

/-- Taking an outcome whose bound is a number begins an operation. -/
theorem applyAutomaticBackEdge_accepted {s outcome : Value} {op : Nat} {sn oun : String}
    {mid : Option String} (h : isBackEdge outcome = true → isAutomatic outcome = true →
      (maxIterations outcome).isSome = true) :
    (run.applyAutomaticBackEdge op s outcome sn oun mid).1 = .accepted ∧
      (run.applyAutomaticBackEdge op s outcome sn oun mid).2.Underway op := by
  unfold applyAutomaticBackEdge
  split
  · exact ⟨rfl, underway_settle ..⟩
  · next ha =>
    split
    · exact ⟨rfl, underway_settle ..⟩
    · split
      · next hn =>
        have hb : isBackEdge outcome = true ∧ isAutomatic outcome = true := by
          simpa using ha
        have hs := h hb.1 hb.2
        rw [maxIterations, hn] at hs
        cases hs
      · dsimp only
        split
        · refine ⟨rfl, ?_⟩
          unfold exhaust
          split
          · exact underway_settle ..
          · exact underway_settle ..
        · refine ⟨rfl, ?_⟩
          unfold charge
          split
          · exact underway_settle ..
          · exact underway_call ..

/-- A field that has to be a number is one where it is there. -/
theorem isSome_maxIterations {stages : Manifest} {outcome : Value}
    (h : SoundOutcome stages outcome) :
    (maxIterations outcome).isSome = (outcome.field "max-iterations").isSome := by
  unfold maxIterations
  cases hf : outcome.field "max-iterations" with
  | none => rfl
  | some v =>
    obtain ⟨n, rfl⟩ := h.number v hf
    rfl

theorem isSome_of_isLiteralCount {v : Option Value} (h : isLiteralCount v = true) :
    v.isSome = true := by
  cases v with
  | none => cases h
  | some v => rfl

/-- In the stages of an accepted workflow an executor can take every outcome exactly where the
bounds that it compares with are there. -/
theorem safe_iff (hacc : Accepted (stagesOf workflow manifest) entry)
    (h : InStages workflow manifest run) : Safe run ↔ Counted run := by
  constructor
  · intro hsf hr hg name block outcome hst hb hm hte hba hu
    obtain ⟨ht, hs⟩ := h.soundStage hacc hst hb
    obtain ⟨k, hk, he⟩ := (hs.sound outcome hm).named
    have hf := findOutcome_of_mem hs hm hk
    by_contra habs
    have hnum : number? (outcome.field "max-iterations") = none := by
      have hsa := isSome_maxIterations (hs.sound outcome hm)
      rw [Bool.eq_false_of_not_eq_true habs] at hsa
      exact Option.isSome_eq_false_iff.mp hsa |> Option.isNone_iff_eq_none.mp
    have hi : isIndexable (some block) = true := by
      cases block with
      | table fs => rfl
      | _ => cases ht
    have hra : run.advance k (some "m") true = (.raised, run.opened) := by
      have hn : (k == "") = false := beq_false_of_ne he
      unfold advance
      simp only [hr, hg, hn, hst, hb, hi, hf, text?,
        isSome_none, bind_some, getD_some, Bool.not_true,
        false_eq_true, if_false]
      unfold applyAutomaticBackEdge
      simp [hba, hu, hnum]
    rcases hsf (ready_of_refusal hr).status k (some "m") true with
      ⟨m, hre⟩ | ⟨hacc, -⟩
    · rw [hra] at hre
      cases hre
    · rw [hra] at hacc
      cases hacc
  · intro hcnt ha oun mid c
    unfold Answers advance
    split
    · exact .inl ⟨_, rfl⟩
    · next hr =>
      split
      · exact .inl ⟨_, rfl⟩
      · next hg =>
        split
        · exact .inl ⟨_, rfl⟩
        · split
          · exact .inl ⟨_, rfl⟩
          · next v hv =>
            obtain ⟨name, rfl, hc⟩ := h.stage v hv
            obtain ⟨block, hb⟩ := isSome_iff_exists.mp hc
            have hst : run.executor.manifest.stage name = some block :=
              h.document ▸ (stage_stagesOf.mp hb).1
            obtain ⟨ht, hs⟩ := h.soundStage hacc hv hst
            have hi : isIndexable (some block) = true := by
              cases block with
              | table fs => rfl
              | _ => cases ht
            dsimp only [text?, bind_some]
            rw [hst]
            dsimp only
            rw [hi, Bool.not_true, if_neg Bool.false_ne_true]
            split
            · exact .inl ⟨_, rfl⟩
            · next outcome hf =>
              have hm := mem_of_findOutcome hs hf
              refine .inr (applyAutomaticBackEdge_accepted fun hba hu => ?_)
              rw [isSome_maxIterations (hs.sound outcome hm)]
              by_cases hte : isTerminal outcome = true
              · refine hcnt ?_ (Option.not_isSome_iff_eq_none.mp hg) name block outcome
                  hv hst hm hte hba hu
                cases c with
                | true => exact hr
                | false => cases hr
              · exact isSome_of_isLiteralCount ((hs.sound outcome hm).bounded
                  (Bool.eq_false_of_not_eq_true hte) hba hu)

end

/-! ### Coming to a stage -/

/-- A stage has an outcome to another one that is not terminal. -/
def Follows (stages : Manifest) (name next : String) : Prop :=
  ∃ block outcome, stages.stage name = some block ∧ outcome ∈ outcomesOf block ∧
    isTerminal outcome = false ∧ targetOf outcome = some next

/-- An executor takes an outcome, its ledger lets it, and the main loop turns. -/
def taking (outcomeName : String) : List Event :=
  [.advance outcomeName (some "mutation") true, .answer 0 ⟨some "consumed", true, none⟩, .settle 0]

/-- A ledger with all its functions. -/
def fullLedger : Ledger := ⟨true, true, true, true⟩

/-- An executor that is new at a stage comes to another one by an outcome. -/
def Leads (manifest : Manifest) (name next : String) : Prop :=
  ∃ outcomeName, ((taking outcomeName).foldl step
    (.start (.start manifest name fullLedger))).executor.currentStage = some (.str next)

/-- Nothing is under way, and an outcome may be taken. -/
structure Idle (run : Running) : Prop where
  status : run.executor.status = .active
  pending : run.executor.pending = false
  generator : run.executor.generator = none
  inFlight : run.inFlight = []
  deferred : run.deferred = []

/-- Automatic back edges are counted under keys of their own. -/
def DistinctKeys (manifest : Manifest) : Prop :=
  ∀ stage outcome value other second otherValue, BackEdgeAt manifest stage outcome value →
    BackEdgeAt manifest other second otherValue → edgeKey stage outcome = edgeKey other second →
    stage = other ∧ outcome = second

/-- What becomes of a run that takes an outcome to a stage. -/
structure Taken (before after : Running) (next : String) (key : Option String) : Prop where
  idle : Idle after
  stage : after.executor.currentStage = some (.str next)
  document : after.executor.manifest = before.executor.manifest
  ledger : after.executor.ledger = before.executor.ledger
  counts : ∀ other, after.executor.iterations other ≠ before.executor.iterations other →
    key = some other

section

variable {run : Running} {name next on : String} {block outcome : Value}

theorem Idle.refusal (h : Idle run) : run.executor.refusal true = none := by
  simp [Executor.refusal, Executor.readyError, Executor.activeError, h.status, h.pending]

/-- An outcome that is not used up is followed. -/
theorem taken_of_idle (h : Idle run) (hs : run.executor.currentStage = some (.str name))
    (hb : run.executor.manifest.stage name = some block) (hta : isTable (some block) = true)
    (he : on ≠ "") (hf : findOutcome block (some (.str on)) = some outcome)
    (hte : isTerminal outcome = false) (ht : targetOf outcome = some next)
    (hc : run.executor.ledger.consume = true)
    (hr : isBackEdge outcome = true → isAutomatic outcome = true → ∃ m,
      maxIterations outcome = some m ∧
        m.le (.ofNat (run.executor.iterations (edgeKey name on))) = false) :
    Taken run ((taking on).foldl step run) next
      (if isBackEdge outcome && isAutomatic outcome then some (edgeKey name on)
        else none) := by
  have hn : (on == "") = false := beq_false_of_ne he
  have hi : isIndexable (some block) = true := by
    cases block with
    | table fs => rfl
    | _ => cases hta
  have hto := field_of_targetOf ht
  have hd : run.advance on (some "mutation") true =
      run.opened.applyAutomaticBackEdge run.operations block outcome name on (some "mutation") := by
    unfold advance
    simp only [h.refusal, h.generator, hn, hs, hb, hi, hf, text?,
      isSome_none, bind_some, getD_some, Bool.not_true,
      false_eq_true, if_false]
  change Taken run ((((run.advance on (some "mutation") true).2).answer 0
    ⟨some "consumed", true, none⟩).deliver 0) next _
  rw [hd]
  unfold applyAutomaticBackEdge
  by_cases ha : (isBackEdge outcome && isAutomatic outcome) = true
  · obtain ⟨hba, hau⟩ := and_eq_true_iff.mp ha
    obtain ⟨m, hx, hl⟩ := hr hba hau
    have hu : number? (outcome.field "max-iterations") = some m := hx
    have hl' : m.le (.ofNat (run.opened.executor.iterations (edgeKey name on))) =
        false := hl
    have hm : ((some "mutation").getD "" == "") = false := by decide
    rw [if_pos ha]
    simp only [ha, Bool.not_true, false_eq_true, if_false, hm, hu, hl']
    simp only [charge, hc, Bool.not_true, false_eq_true, if_false, call,
      opened, h.inFlight, nil_append, answer, List.getElem?_cons_zero,
      eraseIdx_cons_zero, answered, charged, h.status, reduceCtorEq,
      Option.some.injEq, String.reduceEq, ne_eq, not_true_eq_false, Running.follow,
      applyTransition, hte, settle, h.deferred, deliver]
    refine ⟨⟨rfl, rfl, h.generator, rfl, rfl⟩, hto, rfl, rfl, fun o hne => ?_⟩
    by_contra ho
    refine hne (Function.update_of_ne ?_ _ _)
    exact fun heq => ho (congrArg some heq.symm)
  · have hp : (isBackEdge outcome && isAutomatic outcome) = false :=
      Bool.eq_false_of_not_eq_true ha
    rw [if_neg ha]
    simp only [hp, Bool.not_false, if_true, Running.follow, applyTransition,
      hte, false_eq_true, if_false, settle, opened, h.deferred,
      nil_append, answer, h.inFlight, List.getElem?_nil, deliver,
      List.getElem?_cons_zero, eraseIdx_cons_zero]
    exact ⟨⟨h.status, rfl, h.generator, rfl, rfl⟩, hto, rfl, rfl, fun o hne => (hne rfl).elim⟩

/-- The start of an executor is idle. -/
theorem idle_start (manifest : Manifest) (entry : String) (ledger : Ledger) :
    Idle (.start (.start manifest entry ledger)) := ⟨rfl, rfl, rfl, rfl, rfl⟩

end

section

variable {workflow : String} {manifest : Manifest} {entry : String}

variable {name next : String}

/-- A followed outcome has a name of its own and, where it is counted, a bound from one on. -/
theorem Accepted.exists_outcome (h : Accepted (stagesOf workflow manifest) entry)
    (hf : Follows (stagesOf workflow manifest) name next) :
    ∃ block outcome oun, manifest.stage name = some block ∧ isTable (some block) = true ∧ oun ≠ "" ∧
      findOutcome block (some (.str oun)) = some outcome ∧
      isTerminal outcome = false ∧ targetOf outcome = some next ∧
      (isBackEdge outcome = true → isAutomatic outcome = true → ∃ m,
        maxIterations outcome = some m ∧ m.le (.ofNat 0) = false) := by
  obtain ⟨block, outcome, hb, hm, hte, ht⟩ := hf
  obtain ⟨hman, hc⟩ := stage_stagesOf.mp hb
  have hs := h.stage _ _ hb
  obtain ⟨oun, hn, he⟩ := (hs.sound outcome hm).named
  refine ⟨block, outcome, oun, hman, (and_eq_true_iff.mp hc).1, he,
    findOutcome_of_mem hs hm hn, hte, ht, fun hba ha => ?_⟩
  have hcnt := (hs.sound outcome hm).bounded hte hba ha
  unfold isLiteralCount at hcnt
  split at hcnt
  · next m hx =>
    obtain ⟨hw, hp⟩ := and_eq_true_iff.mp hcnt
    obtain ⟨b, ho, rfl⟩ := Number.exists_ofNat hw hp
    refine ⟨.ofNat b, by rw [maxIterations, hx]; rfl, ?_⟩
    rw [Number.ofNat_le]
    exact decide_eq_false (by omega)
  · cases hcnt

theorem Accepted.leads_of_follows (h : Accepted (stagesOf workflow manifest) entry)
    (hf : Follows (stagesOf workflow manifest) name next) : Leads manifest name next := by
  obtain ⟨block, outcome, oun, hb, ha, he, ho, hte, ht, hr⟩ := h.exists_outcome hf
  exact ⟨oun, (taken_of_idle (idle_start manifest name fullLedger) rfl hb ha he
    ho hte ht rfl hr).stage⟩

/-- A run stands idle at a stage, and what was counted belongs to nearer ones. -/
structure Arrived (manifest : Manifest) (distance : String → Nat) (name : String)
    (run : Running) : Prop where
  idle : Idle run
  stage : run.executor.currentStage = some (.str name)
  document : run.executor.manifest = manifest
  ledger : run.executor.ledger.consume = true
  counts : ∀ key, run.executor.iterations key ≠ 0 → ∃ stage outcomeName outcome,
    BackEdgeAt manifest stage outcomeName outcome ∧ key = edgeKey stage outcomeName ∧
      distance stage < distance name

theorem Arrived.follow {d : String → Nat} {run : Running} (h : Arrived manifest d name run)
    (hacc : Accepted (stagesOf workflow manifest) entry) (hk : DistinctKeys manifest)
    (hfo : Follows (stagesOf workflow manifest) name next) (hn : d name < d next) :
    ∃ es : List Event, Arrived manifest d next (es.foldl step run) := by
  obtain ⟨block, outcome, oun, hbl, htb, hem, hf, hte, hta, hr⟩ := hacc.exists_outcome hfo
  have he : isBackEdge outcome = true → isAutomatic outcome = true →
      BackEdgeAt manifest name oun outcome :=
    fun hb ha => ⟨block, hbl, hf, hb, ha⟩
  have ht := taken_of_idle h.idle h.stage (h.document ▸ hbl) htb hem hf hte
    hta h.ledger fun hb ha => by
      obtain ⟨m, hm, hle⟩ := hr hb ha
      -- a count under this key would be one of a stage nearer than this one
      have hz : run.executor.iterations (edgeKey name oun) = 0 := by
        by_contra hc
        obtain ⟨s, o, v, ho, hy, hl⟩ := h.counts _ hc
        obtain ⟨rfl, -⟩ := hk _ _ _ _ _ _ (he hb ha) ho hy
        exact Nat.lt_irrefl _ hl
      exact ⟨m, hm, by rw [hz]; exact hle⟩
  refine ⟨taking oun, ht.idle, ht.stage, ht.document.trans h.document,
    ht.ledger ▸ h.ledger, fun key hc => ?_⟩
  by_cases hs : ((taking oun).foldl step run).executor.iterations key = run.executor.iterations key
  · rw [hs] at hc
    obtain ⟨s, o, v, ho, hy, hl⟩ := h.counts key hc
    exact ⟨s, o, v, ho, hy, hl.trans hn⟩
  · have hy := ht.counts key hs
    split at hy
    · next ha =>
      obtain ⟨hb, hu⟩ := and_eq_true_iff.mp ha
      exact ⟨name, oun, outcome, he hb hu, (some.inj hy).symm, hn⟩
    · cases hy

/-- With keys of their own for the automatic back edges a run comes to each stage that followed
outcomes lead to. The induction is on the distance from the entry. -/
theorem Accepted.exists_run (h : Accepted (stagesOf workflow manifest) entry)
    (hk : DistinctKeys manifest) {ledger : Ledger} (hl : ledger.consume = true)
    (hr : Relation.ReflTransGen (Follows (stagesOf workflow manifest)) entry name) :
    ∃ es : List Event, ((es.foldl step
      (.start (.start manifest entry ledger))).executor.currentStage = some (.str name)) := by
  obtain ⟨d, hd⟩ :=
    Graph.exists_distance (Follows (stagesOf workflow manifest)) entry
  suffices hu : ∃ es : List Event, Arrived manifest d name
      (es.foldl step (.start (.start manifest entry ledger))) by
    obtain ⟨es, ha⟩ := hu
    exact ⟨es, ha.stage⟩
  induction hb : d name using Nat.strong_induction_on generalizing name with
  | _ bound ih =>
    rcases hd name hr with rfl | ⟨p, hp, hf, hn⟩
    · exact ⟨[], idle_start .., rfl, rfl, hl, fun _ he => (he rfl).elim⟩
    · obtain ⟨es, ha⟩ := ih (d p) (hb ▸ hn) hp rfl
      obtain ⟨m, hx⟩ := ha.follow h hk hf hn
      exact ⟨es ++ m, by rwa [foldl_append]⟩

variable {block : Value}

/-- Only followed outcomes lead an executor away from a stage. -/
theorem Accepted.follows_of_leads (h : Accepted (stagesOf workflow manifest) entry)
    (hb : (stagesOf workflow manifest).stage name = some block) (hle : Leads manifest name next) :
    next = name ∨ Follows (stagesOf workflow manifest) name next := by
  have hs := h.stage name block hb
  have hl : LeadTo (fun next => next = name ∨ Follows (stagesOf workflow manifest) name next)
      (· ∈ outcomesOf block) := by
    intro outcome hm he
    obtain ⟨t, ht, -⟩ := (hs.sound outcome hm).target he
    exact ⟨t, ht, .inr ⟨block, outcome, hb, hm, he, ht⟩⟩
  have hst : Placed manifest (fun next => next = name ∨
      Follows (stagesOf workflow manifest) name next) (· ∈ outcomesOf block)
      (.start (.start manifest name fullLedger)) := by
    refine ⟨rfl, fun v hv => ⟨name, (some.inj hv).symm, .inl rfl⟩, ?_⟩
    exact fun _ _ _ _ _ hm => by cases hm
  obtain ⟨oun, ha⟩ := hle
  have haft := placed_deliver (placed_answer (placed_advance hst hl
    (stagesOf workflow manifest) (fun o ob ho hf => by
      obtain rfl : name = o := str.inj (some.inj ho)
      obtain rfl := some.inj ((stage_stagesOf.mp hb).1.symm.trans hf)
      exact ⟨hs, fun _ hm => hm⟩) oun (some "mutation") true) hl 0
    ⟨some "consumed", true, none⟩) 0
  obtain ⟨r, heq, hr⟩ := haft.stage _ ha
  obtain rfl := str.inj heq
  exact hr

/-- What an executor is led to from a stage is reached by followed outcomes. -/
theorem Accepted.reached_of_leads (h : Accepted (stagesOf workflow manifest) entry) {s : String}
    (hb : (stagesOf workflow manifest).stage s = some block)
    (hr : Relation.ReflTransGen (Leads manifest) s name) :
    Relation.ReflTransGen (Follows (stagesOf workflow manifest)) s name := by
  suffices hbo : Relation.ReflTransGen (Follows (stagesOf workflow manifest)) s name ∧
      ((stagesOf workflow manifest).stage name).isSome = true from hbo.1
  induction hr with
  | refl => exact ⟨.refl, by rw [hb]; rfl⟩
  | tail _ hl ih =>
    obtain ⟨hf, hs⟩ := ih
    obtain ⟨p, hp⟩ := isSome_iff_exists.mp hs
    rcases h.follows_of_leads hp hl with rfl | ho
    · exact ⟨hf, hs⟩
    · refine ⟨hf.tail ho, ?_⟩
      obtain ⟨stage, outcome, hst, hm, he, ht⟩ := ho
      obtain ⟨t, ha, hts⟩ :=
        ((h.stage _ _ hst).sound outcome hm).target he
      obtain rfl := some.inj (ht.symm.trans ha)
      exact hts

/-- An executor that starts at a stage of its workflow stays in its stages. -/
theorem Accepted.inStages_run (h : Accepted (stagesOf workflow manifest) entry) {s : String}
    (hb : (stagesOf workflow manifest).stage s = some block) (ledger : Ledger)
    (es : List Event) : InStages workflow manifest
      (es.foldl step (.start (.start manifest s ledger))) := by
  have hs : InStages workflow manifest (.start (.start manifest s ledger)) := by
    refine ⟨rfl, fun v hv => ⟨s, (some.inj hv).symm, ?_⟩, ?_⟩
    · rw [hb]
      rfl
    · exact fun _ _ _ _ _ hm => by cases hm
  generalize start (.start manifest s ledger) = run at hs
  induction es generalizing run with
  | nil => exact hs
  | cons e es ih => exact ih (run.step e) (placed_step h hs e)

end

/-! ### What is accepted can be run -/

/-- The executor starts at the only entry of its workflow; from there every stage is reached by
outcomes that lead an executor from stage to stage, and, with counters of their own, in a run; and
no outcome that is taken in a run raises an error or keeps its callback. -/
structure Runnable (workflow : String) (executor : Executor) : Prop where
  entry : ∃ entry, entriesOf (stagesOf workflow executor.manifest) = [entry] ∧
    executor.currentStage = some (.str entry)
  reached : ∀ entry ∈ entriesOf (stagesOf workflow executor.manifest),
    ∀ name ∈ names (stagesOf workflow executor.manifest),
      Relation.ReflTransGen (Leads executor.manifest) entry name
  visited : DistinctKeys executor.manifest → executor.ledger.consume = true →
    ∀ name ∈ names (stagesOf workflow executor.manifest), ∃ events : List Event,
      (events.foldl step (.start executor)).executor.currentStage = some (.str name)
  safe : ∀ events : List Event, Safe (events.foldl step (.start executor))

/-- Of all blocks that declare to be an entry, the first belongs to the workflow; and its
outcomes reach every stage, without the targets of terminal ones. -/
structure Connected (workflow : String) (manifest : Manifest) : Prop where
  entry : ∃ name block, findEntry manifest = some name ∧ manifest.stage name = some block ∧
    claims workflow block = true
  reached : ∀ entry ∈ entriesOf (stagesOf workflow manifest),
    ∀ name ∈ names (stagesOf workflow manifest),
      Relation.ReflTransGen (Follows (stagesOf workflow manifest)) entry name

section

variable {text : Key → String} {workflow : String} {manifest : Manifest} {ledger : Ledger}
  {executor : Executor}

/-- What is known of an executor that was created. -/
theorem new_eq_ok (h : new text workflow manifest ledger = .ok executor) :
    ∃ entry s, Accepted (stagesOf workflow (escape workflow manifest)) entry ∧
      findEntry (escape workflow manifest) = some s ∧
      executor = .start (escape workflow manifest) s ledger := by
  unfold new at h
  split at h
  · cases h
  · dsimp only at h
    split at h
    · cases h
    · next ho =>
      split at h
      · cases h
      · next s hs =>
        have he : rejectionsOf text workflow (stagesOf workflow (escape workflow manifest)) =
            [] := by
          have hv : (validate text workflow (escape workflow manifest)).ok = true := by
            simpa using ho
          exact isEmpty_iff.mp hv
        obtain ⟨entry, ha⟩ := accepted_of_rejectionsOf he
        exact ⟨entry, s, ha, hs, (Except.ok.inj h).symm⟩

theorem mem_entriesOf {stages : Manifest} {name : String} : name ∈ entriesOf stages ↔
    ∃ block, stages.stage name = some block ∧ isTrue (block.field "entry") = true := by
  rw [entriesOf, mem_filter, mem_stageNames]
  constructor
  · rintro ⟨hs, he⟩
    obtain ⟨block, hb⟩ := isSome_iff_exists.mp hs
    rw [hb] at he
    exact ⟨block, hb, he⟩
  · rintro ⟨block, hb, he⟩
    rw [hb]
    exact ⟨rfl, he⟩

/-- The block under the name that was found declares to be an entry. -/
theorem findEntry_spec {name : String} (h : findEntry manifest = some name) :
    ∃ block, manifest.stage name = some block ∧ isTable (some block) = true ∧
      isTrue (block.field "entry") = true := by
  unfold findEntry at h
  obtain ⟨⟨k, block⟩, hf, rfl⟩ := Option.map_eq_some_iff.mp h
  have hb := List.find?_some hf
  obtain ⟨ht, he⟩ := and_eq_true_iff.mp hb
  exact ⟨block, Manifest.stage_eq_some.mpr (mem_of_find?_eq_some hf), ht, he⟩

/-- An executor of an accepted workflow can be run exactly where the first block that declares to
be an entry belongs to the workflow, the stages hang together without the targets of terminal
outcomes, and no stage at which it stands ready has a terminal automatic back edge without its
number of iterations. -/
theorem runnable_iff (h : new text workflow manifest ledger = .ok executor) :
    Runnable workflow executor ↔ Connected workflow (escape workflow manifest) ∧
      ∀ events : List Event, Counted (events.foldl step (.start executor)) := by
  obtain ⟨entry, start, ha, hst, rfl⟩ := new_eq_ok h
  obtain ⟨block, hb, ht, he⟩ := findEntry_spec hst
  constructor
  · intro hr
    obtain ⟨x, hf, hs⟩ := hr.entry
    obtain rfl : start = x := str.inj (some.inj hs)
    have hm : start ∈ entriesOf (stagesOf workflow (escape workflow manifest)) := by
      have hes : entriesOf (stagesOf workflow (escape workflow manifest)) = [start] := hf
      rw [hes]
      exact mem_singleton_self start
    obtain ⟨c, hc, -⟩ := mem_entriesOf.mp hm
    obtain ⟨hsa, hcl⟩ := stage_stagesOf.mp hc
    have hp := ha.inStages_run hc ledger
    refine ⟨⟨⟨start, c, hst, hsa, hcl⟩, ?_⟩, fun events =>
      (safe_iff ha (hp events)).mp (hr.safe events)⟩
    intro x hf name hn
    obtain ⟨block, hb, -⟩ := mem_entriesOf.mp hf
    exact ha.reached_of_leads hb (hr.reached x hf name hn)
  · rintro ⟨ho, hcnt⟩
    obtain ⟨name, c, hn, hs, hcl⟩ := ho.entry
    obtain rfl := some.inj (hst.symm.trans hn)
    obtain rfl := some.inj (hb.symm.trans hs)
    have hc := stage_stagesOf.mpr ⟨hs, hcl⟩
    have hm := mem_entriesOf.mpr ⟨block, hc, he⟩
    obtain rfl : start = entry := by
      rw [ha.entries] at hm
      exact mem_singleton.mp hm
    have hp := ha.inStages_run hc ledger
    refine ⟨⟨start, ha.entries, rfl⟩, ?_, ?_, fun events =>
      (safe_iff ha (hp events)).mpr (hcnt events)⟩
    · intro x hf name hn
      exact Relation.ReflTransGen.mono (fun _ _ hfo => ha.leads_of_follows hfo) _ _
        (ho.reached x hf name hn)
    · exact fun hk hl name hn =>
        ha.exists_run hk hl (ho.reached start hm name hn)

theorem runnable_iff_sample : Runnable "w" sampleExecutor ↔
    Connected "w" (escape "w" sampleManifest) ∧
      ∀ events : List Event, Counted (events.foldl step (.start sampleExecutor)) :=
  runnable_iff new_sample

end

/-- One stage with an outcome that is terminal and an automatic back edge, without a bound. -/
def endlessManifest : Manifest where
  blocks := [("plan", .table [(.str "workflow", .str "w"), (.str "entry", .bool true),
    (.str "park-expiry", .str "1h"),
    (.str "generated-work", .table [(.str "max", .num (.ofNat 9))]),
    (.str "outcomes", .array [.table [(.str "name", .str "done"), (.str "terminal", .bool true),
      (.str "back-edge", .bool true)]])])]
  nodup := nodup_singleton _

/-- Its executor. -/
def endlessExecutor : Executor := .start (escape "w" endlessManifest) "plan" sampleLedger

/-- A declared outcome of an accepted workflow raises an error as soon as it is taken. -/
theorem accepted_raises : new (fun _ => "") "w" endlessManifest sampleLedger = .ok endlessExecutor ∧
      ¬ Runnable "w" endlessExecutor := by
  constructor
  · have ho : (validate (fun _ => "") "w" (escape "w" endlessManifest)).ok = true := by
      decide +kernel
    have he : findEntry (escape "w" endlessManifest) = some "plan" := by decide +kernel
    unfold new
    simp [ho, he, endlessExecutor]
  · intro hu
    have hr : ((start endlessExecutor).advance "done" (some "m") true).1 = .raised := by
      decide +kernel
    rcases hu.safe [] rfl "done" (some "m") true with ⟨m, hre⟩ | ⟨ha, -⟩
    · have hf := congrArg Prod.fst hre
      rw [foldl_nil, hr] at hf
      cases hf
    · rw [foldl_nil, hr] at ha
      cases ha

end Louiselm.Workflow
