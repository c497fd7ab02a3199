import Louiselm.Base.Runs
import Louiselm.Permission.Store

/-!
# Remembered permissions along every history

The store of `Permission/Store` under calls in any order: which human choice stands behind an
answer, and when the answer depends on nothing but the set of the rules.
-/

namespace Louiselm.Permission
open Base Base.Lua List Option Store Value Except

variable (sha256 : String → String)

/-! ### Choices -/

/-- A human choice that was remembered, with what it was about and the rule made of it. -/
structure Choice where
  paths : Paths
  context : Context
  request : Value
  verdict : Verdict
  lifetime : Lifetime
  rule : Rule
  made : makeRule sha256 paths context request verdict lifetime = .ok rule

/-- A call on a store, or a new store on the file of the last one. -/
inductive Call where
  | remember (paths : Paths) (access : Access) (context request : Value)
      (decision lifetime : Option Value)
  | revoke (access : Access) (id : Option Value)
  | clearSession (sessionId : Option Value)
  | reopen

/-- A store and the choices in force. -/
structure Remembered where
  store : Store
  choices : List (Choice sha256)

variable {sha256}

/-- The choice that a call makes, where it is one that can be remembered. -/
def chosen (sha256 : String → String) (paths : Paths) (context request : Value)
    (decision lifetime : Option Value) : Option (Choice sha256) :=
  (verdictOf decision).bind fun verdict =>
    (lifetimeOf lifetime).bind fun lifetime =>
      match normalizeContext paths context with
      | .error _ => none
      | .ok normalized =>
        match made : makeRule sha256 paths normalized request verdict lifetime with
        | .error _ => none
        | .ok rule => some ⟨paths, normalized, request, verdict, lifetime, rule, made⟩

/-- A choice is the one of a lifetime under an identifier. -/
def Choice.isAt (lifetime : Lifetime) (id : String) (choice : Choice sha256) : Bool :=
  choice.lifetime == lifetime && choice.rule.id == id

/-- A choice for the life of a Session. -/
def Choice.isFor (sessionId : String) (choice : Choice sha256) : Bool :=
  choice.lifetime == .session && choice.context.sessionId == sessionId

/-- The choices in force after a call: a choice takes the place of the one under its identifier;
what is revoked is the choice of a Session before that of all of them. -/
def choicesAfter (state : Remembered sha256) : Call → List (Choice sha256)
  | .remember paths access context request decision lifetime =>
    match (state.store.remember sha256 paths access context request decision lifetime).1 with
    | .error _ => state.choices
    | .ok rule =>
      match chosen sha256 paths context request decision lifetime with
      | none => state.choices
      | some choice =>
        (state.choices.filter fun other => !other.isAt choice.lifetime rule.id) ++ [choice]
  | .revoke access id =>
    match (state.store.revoke sha256 access id).1, filled id with
    | .ok true, some id =>
      if state.choices.any (Choice.isAt .session id) then
        state.choices.filter fun other => !other.isAt .session id
      else state.choices.filter fun other => !other.isAt .always id
    | _, _ => state.choices
  | .clearSession sessionId =>
    match filled sessionId with
    | none => state.choices
    | some sessionId => state.choices.filter fun other => !other.isFor sessionId
  | .reopen => state.choices.filter fun other => other.lifetime == .always

def storeAfter (sha256 : String → String) (store : Store) : Call → Store
  | .remember paths access context request decision lifetime =>
    (store.remember sha256 paths access context request decision lifetime).2
  | .revoke access id => (store.revoke sha256 access id).2
  | .clearSession sessionId => (store.clearSession sessionId).2
  | .reopen => { store with sessionRules := [] }

def Remembered.step (state : Remembered sha256) (call : Call) : Remembered sha256 :=
  ⟨storeAfter sha256 state.store call, choicesAfter state call⟩

/-- Nothing was chosen yet. -/
def Remembered.new : Remembered sha256 := ⟨.new, []⟩

/-! ### Rules of choices -/

section

variable {p : Paths} {co : Context} {req : Value} {rule : Rule}

/-- What a rule is made of. -/
theorem makeRule_ok {v : Verdict} {l : Lifetime} (h : makeRule sha256 p co req v l = .ok rule) :
    rule.verdict = v ∧ rule.lifetime = l ∧
      rule.sessionId = (if l = .session then some co.sessionId else none) ∧
      rule.agent = co.agent ∧ rule.adapter = co.adapter ∧ rule.workspace = co.workspace ∧
      text? (req.field "kind") = some rule.kind.name ∧
      (rule.kind = .fileEdit ∧ (∃ pa, text? (req.field "path") = some pa ∧
          rule.path = some (p.operationPath pa co.workspace)) ∨
        rule.kind = .command ∧ ∃ c, denseStrings false (req.field "command") = some c ∧
          rule.command = some c) := by
  unfold makeRule at h
  dsimp only at h
  split at h
  · cases h
  · next m hm =>
    obtain rfl := ok.inj h
    split at hm
    · next hk =>
      obtain ⟨pa, hp, rfl⟩ := map_eq_some_iff.mp hm
      have ht : text? (req.field "path") = some pa :=
        (filter_eq_some_iff.mp hp).1
      exact ⟨rfl, rfl, rfl, rfl, rfl, rfl, hk, .inl ⟨rfl, pa, ht, rfl⟩⟩
    · split at hm
      · next hk =>
        obtain ⟨c, hc, rfl⟩ := map_eq_some_iff.mp hm
        exact ⟨rfl, rfl, rfl, rfl, rfl, rfl, hk, .inr ⟨rfl, c, hc, rfl⟩⟩
      · cases hm

variable {li d : Option Value} {s : Store} {ac : Access}

/-- A remembered rule is the rule of the choice. -/
theorem remember_ok {co : Value} (h : (s.remember sha256 p ac co req d li).1 = .ok rule) :
    ∃ choice : Choice sha256, chosen sha256 p co req d li = some choice ∧
      choice.rule = rule ∧ choice.request = req ∧
      verdictOf d = some choice.verdict ∧ (choice.lifetime = .session ∧
          (s.remember sha256 p ac co req d li).2 = { s with
            sessionRules := s.sessionRules.filter (·.1 != rule.id) ++ [(rule.id, rule)] } ∨
        choice.lifetime = .always ∧ (s.remember sha256 p ac co req d li).2 = { s with
            file := (Store.replace rule s.file).insertionSort fun a b => a.id ≤ b.id }) := by
  unfold remember at h ⊢
  unfold chosen
  cases hv : verdictOf d with
  | none => simp [hv] at h
  | some verdict =>
    cases hl : lifetimeOf li with
    | none => simp [hv, hl] at h
    | some li =>
      cases hc : normalizeContext p co with
      | error m => simp [hv, hl, hc] at h
      | ok n =>
        simp only [hv, hl, hc, bind_some] at h ⊢
        split at h
        · cases h
        · next ma hm =>
          split
          · next m hn =>
            rw [hm] at hn
            cases hn
          · next o ho =>
            obtain rfl := ok.inj (hm.symm.trans ho)
            cases li with
            | session =>
              obtain rfl := ok.inj h
              exact ⟨_, rfl, rfl, rfl, rfl, .inl ⟨rfl, rfl⟩⟩
            | always =>
              dsimp only at h ⊢
              unfold readRules writeRules at h ⊢
              cases he : ac.readError with
              | some m => simp [he] at h
              | none =>
                rw [he] at h
                dsimp only at h ⊢
                split at h
                · cases h
                · next rules hr =>
                  split at hr
                  · next ha =>
                    obtain rfl := ok.inj hr
                    cases hw : ac.writeError with
                    | some m => simp [hw] at h
                    | none =>
                      simp only [hw] at h
                      obtain rfl := ok.inj h
                      exact ⟨_, rfl, rfl, rfl, rfl, .inr ⟨rfl, rfl⟩⟩
                  · cases hr

variable {ru : List Rule}

/-- The file is read as it is, or not at all. -/
theorem readRules_ok (h : readRules sha256 ac s = .ok ru) : ru = s.file := by
  unfold readRules at h
  split at h
  · cases h
  · split at h
    · exact (ok.inj h).symm
    · cases h

theorem writeRules_ok {w : Store} (h : writeRules ac s ru = .ok w) :
    w = { s with file := ru.insertionSort fun l r => l.id ≤ r.id } := by
  unfold writeRules at h
  split at h
  · cases h
  · exact (ok.inj h).symm

/-- What was revoked is the rule of a Session, or, where there is none, one of the file. -/
theorem revoke_ok {id : Option Value} {r : Bool}
    (h : (s.revoke sha256 ac id).1 = .ok r) : ∃ n, filled id = some n ∧
      (r = true ∧ (s.sessionRules.lookup n).isSome = true ∧ (s.revoke sha256 ac id).2 =
            { s with sessionRules := s.sessionRules.filter (·.1 != n) } ∨
        r = true ∧ (s.sessionRules.lookup n).isSome = false ∧ (s.revoke sha256 ac id).2 = { s with
            file := (s.file.filter (·.id != n)).insertionSort fun a b => a.id ≤ b.id } ∨
        r = false ∧ (s.revoke sha256 ac id).2 = s) := by
  unfold revoke at h ⊢
  cases hi : filled id with
  | none => simp [hi] at h
  | some n =>
    refine ⟨n, rfl, ?_⟩
    simp only [hi] at h ⊢
    by_cases hs : (s.sessionRules.lookup n).isSome = true
    · rw [if_pos hs] at h ⊢
      exact .inl ⟨(ok.inj h).symm, hs, rfl⟩
    · rw [if_neg hs] at h ⊢
      cases hr : readRules sha256 ac s with
      | error m => simp [hr] at h
      | ok ru =>
        obtain rfl := readRules_ok hr
        simp only [hr] at h ⊢
        split at h
        · exact .inr (.inr ⟨(ok.inj h).symm, by rw [if_pos ‹_›]⟩)
        · next ho =>
          rw [if_neg ho]
          cases hw : writeRules ac s (s.file.filter (·.id != n)) with
          | error m => simp [hw] at h
          | ok w =>
            simp only [hw] at h
            refine .inr (.inl ⟨(ok.inj h).symm, Bool.eq_false_of_not_eq_true hs, ?_⟩)
            exact writeRules_ok hw

theorem revoke_eq_error {id : Option Value} {m : String}
    (h : (s.revoke sha256 ac id).1 = .error m) : (s.revoke sha256 ac id).2 = s := by
  unfold revoke at h ⊢
  cases hi : filled id with
  | none => rfl
  | some n =>
    simp only [hi] at h ⊢
    by_cases hs : (s.sessionRules.lookup n).isSome = true
    · simp [hs] at h
    · rw [if_neg hs] at h ⊢
      cases hr : readRules sha256 ac s with
      | error m => rfl
      | ok ru =>
        simp only [hr] at h ⊢
        split at h
        · cases h
        · next ho =>
          rw [if_neg ho]
          cases hw : writeRules ac s (ru.filter (·.id != n)) with
          | error m => rfl
          | ok w => simp [hw] at h

theorem remember_eq_error {co : Value} {m : String}
    (h : (s.remember sha256 p ac co req d li).1 = .error m) :
    (s.remember sha256 p ac co req d li).2 = s := by
  unfold remember at h ⊢
  split at h
  · rfl
  · split at h
    · rfl
    · split at h
      · rfl
      · split at h
        · rfl
        · split at h
          · cases h
          · split at h
            · rfl
            · split at h
              · rfl
              · cases h

/-- With identifiers of their own, the rules of the file but the replaced one stay. -/
theorem mem_replace (hn : (ru.map Rule.id).Nodup) {o : Rule}
    (h : o ∈ Store.replace rule ru) : o = rule ∨ o ∈ ru ∧ o.id ≠ rule.id := by
  induction ru with
  | nil => exact .inl (mem_singleton.mp h)
  | cons e ru ih =>
    obtain ⟨he, hr⟩ := nodup_cons.mp hn
    unfold Store.replace at h
    split at h
    · next hi =>
      rcases mem_cons.mp h with rfl | hm
      · exact .inl rfl
      · refine .inr ⟨mem_cons_of_mem _ hm, fun heq => he ?_⟩
        rw [hi, ← heq]
        exact mem_map_of_mem hm
    · next hi =>
      rcases mem_cons.mp h with rfl | hm
      · exact .inr ⟨mem_cons_self, hi⟩
      · exact (ih hr hm).imp_right fun hb => ⟨mem_cons_of_mem _ hb.1, hb.2⟩

theorem ids_replace (ru : List Rule) : (Store.replace rule ru).map Rule.id =
    if rule.id ∈ ru.map Rule.id then ru.map Rule.id else ru.map Rule.id ++ [rule.id] := by
  induction ru with
  | nil => rfl
  | cons e ru ih =>
    unfold Store.replace
    by_cases hi : e.id = rule.id
    · simp [hi]
    · rw [if_neg hi, map_cons, ih, map_cons]
      by_cases hm : rule.id ∈ ru.map Rule.id
      · rw [if_pos hm, if_pos (mem_cons_of_mem _ hm)]
      · have hb : rule.id ∉ e.id :: ru.map Rule.id :=
          not_mem_cons_of_ne_of_not_mem (Ne.symm hi) hm
        rw [if_neg hm, if_neg hb, cons_append]

theorem nodup_replace (h : (ru.map Rule.id).Nodup) :
    ((Store.replace rule ru).map Rule.id).Nodup := by
  rw [ids_replace]
  split
  · exact h
  · next hn =>
    refine nodup_append.mpr ⟨h, nodup_singleton _, ?_⟩
    rintro id hi o ho rfl
    exact hn (mem_singleton.mp ho ▸ hi)

end

/-! ### What stands behind an answer -/

/-- A choice is for what a request asks for: the same kind, Agent, adapter and workspace, the
same Session where it is for one, and the same path or a command that begins with the chosen
one, which names a program. -/
structure Choice.Covers (choice : Choice sha256) (paths : Paths) (context : Context)
    (request : Value) : Prop where
  kind : ∃ kind : Kind, text? (request.field "kind") = some kind.name ∧
    text? (choice.request.field "kind") = some kind.name
  agent : choice.context.agent = context.agent
  adapter : choice.context.adapter = context.adapter
  workspace : choice.context.workspace = context.workspace
  session : choice.lifetime = .session → choice.context.sessionId = context.sessionId
  path : text? (request.field "kind") = some "file_edit" → ∃ path chosen,
    text? (request.field "path") = some path ∧ text? (choice.request.field "path") = some chosen ∧
    paths.operationPath path context.workspace =
      choice.paths.operationPath chosen choice.context.workspace
  command : text? (request.field "kind") = some "command" → ∃ command chosen,
    denseStrings false (request.field "command") = some command ∧
    denseStrings false (choice.request.field "command") = some chosen ∧
    chosen <+: command ∧ chosen ≠ []

/-- An answer that allows a request has a choice in force behind it that allowed as much. -/
def Sound (state : Remembered sha256) : Prop :=
  ∀ paths access visited context request, visited.Perm (state.store.sessionRules.map Prod.snd) →
    state.store.evaluate sha256 paths access visited context request = .ok .allow →
    ∃ normalized choice, normalizeContext paths context = .ok normalized ∧
      choice ∈ state.choices ∧ choice.verdict = .allow ∧ choice.Covers paths normalized request

/-- No command without a program is allowed for more than once. -/
def Named (_ : Remembered sha256) : Call → Prop
  | .remember _ _ _ request decision _ => verdictOf decision = some .allow →
      text? (request.field "kind") = some "command" →
      denseStrings false (request.field "command") ≠ some []
  | _ => True

/-- A choice names a program where it allows commands. -/
def Choice.Names (choice : Choice sha256) : Prop :=
  choice.verdict = .allow → text? (choice.request.field "kind") = some "command" →
    denseStrings false (choice.request.field "command") ≠ some []

/-- Each rule is the rule of a choice in force, which names a program. -/
structure Backed (state : Remembered sha256) : Prop where
  keys : ∀ item ∈ state.store.sessionRules, item.1 = item.2.id
  session : ∀ item ∈ state.store.sessionRules, ∃ choice ∈ state.choices, choice.rule = item.2 ∧
    choice.lifetime = .session
  ids : (state.store.file.map Rule.id).Nodup
  file : ∀ rule ∈ state.store.file, ∃ choice ∈ state.choices, choice.rule = rule ∧
    choice.lifetime = .always
  names : ∀ choice ∈ state.choices, choice.Names

section

variable {st : Remembered sha256}

/-- Rules can go, and with them choices that stand behind none that is left. -/
theorem Backed.keep (h : Backed st) {sto : Store} {k : Choice sha256 → Bool}
    (hs : ∀ x ∈ sto.sessionRules, x ∈ st.store.sessionRules ∧
      ∀ choice : Choice sha256, choice.rule = x.2 → choice.lifetime = .session → k choice = true)
        (hd : (sto.file.map Rule.id).Nodup) (hf : ∀ rule ∈ sto.file, rule ∈ st.store.file ∧
      ∀ choice : Choice sha256, choice.rule = rule → choice.lifetime = .always →
        k choice = true) : Backed ⟨sto, st.choices.filter k⟩ := by
  refine ⟨fun x hi => h.keys x (hs x hi).1, ?_, hd, ?_, ?_⟩
  · intro x hi
    obtain ⟨hold, hk⟩ := hs x hi
    obtain ⟨choice, hc, hr, hl⟩ := h.session x hold
    exact ⟨choice, mem_filter.mpr ⟨hc, hk choice hr hl⟩, hr, hl⟩
  · intro rule hr
    obtain ⟨hold, hk⟩ := hf rule hr
    obtain ⟨choice, hc, ha, hl⟩ := h.file rule hold
    exact ⟨choice, mem_filter.mpr ⟨hc, hk choice ha hl⟩, ha, hl⟩
  · exact fun choice hc => h.names choice (mem_of_mem_filter hc)

variable {choice : Choice sha256}

/-- A choice and its rule come in. -/
theorem Backed.add (h : Backed st) (hn : choice.Names) {sto : Store}
    (hs : ∀ x ∈ sto.sessionRules, x = (choice.rule.id, choice.rule) ∧
        choice.lifetime = .session ∨ x ∈ st.store.sessionRules) (hd : (sto.file.map Rule.id).Nodup)
    (hf : ∀ rule ∈ sto.file, rule = choice.rule ∧ choice.lifetime = .always ∨
      rule ∈ st.store.file) : Backed ⟨sto, st.choices ++ [choice]⟩ := by
  refine ⟨fun x hi => ?_, fun x hi => ?_, hd, fun rule hr => ?_, ?_⟩
  · rcases hs x hi with ⟨rfl, -⟩ | hold
    · rfl
    · exact h.keys x hold
  · rcases hs x hi with ⟨rfl, hl⟩ | hold
    · exact ⟨choice, mem_append_right _ (mem_singleton_self _), rfl, hl⟩
    · obtain ⟨o, ho, hb⟩ := h.session x hold
      exact ⟨o, mem_append_left _ ho, hb⟩
  · rcases hf rule hr with ⟨rfl, hl⟩ | hold
    · exact ⟨choice, mem_append_right _ (mem_singleton_self _), rfl, hl⟩
    · obtain ⟨o, ho, hb⟩ := h.file rule hold
      exact ⟨o, mem_append_left _ ho, hb⟩
  · intro o ho
    rcases mem_append.mp ho with hold | he
    · exact h.names o hold
    · exact mem_singleton.mp he ▸ hn

variable {rules : List Rule}

theorem nodup_ids_sorted (h : (rules.map Rule.id).Nodup) :
    ((rules.insertionSort fun a b => a.id ≤ b.id).map Rule.id).Nodup :=
  ((perm_insertionSort _ rules).map Rule.id).nodup_iff.mpr h

theorem mem_sorted_rules {rule : Rule} :
    rule ∈ (rules.insertionSort fun a b => a.id ≤ b.id) ↔ rule ∈ rules :=
  mem_insertionSort _

theorem backed_remember (h : Backed st) (paths : Paths) (a : Access) (context request : Value)
    (dec l : Option Value) (hna : Named st (.remember paths a context request dec l)) :
    Backed (st.step (.remember paths a context request dec l)) := by
  unfold Remembered.step
  cases he : (st.store.remember sha256 paths a context request dec l).1 with
  | error m =>
    have hs := remember_eq_error he
    simpa only [storeAfter, choicesAfter, he, hs] using h
  | ok rule =>
    obtain ⟨choice, hc, rfl, hq, hv, hs⟩ := remember_ok he
    have hn : choice.Names := by
      intro ha
      rw [hq]
      exact hna (ha ▸ hv)
    simp only [storeAfter, choicesAfter, he, hc]
    rcases hs with ⟨hl, hs⟩ | ⟨hl, hs⟩
    · rw [hs, hl]
      have hg : Backed (⟨{ st.store with
          sessionRules := st.store.sessionRules.filter (·.1 != choice.rule.id) },
          st.choices.filter fun o => !o.isAt .session choice.rule.id⟩ :
          Remembered sha256) := by
        refine h.keep (fun x hi => ?_) h.ids fun rule hr => ⟨hr, ?_⟩
        · obtain ⟨hold, hne⟩ := mem_filter.mp hi
          refine ⟨hold, fun o ho _ => ?_⟩
          have hd : o.rule.id ≠ choice.rule.id := by
            rw [ho, ← h.keys x hold]
            exact bne_iff_ne.mp hne
          simp [Choice.isAt, hd]
        · intro o _ ho
          simp [Choice.isAt, ho]
      refine hg.add hn (fun x hi => ?_) h.ids fun rule hr => .inr hr
      rcases mem_append.mp hi with hold | hw
      · exact .inr hold
      · exact .inl ⟨mem_singleton.mp hw, hl⟩
    · rw [hs, hl]
      have hg : Backed (⟨{ st.store with
          file := st.store.file.filter (·.id != choice.rule.id) },
          st.choices.filter fun o => !o.isAt .always choice.rule.id⟩ :
          Remembered sha256) := by
        refine h.keep (fun x hi => ⟨hi, ?_⟩) ?_ fun rule hr => ?_
        · intro o _ ho
          simp [Choice.isAt, ho]
        · exact h.ids.sublist (filter_sublist.map _)
        · obtain ⟨hold, hne⟩ := mem_filter.mp hr
          refine ⟨hold, fun o ho _ => ?_⟩
          have hd : o.rule.id ≠ choice.rule.id := by
            rw [ho]
            exact bne_iff_ne.mp hne
          simp [Choice.isAt, hd]
      refine hg.add hn (fun x hi => .inr hi)
        (nodup_ids_sorted (nodup_replace h.ids)) fun rule hr => ?_
      rcases mem_replace h.ids (mem_sorted_rules.mp hr) with rfl | ⟨hold, hne⟩
      · exact .inl ⟨rfl, hl⟩
      · exact .inr (mem_filter.mpr ⟨hold, bne_iff_ne.mpr hne⟩)

theorem backed_revoke (h : Backed st) (a : Access) (id : Option Value) :
    Backed (st.step (.revoke a id)) := by
  unfold Remembered.step
  cases he : (st.store.revoke sha256 a id).1 with
  | error m =>
    have hs := revoke_eq_error he
    simpa only [storeAfter, choicesAfter, he, hs] using h
  | ok r =>
    obtain ⟨n, hn, ⟨rfl, hse, hs⟩ | ⟨rfl, hse, hs⟩ | ⟨rfl, hs⟩⟩ :=
      revoke_ok he
    · have hy : st.choices.any (Choice.isAt .session n) = true := by
        obtain ⟨rule, hr⟩ := isSome_iff_exists.mp hse
        have hi : (n, rule) ∈ st.store.sessionRules := by
          obtain ⟨pre, l, hp, -⟩ := lookup_eq_some_iff.mp hr
          exact hp ▸ mem_append_right _ mem_cons_self
        obtain ⟨choice, hc, ha, hl⟩ := h.session _ hi
        refine any_eq_true.mpr ⟨choice, hc, ?_⟩
        have hd : rule.id = n := (h.keys _ hi).symm
        simp [Choice.isAt, hl, ha, hd]
      simp only [storeAfter, choicesAfter, he, hn, hs]
      rw [if_pos hy]
      refine h.keep (fun x hi => ?_) h.ids fun rule hr => ⟨hr, ?_⟩
      · obtain ⟨hold, hne⟩ := mem_filter.mp hi
        refine ⟨hold, fun choice ha _ => ?_⟩
        have hd : choice.rule.id ≠ n := by
          rw [ha, ← h.keys x hold]
          exact bne_iff_ne.mp hne
        simp [Choice.isAt, hd]
      · intro choice _ hl
        simp [Choice.isAt, hl]
    · have ho : ∀ x ∈ st.store.sessionRules, x.2.id ≠ n := by
        intro x hi heq
        have hno := isSome_eq_false_iff.mp hse
        have hb := lookup_eq_none_iff.mp (isNone_iff_eq_none.mp hno) x hi
        exact bne_iff_ne.mp hb ((h.keys x hi).trans heq).symm
      have hids : ((st.store.file.filter (·.id != n)).map Rule.id).Nodup :=
        h.ids.sublist (filter_sublist.map _)
      simp only [storeAfter, choicesAfter, he, hn, hs]
      split
      · refine h.keep (fun x hi => ⟨hi, fun choice ha _ => ?_⟩) (nodup_ids_sorted hids)
          fun rule hr => ⟨mem_of_mem_filter (mem_sorted_rules.mp hr), ?_⟩
        · have hd : choice.rule.id ≠ n := ha ▸ ho x hi
          simp [Choice.isAt, hd]
        · intro choice _ hl
          simp [Choice.isAt, hl]
      · refine h.keep (fun x hi => ⟨hi, fun choice _ hl => ?_⟩)
          (nodup_ids_sorted hids) fun rule hr => ?_
        · simp [Choice.isAt, hl]
        · obtain ⟨hold, hne⟩ := mem_filter.mp (mem_sorted_rules.mp hr)
          refine ⟨hold, fun choice ha _ => ?_⟩
          have hd : choice.rule.id ≠ n := ha ▸ bne_iff_ne.mp hne
          simp [Choice.isAt, hd]
    · simpa only [storeAfter, choicesAfter, he, hn, hs] using h

/-- The rule of a Session has its identifier. -/
theorem Choice.sessionId_eq (choice : Choice sha256) (h : choice.lifetime = .session) :
    choice.rule.sessionId = some choice.context.sessionId := by
  rw [(makeRule_ok choice.made).2.2.1, if_pos h]

/-- What each call keeps. -/
theorem backed_step (h : Backed st) (c : Call) (ha : Named st c) : Backed (st.step c) := by
  cases c with
  | remember paths a context request dec l =>
    exact backed_remember h paths a context request dec l ha
  | revoke a id => exact backed_revoke h a id
  | clearSession si =>
    unfold Remembered.step
    cases hn : filled si with
    | none => simpa only [storeAfter, choicesAfter, clearSession, hn] using h
    | some n =>
      simp only [storeAfter, choicesAfter, clearSession, hn]
      refine h.keep (fun x hi => ?_) h.ids fun rule hr => ⟨hr, ?_⟩
      · obtain ⟨hold, he⟩ := mem_filter.mp hi
        refine ⟨hold, fun choice hs hl => ?_⟩
        rw [← hs, choice.sessionId_eq hl] at he
        have ho : choice.context.sessionId ≠ n :=
          fun heq => bne_iff_ne.mp he (congrArg some heq)
        simp [Choice.isFor, ho]
      · intro choice _ hl
        simp [Choice.isFor, hl]
  | reopen =>
    refine h.keep (fun x hi => by cases hi) h.ids fun rule hr => ⟨hr, ?_⟩
    exact fun choice _ hl => by simp [hl]

variable {paths : Paths} {context : Context} {request : Value}

theorem covers_of_find? {rule : Rule}
    (h : (rules.find? fun rule => covers paths rule context request) = some rule) :
    covers paths rule context request = true :=
  (List.find?_eq_some_iff_append.mp h).1

/-- A rule that covers a request makes its choice cover it. -/
theorem Choice.covers_of_rule (choice : Choice sha256) (hn : choice.Names)
    (hal : choice.verdict = .allow) (h : covers paths choice.rule context request = true) :
    choice.Covers paths context request := by
  obtain ⟨-, hl, hse, hg, ha, hw, hk, hs⟩ :=
    makeRule_ok choice.made
  unfold Permission.covers at h
  simp only [Bool.and_eq_true, beq_iff_eq] at h
  obtain ⟨⟨⟨⟨⟨hsaa, hsw⟩, hsa⟩, hsas⟩, hsk⟩, hss⟩ := h
  refine ⟨⟨_, hsk, hk⟩, hg.symm.trans hsaa, ha.symm.trans hsa,
    hw.symm.trans hsw, fun ho => ?_, fun hf => ?_, fun hd => ?_⟩
  · rw [choice.sessionId_eq ho] at hsas
    simpa using hsas
  · rcases hs with ⟨hr, c, hc, hpa⟩ | ⟨hr, -⟩
    · rw [hr] at hss
      obtain ⟨pa, he, hm⟩ := (any_eq_true _ _).mp hss
      refine ⟨pa, c, he, hc, ?_⟩
      rw [hpa] at hm
      exact some.inj (beq_iff_eq.mp hm)
    · rw [hr, hf] at hsk
      exact absurd (some.inj hsk) (by decide)
  · rcases hs with ⟨hr, -⟩ | ⟨hr, c, hc, har⟩
    · rw [hr, hd] at hsk
      exact absurd (some.inj hsk) (by decide)
    · rw [hr] at hss hk
      obtain ⟨cmd, he, hp⟩ := (any_eq_true _ _).mp hss
      rw [har, getD_some] at hp
      refine ⟨cmd, c, he, hc, isPrefixOf_iff_prefix.mp hp, ?_⟩
      rintro rfl
      exact hn hal hk hc

/-- Where all rules are backed, every answer that allows is sound. -/
theorem sound_of_backed (h : Backed st) : Sound st := by
  intro paths a v context request hvi ha
  have hh : ∀ rule n, normalizeContext paths context = .ok n →
      (∃ choice ∈ st.choices, choice.rule = rule) → rule.verdict = .allow →
      covers paths rule n request = true → ∃ n choice, normalizeContext paths context = .ok n ∧
        choice ∈ st.choices ∧ choice.verdict = .allow ∧
        choice.Covers paths n request := by
    rintro rule n hn ⟨choice, hc, rfl⟩ hv ho
    have hs : choice.verdict = .allow := (makeRule_ok choice.made).1.symm.trans hv
    exact ⟨n, choice, hn, hc, hs, choice.covers_of_rule (h.names choice hc) hs ho⟩
  have hv : ∀ rule : Rule, rule.verdict.decision = .allow → rule.verdict = .allow := by
    intro rule hd
    cases hr : rule.verdict with
    | allow => rfl
    | deny => rw [hr] at hd; cases hd
  unfold evaluate at ha
  split at ha
  · cases ha
  · next n hn =>
    split at ha
    · next rule hf =>
      obtain ⟨x, hi, rfl⟩ := mem_map.mp (hvi.mem_iff.mp (mem_of_find?_eq_some hf))
      obtain ⟨choice, hc, hr, -⟩ := h.session x hi
      exact hh x.2 n hn ⟨choice, hc, hr⟩ (hv _ (ok.inj ha)) (covers_of_find? hf)
    · split at ha
      · cases ha
      · next rules he =>
        obtain rfl := readRules_ok he
        split at ha
        · next rule hf =>
          obtain ⟨choice, hc, hr, -⟩ := h.file rule (mem_of_find?_eq_some hf)
          exact hh rule n hn ⟨choice, hc, hr⟩ (hv _ (ok.inj ha)) (covers_of_find? hf)
        · cases ok.inj ha

/-- Paths that are what they are. -/
def plainPaths : Paths := ⟨id, id, fun _ path => path, fun _ => none⟩

def plainContext : Context := ⟨"session", "agent", ⟨"adapter", []⟩, "/workspace"⟩

/-- The request to run a command. -/
def commandRequest (command : List String) : Value :=
  Gates.request "command" [("command", some (.array (command.map .str)))]

/-- A rule for every command. -/
def anyCommand : Rule :=
  ⟨"", .allow, .always, none, "agent", ⟨"adapter", []⟩, "/workspace", .command, none, some []⟩

/-- The rule of a request covers commands of its program only. -/
def KeepsProgram (sha256 : String → String) (request : Value) : Prop :=
  ∀ choice : Choice sha256, choice.request = request → ∀ paths context other command,
    covers paths choice.rule context other = true →
    denseStrings false (other.field "command") = some command →
    ∃ chosen, denseStrings false (request.field "command") = some chosen ∧
      chosen.head? = command.head?

theorem covers_command {o : Value} (h : covers paths choice.rule context o = true)
    (hk : text? (choice.request.field "kind") = some "command") :
    ∃ ch c, denseStrings false (choice.request.field "command") = some ch ∧
      denseStrings false (o.field "command") = some c ∧ ch <+: c := by
  obtain ⟨-, -, -, -, -, -, hr, hs⟩ := makeRule_ok choice.made
  rcases hs with ⟨hf, -⟩ | ⟨hm, ch, hc, ha⟩
  · rw [hf, hk] at hr
    exact absurd (some.inj hr) (by decide)
  · unfold Permission.covers at h
    rw [hm] at h
    obtain ⟨c, ho, hp⟩ :=
      (any_eq_true _ _).mp (Bool.and_eq_true_iff.mp h).2
    rw [ha, getD_some] at hp
    exact ⟨ch, c, hc, ho, isPrefixOf_iff_prefix.mp hp⟩

/-- A request for a command keeps to its program exactly where it names one. -/
theorem keepsProgram_iff {c : List String} (hk : text? (request.field "kind") = some "command")
    (hd : denseStrings false (request.field "command") = some c) :
    KeepsProgram sha256 request ↔ c ≠ [] := by
  constructor
  · rintro h rfl
    -- the rule of an empty command covers one with a program
    have hm : makeRule sha256 plainPaths plainContext request .allow .always =
        .ok { anyCommand with id := ruleId sha256 anyCommand } := by
      unfold makeRule
      rw [hk, hd]
      rfl
    have hc : covers plainPaths { anyCommand with id := ruleId sha256 anyCommand } plainContext
        (commandRequest ["program"]) = true := by
      change covers plainPaths anyCommand plainContext (commandRequest ["program"]) = true
      decide +kernel
    obtain ⟨ch, hch, hh⟩ := h
      ⟨plainPaths, plainContext, request, .allow, .always, _, hm⟩ rfl plainPaths plainContext
      (commandRequest ["program"]) ["program"] hc (by decide +kernel)
    obtain rfl := some.inj (hd.symm.trans hch)
    cases hh
  · rintro hn choice rfl paths context o a hc ha
    obtain ⟨ch, _, hch, ho, hp⟩ := covers_command hc hk
    obtain rfl := some.inj (ha.symm.trans ho)
    obtain rfl := some.inj (hd.symm.trans hch)
    refine ⟨c, hd, ?_⟩
    obtain ⟨xs, rfl⟩ := hp
    cases c with
    | nil => exact absurd rfl hn
    | cons x c => rfl

theorem backed_new : Backed (.new : Remembered sha256) :=
  ⟨forall_mem_nil _, forall_mem_nil _, nodup_nil, forall_mem_nil _, forall_mem_nil _⟩

end

/-- In a history in which no command without a program is allowed for more than once, every
answer that allows has a choice in force behind it that allowed as much; and a request that
passes the check makes rules for its own program exactly where it names one. -/
theorem allows_granted (sha256 : String → String) :
    (∀ calls, Throughout Remembered.step Named (.new : Remembered sha256) calls →
      Always Remembered.step Sound (.new : Remembered sha256) calls) ∧
    ∀ policy request answer, Gates.check policy request = .ok answer →
      text? (request.field "kind") = some "command" →
      (KeepsProgram sha256 request ↔ denseStrings false (request.field "command") ≠ some []) := by
  constructor
  · intro calls h
    have hb : Always Remembered.step Backed (.new : Remembered sha256) calls :=
      always_of_throughout (fun _ ca hs hn => backed_step hs ca hn) backed_new h
    exact hb.mono fun _ => sound_of_backed
  · intro policy request answer hh hk
    obtain ⟨c, hc⟩ := Gates.command_of_check hh hk
    rw [keepsProgram_iff hk hc, hc]
    simp

/-! ### Samples -/

/-- The context of the samples. -/
def sampleContext : Value :=
  .table [(.str "session_id", .str "session"), (.str "agent", .str "agent"),
    (.str "workspace", .str "/workspace"),
    (.str "adapter", .table [(.str "command", .str "adapter"), (.str "args", .array [])])]

/-- A human allows a command for the Session, or denies it. -/
def sampleCall (command : List String) (decision : String) : Call :=
  .remember plainPaths ⟨none, none⟩ sampleContext (commandRequest command) (some (.str decision))
    (some (.str "session"))

theorem allows_granted_sample :
    Always Remembered.step Sound (.new : Remembered id) [sampleCall ["git", "status"] "allow"] :=
  (allows_granted id).1 _ ⟨fun _ _ => by decide +kernel, trivial⟩

/-- A request of an Agent with no arguments at all. -/
def emptyExecution : Value :=
  .table [(.str "toolCall", .table [(.str "kind", .str "execute"),
    (.str "rawInput", .table [(.str "command", .array [])])])]

/-- An Agent asks to execute nothing, the check lets a human decide, and once that is allowed for
the Session, so is every command. -/
theorem allows_everything : Gates.fromAcp (fun _ => "") emptyExecution = commandRequest [] ∧
      Gates.check askHuman (commandRequest []) = .ok (.ask, none) ∧
      ¬ Sound ((.new : Remembered id).step (sampleCall [] "allow")) := by
  refine ⟨rfl, rfl, fun h => ?_⟩
  have ha : ((.new : Remembered id).step (sampleCall [] "allow")).store.evaluate id plainPaths
      ⟨none, none⟩
      (((.new : Remembered id).step (sampleCall [] "allow")).store.sessionRules.map Prod.snd)
      sampleContext (commandRequest ["rm", "-rf", "/"]) = .ok .allow := by decide +kernel
  obtain ⟨n, choice, -, hc, -, ho⟩ := h _ _ _ _ _ (.refl _) ha
  obtain ⟨c, ch, -, hh, -, hn⟩ := ho.command (by decide +kernel)
  have he : ∀ o ∈ ((.new : Remembered id).step (sampleCall [] "allow")).choices,
      o.rule.kind = .command ∧ o.rule.command = some [] := by decide +kernel
  obtain ⟨hk, har⟩ := he choice hc
  rcases (makeRule_ok choice.made).2.2.2.2.2.2.2 with ⟨hf, -⟩ | ⟨-, m, hm, hr⟩
  · rw [hk] at hf
    cases hf
  · obtain rfl := some.inj (hm.symm.trans hh)
    exact hn (some.inj (hr.symm.trans har))

end Louiselm.Permission
