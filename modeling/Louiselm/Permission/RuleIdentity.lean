import Louiselm.Base.LengthPrefix
import Louiselm.Permission.StoreRuns

/-!
# What the identifier of a remembered permission stands for

`lua/louiselm/permission/store.lua`: an identifier hashes the parts of a scope, each under its
length. The parts are read back one by one, but nothing says where the arguments of the adapter
end: a rule can go on, in its workspace, its kind and its operands, with words that are arguments
of the adapter for another.
-/

namespace Louiselm.Permission
open Base Base.Lua Base.LengthPrefix List Option

namespace Rule

/-- The path or the command of a rule, as its identifier reads it. -/
def operands (rule : Rule) : List String :=
  match rule.path with
  | some path => [path]
  | none => rule.command.getD []

/-- The parts that an identifier is made of. -/
def parts (rule : Rule) : List String :=
  [rule.lifetime.name] ++ rule.sessionId.toList ++ [rule.agent, rule.adapter.command] ++
    rule.adapter.args ++ [rule.workspace, rule.kind.name] ++ rule.operands

/-- The text that is hashed. -/
def identityText (rule : Rule) : String := String.intercalate "|" (rule.parts.map identityPart)

/-- Two rules are for the same operations of the same Sessions. -/
structure SameScope (left right : Rule) : Prop where
  lifetime : left.lifetime = right.lifetime
  sessionId : left.sessionId = right.sessionId
  agent : left.agent = right.agent
  command : left.adapter.command = right.adapter.command
  args : left.adapter.args = right.adapter.args
  workspace : left.workspace = right.workspace
  kind : left.kind = right.kind
  path : left.path = right.path
  argv : left.command = right.command

/-- The adapter of the right rule has further arguments, with which the left rule goes on where
its own adapter has none left. -/
structure Shifted (left right : Rule) : Prop where
  lifetime : left.lifetime = right.lifetime
  sessionId : left.sessionId = right.sessionId
  agent : left.agent = right.agent
  command : left.adapter.command = right.adapter.command
  moved : ∃ moved, moved ≠ [] ∧ right.adapter.args = left.adapter.args ++ moved ∧
    left.workspace :: left.kind.name :: left.operands =
      moved ++ right.workspace :: right.kind.name :: right.operands

/-- What every rule is that was made of a request. -/
structure WellMade (sha256 : String → String) (rule : Rule) : Prop where
  id : rule.id = ruleId sha256 rule
  sessionId : rule.sessionId.isSome = (rule.lifetime == .session)
  operands : (rule.kind = .fileEdit ∧ rule.path = some (rule.operands.headD "") ∧
      rule.command = none) ∨
    (rule.kind = .command ∧ rule.path = none ∧ rule.command = some rule.operands)

end Rule

variable {sha256 : String → String}

theorem ruleId_eq (rule : Rule) : ruleId sha256 rule = "rule-" ++ sha256 rule.identityText := rfl

theorem wellMade_of_makeRule {p : Paths} {c : Context} {req : Value} {v : Verdict} {l : Lifetime}
    {rule : Rule} (h : makeRule sha256 p c req v l = .ok rule) :
    rule.WellMade sha256 := by
  unfold makeRule at h
  dsimp only at h
  split at h
  · cases h
  · next m hm =>
    obtain rfl := Except.ok.inj h
    split at hm
    · obtain ⟨pa, -, rfl⟩ := map_eq_some_iff.mp hm
      exact ⟨rfl, by cases l <;> rfl, .inl ⟨rfl, rfl, rfl⟩⟩
    · split at hm
      · obtain ⟨cmd, -, rfl⟩ := map_eq_some_iff.mp hm
        exact ⟨rfl, by cases l <;> rfl, .inr ⟨rfl, rfl, rfl⟩⟩
      · cases hm

theorem Kind.name_inj {left r : Kind} (h : left.name = r.name) : left = r := by
  cases left <;> cases r <;> first | rfl | exact absurd h (by decide)

theorem Lifetime.name_inj {left r : Lifetime} (h : left.name = r.name) : left = r := by
  cases left <;> cases r <;> first | rfl | exact absurd h (by decide)

namespace Rule

variable {left ri : Rule}

theorem SameScope.parts_eq (h : left.SameScope ri) : left.parts = ri.parts := by
  unfold parts operands
  rw [h.lifetime, h.sessionId, h.agent, h.command, h.args, h.workspace, h.kind, h.path, h.argv]

theorem Shifted.parts_eq (h : left.Shifted ri) : left.parts = ri.parts := by
  obtain ⟨m, -, ha, hw⟩ := h.moved
  unfold parts
  rw [h.lifetime, h.sessionId, h.agent, h.command, ha]
  simp only [append_assoc, cons_append, nil_append]
  rw [← hw]

/-- Rules of one scope have adapters with equally many arguments. -/
theorem Shifted.not_sameScope (h : left.Shifted ri) : ¬left.SameScope ri := by
  intro hs
  obtain ⟨m, hm, ha, -⟩ := h.moved
  rw [hs.args] at ha
  exact hm (self_eq_append_right.mp ha)

theorem SameScope.symm (h : left.SameScope ri) : ri.SameScope left :=
  ⟨h.lifetime.symm, h.sessionId.symm, h.agent.symm, h.command.symm, h.args.symm,
    h.workspace.symm, h.kind.symm, h.path.symm, h.argv.symm⟩

/-- Up to the adapter's command the parts are read back in one way. -/
theorem head_of_parts_eq (hl : left.sessionId.isSome = (left.lifetime == .session))
    (hi : ri.sessionId.isSome = (ri.lifetime == .session))
    (h : left.parts = ri.parts) : left.lifetime = ri.lifetime ∧
      left.sessionId = ri.sessionId ∧ left.agent = ri.agent ∧
      left.adapter.command = ri.adapter.command ∧
      left.adapter.args ++ left.workspace :: left.kind.name :: left.operands =
        ri.adapter.args ++ ri.workspace :: ri.kind.name :: ri.operands := by
  unfold parts at h
  simp only [append_assoc, cons_append, nil_append, List.cons.injEq] at h
  obtain ⟨hna, hr⟩ := h
  have hli := Lifetime.name_inj hna
  rw [← hli, ← hl] at hi
  cases hs : left.sessionId with
  | none =>
    have hn : ri.sessionId = none := by simpa [hs] using hi
    rw [hs, hn] at hr
    simp only [toList_none, nil_append, List.cons.injEq] at hr
    obtain ⟨ha, hc, hr⟩ := hr
    exact ⟨hli, hn.symm, ha, hc, hr⟩
  | some session =>
    have hso : ri.sessionId.isSome = true := by simpa [hs] using hi
    obtain ⟨x, ho⟩ := isSome_iff_exists.mp hso
    rw [hs, ho] at hr
    simp only [toList_some, cons_append, nil_append, List.cons.injEq] at hr
    obtain ⟨rfl, ha, hc, hr⟩ := hr
    exact ⟨hli, ho.symm, ha, hc, hr⟩

/-- The operands of a rule of a kind say what its path and its command are. -/
theorem WellMade.operands_inj (hl : left.WellMade sha256) (hr : ri.WellMade sha256)
    (hk : left.kind = ri.kind) (h : left.operands = ri.operands) :
    left.path = ri.path ∧ left.command = ri.command := by
  rcases hl.operands with ⟨he, hp, hc⟩ | ⟨hu, hp, hc⟩
  · rcases hr.operands with ⟨-, ho, hn⟩ | ⟨hu, -, -⟩
    · rw [hp, ho, hc, hn, h]
      exact ⟨rfl, rfl⟩
    · rw [hk, hu] at he
      cases he
  · rcases hr.operands with ⟨he, -, -⟩ | ⟨-, ho, hs⟩
    · rw [hk, he] at hu
      cases hu
    · rw [hp, ho, hc, hs, h]
      exact ⟨rfl, rfl⟩

/-- The same parts are of one scope, or shifted against each other. -/
theorem parts_eq_iff (hl : left.WellMade sha256) (hr : ri.WellMade sha256) :
    left.parts = ri.parts ↔ left.SameScope ri ∨ left.Shifted ri ∨ ri.Shifted left := by
  constructor
  · intro h
    obtain ⟨hi, hs, hg, hc, he⟩ :=
      head_of_parts_eq hl.sessionId hr.sessionId h
    rcases append_eq_append_iff.mp he with ⟨m, ha, hw⟩ | ⟨m, ha, hw⟩
    · by_cases hm : m = []
      · rw [hm, append_nil] at ha
        rw [hm, nil_append, List.cons.injEq, List.cons.injEq] at hw
        obtain ⟨hwo, hn, ho⟩ := hw
        have hk := Kind.name_inj hn
        obtain ⟨hp, har⟩ := hl.operands_inj hr hk ho
        exact .inl ⟨hi, hs, hg, hc, ha.symm, hwo, hk, hp, har⟩
      · exact .inr (.inl ⟨hi, hs, hg, hc, m, hm, ha, hw⟩)
    · by_cases hm : m = []
      · rw [hm, append_nil] at ha
        rw [hm, nil_append, List.cons.injEq, List.cons.injEq] at hw
        obtain ⟨hwo, hn, ho⟩ := hw
        have hk := Kind.name_inj hn.symm
        obtain ⟨hp, har⟩ := hl.operands_inj hr hk ho.symm
        exact .inl ⟨hi, hs, hg, hc, ha, hwo.symm, hk, hp, har⟩
      · exact .inr (.inr ⟨hi.symm, hs.symm, hg.symm, hc.symm, m, hm, ha, hw⟩)
  · rintro (h | h | h)
    · exact h.parts_eq
    · exact h.parts_eq
    · exact h.parts_eq.symm

/-- The hashed text tells the parts apart. -/
theorem identityText_inj (h : left.identityText = ri.identityText) : left.parts = ri.parts :=
  intercalate_framed_inj h

end Rule

/-! ### Rules in the store -/

/-- A store has a rule, in its file or for a Session. -/
def Store.Holds (store : Store) (rule : Rule) : Prop :=
  rule ∈ store.file ∨ (rule.id, rule) ∈ store.sessionRules

/-- The identifiers of two rules are the same for one scope only, so that the left one stays when
the right one is remembered or revoked for another. -/
structure NamesScope (sha256 : String → String) (left right : Rule) : Prop where
  scope : left.id = right.id → left.SameScope right
  remembered : ∀ paths access (store : Store) context request decision lifetime,
    (store.remember sha256 paths access context request decision lifetime).1 = .ok right →
    store.Holds left → ¬left.SameScope right →
    (store.remember sha256 paths access context request decision lifetime).2.Holds left
  revoked : ∀ access (store : Store) id, filled id = some right.id → store.Holds left →
    ¬left.SameScope right → (store.revoke sha256 access id).2.Holds left

theorem mem_replace_of_ne {rule x : Rule} {r : List Rule} (h : x ∈ r)
    (hi : x.id ≠ rule.id) : x ∈ Store.replace rule r := by
  induction r with
  | nil => cases h
  | cons e r ih =>
    unfold Store.replace
    split
    · next hs =>
      rcases mem_cons.mp h with rfl | hm
      · exact absurd hs hi
      · exact mem_cons_of_mem _ hm
    · rcases mem_cons.mp h with rfl | hm
      · exact mem_cons_self
      · exact mem_cons_of_mem _ (ih hm)

section

variable {s : Store} {a : Access} {rule o : Rule}

/-- A rule of another identifier stays when one is remembered. -/
theorem holds_remember {p : Paths} {c req : Value} {d l : Option Value} (hh : s.Holds o)
    (h : (s.remember sha256 p a c req d l).1 = .ok rule) (hi : o.id ≠ rule.id) :
    (s.remember sha256 p a c req d l).2.Holds o := by
  obtain ⟨ch, -, -, -, -, ⟨-, hs⟩ | ⟨-, hs⟩⟩ := remember_ok h
  · rw [hs]
    refine hh.imp id fun hm => mem_append_left _ ?_
    exact mem_filter.mpr ⟨hm, bne_iff_ne.mpr hi⟩
  · rw [hs]
    exact hh.imp (fun hm => mem_sorted_rules.mpr (mem_replace_of_ne hm hi)) id

/-- A rule of another identifier stays when one is revoked. -/
theorem holds_revoke {id : Option Value} {n : String} (hn : filled id = some n) (hh : s.Holds o)
    (hi : o.id ≠ n) : (s.revoke sha256 a id).2.Holds o := by
  cases hr : (s.revoke sha256 a id).1 with
  | error m =>
    rw [revoke_eq_error hr]
    exact hh
  | ok r =>
    obtain ⟨f, hf, ⟨-, -, hs⟩ | ⟨-, -, hs⟩ | ⟨-, hs⟩⟩ := revoke_ok hr
    · obtain rfl := Option.some.inj (hn.symm.trans hf)
      rw [hs]
      exact hh.imp_right fun hm => mem_filter.mpr ⟨hm, bne_iff_ne.mpr hi⟩
    · obtain rfl := Option.some.inj (hn.symm.trans hf)
      rw [hs]
      refine hh.imp_left fun hm => mem_sorted_rules.mpr ?_
      exact mem_filter.mpr ⟨hm, bne_iff_ne.mpr hi⟩
    · rw [hs]
      exact hh

end

/-- With no collision between the texts of two rules, their identifiers are for one scope exactly
where neither rule goes on with the adapter's arguments of the other. -/
theorem namesScope_iff {leftPaths rightPaths : Paths} {leftContext rightContext : Context}
    {leftRequest rightRequest : Value} {leftVerdict rightVerdict : Verdict}
    {leftLifetime rightLifetime : Lifetime} {left right : Rule}
    (hleft : makeRule sha256 leftPaths leftContext leftRequest leftVerdict leftLifetime = .ok left)
    (hright : makeRule sha256 rightPaths rightContext rightRequest rightVerdict rightLifetime =
      .ok right) (hcollision : sha256 left.identityText = sha256 right.identityText →
      left.identityText = right.identityText) :
    NamesScope sha256 left right ↔ ¬left.Shifted right ∧ ¬right.Shifted left := by
  have hm := wellMade_of_makeRule hleft
  have ho := wellMade_of_makeRule hright
  constructor
  · intro h
    have ha (hp : left.parts = right.parts) : left.SameScope right := by
      refine h.scope ?_
      rw [hm.id, ho.id, ruleId_eq, ruleId_eq, Rule.identityText, hp, Rule.identityText]
    constructor
    · intro hs
      exact hs.not_sameScope (ha hs.parts_eq)
    · intro hs
      exact hs.not_sameScope (ha hs.parts_eq.symm).symm
  · rintro ⟨hright, hleft⟩
    have hc (hi : left.id = right.id) : left.SameScope right := by
      rw [hm.id, ho.id, ruleId_eq, ruleId_eq] at hi
      have ht := hcollision (String.append_right_inj _ |>.mp hi)
      rcases (Rule.parts_eq_iff hm ho).mp (Rule.identityText_inj ht) with h | h | h
      · exact h
      · exact absurd h hright
      · exact absurd h hleft
    refine ⟨hc, ?_, ?_⟩
    · intro p ac st c req d l hk hh hn
      exact holds_remember hh hk fun hi => hn (hc hi)
    · intro ac st id hi hh hn
      exact holds_revoke hi hh fun ha => hn (hc ha)

/-! ### Two scopes under one identifier -/

/-- A request of an Agent whose adapter has these arguments, in a workspace. -/
def scopedContext (args : List String) (workspace : String) : Context :=
  ⟨"session", "agent", ⟨"adapter", args⟩, workspace⟩

/-- The rule that allows a command for every Session. -/
def commandRule (sha256 : String → String) (args : List String) (workspace : String)
    (argv : List String) : Rule :=
  let rule : Rule := ⟨"", .allow, .always, none, "agent", ⟨"adapter", args⟩, workspace, .command,
    none, some argv⟩
  { rule with id := ruleId sha256 rule }

theorem makeRule_command (args : List String) (w : String) {ar : List String}
    (hk : Value.text? ((commandRequest ar).field "kind") = some "command")
    (ha : denseStrings false ((commandRequest ar).field "command") = some ar) :
    makeRule sha256 plainPaths (scopedContext args w) (commandRequest ar) .allow .always =
      .ok (commandRule sha256 args w ar) := by
  unfold makeRule
  rw [hk, ha]
  rfl

/-- A command with the name of another workspace in it, and a command in that workspace for an
adapter that takes the first workspace as an argument. -/
theorem commandRule_shifted (sha256 : String → String) :
    (commandRule sha256 [] "/w" ["/v", "command", "x"]).Shifted
      (commandRule sha256 ["/w", "command"] "/v" ["x"]) :=
  ⟨rfl, rfl, rfl, rfl, ["/w", "command"], by decide, rfl, rfl⟩

/-- Even where no two texts have one hash, an identifier can be of two scopes. -/
theorem not_namesScope : ¬∀ sha256 : String → String, Function.Injective sha256 →
    ∀ leftPaths rightPaths leftContext rightContext leftRequest rightRequest leftVerdict
      rightVerdict leftLifetime rightLifetime left right,
    makeRule sha256 leftPaths leftContext leftRequest leftVerdict leftLifetime = .ok left →
    makeRule sha256 rightPaths rightContext rightRequest rightVerdict rightLifetime = .ok right →
    NamesScope sha256 left right := by
  intro h
  have hl : makeRule id plainPaths (scopedContext [] "/w")
      (commandRequest ["/v", "command", "x"]) .allow .always =
      .ok (commandRule id [] "/w" ["/v", "command", "x"]) :=
    makeRule_command _ _ (by decide +kernel) (by decide +kernel)
  have hr : makeRule id plainPaths (scopedContext ["/w", "command"] "/v")
      (commandRequest ["x"]) .allow .always = .ok (commandRule id ["/w", "command"] "/v" ["x"]) :=
    makeRule_command _ _ (by decide +kernel) (by decide +kernel)
  have hs := commandRule_shifted id
  have hn := h id Function.injective_id _ _ _ _ _ _ _ _ _ _ _ _ hl hr
  have ha : (commandRule id [] "/w" ["/v", "command", "x"]).id =
      (commandRule id ["/w", "command"] "/v" ["x"]).id := by
    rw [(wellMade_of_makeRule hl).id, (wellMade_of_makeRule hr).id, ruleId_eq, ruleId_eq,
      Rule.identityText, hs.parts_eq, Rule.identityText]
  exact hs.not_sameScope (hn.scope ha)

theorem namesScope_iff_sample :
    NamesScope id (commandRule id ["serve"] "/w" ["make"]) (commandRule id ["run"] "/w" ["make"]) ↔
      ¬(commandRule id ["serve"] "/w" ["make"]).Shifted (commandRule id ["run"] "/w" ["make"]) ∧
      ¬(commandRule id ["run"] "/w" ["make"]).Shifted (commandRule id ["serve"] "/w" ["make"]) :=
  namesScope_iff (makeRule_command ["serve"] "/w" (by decide +kernel) (by decide +kernel))
    (makeRule_command ["run"] "/w" (by decide +kernel) (by decide +kernel)) id

end Louiselm.Permission
