import Louiselm.Permission.StoreRuns

/-!
# Answers and the order of rules

The store of `Permission/Store` answers with the first rule that covers a request. The rules of
Sessions come in the order of their table, those of the file in that of their identifiers: when
the answer is the same in every order.
-/

namespace Louiselm.Permission
open Base Base.Lua List

/-- The rules that cover a request decide alike. -/
def Agree (paths : Paths) (context : Context) (request : Value) (rules : List Rule) : Prop :=
  ∀ rule ∈ rules, ∀ other ∈ rules, covers paths rule context request = true →
    covers paths other context request = true → rule.verdict = other.verdict

/-- Two stores have the same rules, in any order. -/
structure SameRules (store other : Store) : Prop where
  session : (other.sessionRules.map Prod.snd).Perm (store.sessionRules.map Prod.snd)
  file : other.file.Perm store.file

/-- A store answers like every one with the same rules, in whatever order the rules of Sessions
are visited. -/
def Settled (sha256 : String → String) (store : Store) (paths : Paths) (access : Access)
    (context request : Value) : Prop :=
  ∀ other visited revisited, SameRules store other →
    visited.Perm (store.sessionRules.map Prod.snd) →
    revisited.Perm (other.sessionRules.map Prod.snd) →
    other.evaluate sha256 paths access revisited context request =
      store.evaluate sha256 paths access visited context request

/-- No two rules contest an answer: those of Sessions that cover the request decide alike, and,
where none of them does and the file can be read, so do those of the file. -/
def Uncontested (sha256 : String → String) (store : Store) (paths : Paths) (access : Access)
    (context request : Value) : Prop :=
  ∀ normalized, normalizeContext paths context = .ok normalized →
    Agree paths normalized request (store.sessionRules.map Prod.snd) ∧
    ((∀ rule ∈ store.sessionRules.map Prod.snd, covers paths rule normalized request = false) →
      (readRules sha256 access store).toOption.isSome = true →
      Agree paths normalized request store.file)

section

variable {sh2 : String → String} {paths : Paths} {ac : Access} {context : Context}
  {request : Value} {rules os : List Rule}

/-- The verdict of the first rule that covers a request. -/
def firstVerdict (paths : Paths) (context : Context) (request : Value) (rules : List Rule) :
    Option Verdict :=
  (rules.find? fun rule => covers paths rule context request).map Rule.verdict

theorem firstVerdict_eq_none : firstVerdict paths context request rules = none ↔
    ∀ r ∈ rules, covers paths r context request = false := by
  simp [firstVerdict]

/-- Where the rules agree, their order does not matter. -/
theorem Agree.firstVerdict_perm (h : Agree paths context request rules) (hp : os.Perm rules) :
    firstVerdict paths context request os = firstVerdict paths context request rules := by
  unfold firstVerdict
  cases hf : os.find? fun r => covers paths r context request with
  | none =>
    have hn : rules.find? (fun r => covers paths r context request) = none := by
      rw [List.find?_eq_none] at hf ⊢
      exact fun r hr => hf r (hp.mem_iff.mpr hr)
    rw [hn]
  | some r =>
    have hr := hp.mem_iff.mp (mem_of_find?_eq_some hf)
    cases ho : rules.find? fun r => covers paths r context request with
    | none =>
      rw [List.find?_eq_none] at ho
      exact absurd (covers_of_find? hf) (ho r hr)
    | some o =>
      exact congrArg some (h r hr o (mem_of_find?_eq_some ho)
        (covers_of_find? hf) (covers_of_find? ho))

/-- A rule that covers the request decides where it comes first. -/
theorem firstVerdict_cons {r : Rule} (h : covers paths r context request = true) :
    firstVerdict paths context request (r :: rules) = some r.verdict := by
  simp [firstVerdict, h]

/-- What is answered by the verdict of a rule of the file, where one covers the request. -/
def answerOf (verdict : Option Verdict) : Decision := (verdict.map Verdict.decision).getD .ask

theorem answerOf_injective : Function.Injective answerOf := by
  intro a b h
  cases a with
  | none =>
    cases b with
    | none => rfl
    | some v => cases v <;> cases h
  | some x =>
    cases b with
    | none => cases x <;> cases h
    | some s =>
      cases x with
      | allow => cases s with
        | allow => rfl
        | deny => cases h
      | deny => cases s with
        | allow => cases h
        | deny => rfl

variable {st : Store}

/-- The answer to a request, by the verdicts of what comes first. -/
theorem evaluate_eq {v : List Rule} {val : Value} (hc : normalizeContext paths val = .ok context) :
    st.evaluate sh2 paths ac v val request =
      match firstVerdict paths context request v with
      | some verdict => .ok verdict.decision
      | none => (readRules sh2 ac st).map fun rules =>
          answerOf (firstVerdict paths context request rules) := by
  unfold Store.evaluate firstVerdict
  rw [hc]
  dsimp only
  cases v.find? fun r => covers paths r context request with
  | some r => rfl
  | none =>
    dsimp only [Option.map_none]
    cases readRules sh2 ac st with
    | error m => rfl
    | ok rules =>
      dsimp only [Except.map]
      cases rules.find? fun r => covers paths r context request with
      | none => rfl
      | some r => rfl

/-- Reading goes alike for the same rules. -/
theorem readRules_perm (sh2 : String → String) (ac : Access) {o : Store}
    (h : SameRules st o) : (readRules sh2 ac o).map (fun _ => ()) =
      (readRules sh2 ac st).map fun _ => () := by
  have ha : o.file.all (isPersistent sh2) = st.file.all (isPersistent sh2) :=
    Bool.eq_iff_iff.mpr (by simp only [all_eq_true, h.file.mem_iff])
  unfold readRules
  cases ac.readError with
  | some m => rfl
  | none =>
    rw [ha]
    dsimp only
    split
    · rfl
    · rfl

/-- Rules that answer alike in every order agree. -/
theorem agree_of_firstVerdict (h : ∀ os : List Rule, os.Perm rules →
    ∀ a : List Rule, a.Perm rules → firstVerdict paths context request os =
      firstVerdict paths context request a) : Agree paths context request rules := by
  intro r hr o ho hc hco
  have hs := h _ (perm_cons_erase hr).symm _ (perm_cons_erase ho).symm
  rw [firstVerdict_cons hc, firstVerdict_cons hco] at hs
  exact Option.some.inj hs

/-- A store answers the same in every order of its rules exactly where none contest the answer. -/
theorem settled_iff {val : Value} : Settled sh2 st paths ac val request ↔
      Uncontested sh2 st paths ac val request := by
  constructor
  · intro h n hno
    have hs : ∀ v : List Rule, v.Perm (st.sessionRules.map Prod.snd) →
        st.evaluate sh2 paths ac v val request =
          st.evaluate sh2 paths ac (st.sessionRules.map Prod.snd) val request :=
      fun v hv => h st _ v ⟨.refl _, .refl _⟩ (.refl _) hv
    constructor
    · intro rule hu o ho hcv hco
      have hf := hs _ (perm_cons_erase hu).symm
      have hse := hs _ (perm_cons_erase ho).symm
      rw [← hse, evaluate_eq hno, evaluate_eq hno, firstVerdict_cons hcv,
        firstVerdict_cons hco] at hf
      exact Option.some.inj (answerOf_injective (Except.ok.inj hf))
    · intro hn hre
      have hv := firstVerdict_eq_none.mpr hn
      refine agree_of_firstVerdict fun os hot a ha => ?_
      have hans : ∀ file : List Rule, file.Perm st.file →
          Except.ok (answerOf (firstVerdict paths n request file)) =
            st.evaluate sh2 paths ac (st.sessionRules.map Prod.snd) val request := by
        intro file hi
        have hsa : SameRules st { st with file } := ⟨.refl _, hi⟩
        have hr := readRules_perm sh2 ac hsa
        have he := h { st with file } _ _ hsa (.refl _) (.refl _)
        rw [evaluate_eq hno, hv] at he
        cases ho : readRules sh2 ac { st with file } with
        | error m =>
          cases ht : readRules sh2 ac st with
          | error a => rw [ht] at hre; cases hre
          | ok rules => rw [ho, ht] at hr; cases hr
        | ok rules =>
          obtain rfl := readRules_ok ho
          rw [ho] at he
          exact he
      exact answerOf_injective (Except.ok.inj ((hans _ hot).trans (hans _ ha).symm))
  · intro h o v r hsa hv hrv
    cases hc : normalizeContext paths val with
    | error m => simp [Store.evaluate, hc]
    | ok n =>
      obtain ⟨hs, hi⟩ := h n hc
      rw [evaluate_eq hc, evaluate_eq hc, hs.firstVerdict_perm (hrv.trans hsa.session),
        hs.firstVerdict_perm hv]
      cases hf : firstVerdict paths n request (st.sessionRules.map Prod.snd) with
      | some ve => rfl
      | none =>
        dsimp only
        have hr := readRules_perm sh2 ac hsa
        cases hre : readRules sh2 ac st with
        | error m =>
          rw [hre] at hr
          cases ho : readRules sh2 ac o with
          | error a =>
            rw [ho] at hr
            cases hr
            rfl
          | ok rules => rw [ho] at hr; cases hr
        | ok rules =>
          rw [hre] at hr
          cases ho : readRules sh2 ac o with
          | error a => rw [ho] at hr; cases hr
          | ok os =>
            obtain rfl := readRules_ok hre
            obtain rfl := readRules_ok ho
            have hg := hi (firstVerdict_eq_none.mp hf) (by rw [hre]; rfl)
            dsimp only [Except.map]
            rw [hg.firstVerdict_perm hsa.file]

end

/-- After every history of calls the store answers a request in a context like every store with
the same rules, whatever histories and identifiers put them in what order, exactly where no two
rules contest the answer. -/
theorem histories_settled_iff (sha256 : String → String) (calls : List Call) (paths : Paths)
    (access : Access) (context request : Value) :
    Settled sha256 (calls.foldl Remembered.step (.new : Remembered sha256)).store
        paths access context
        request ↔
      Uncontested sha256 (calls.foldl Remembered.step (.new : Remembered sha256)).store paths access
        context request := settled_iff

/-- A program is allowed, and one of its subcommands denied. -/
def contested : Store :=
  ([sampleCall ["git"] "allow", sampleCall ["git", "push"] "deny"].foldl Remembered.step
    (.new : Remembered id)).store

/-- The same in the other order. -/
def contestedAgain : Store :=
  ([sampleCall ["git", "push"] "deny", sampleCall ["git"] "allow"].foldl Remembered.step
    (.new : Remembered id)).store

/-- Two histories that leave the same rules, of which one answers with what is allowed and the
other with what is denied. -/
theorem contested_unsettled : SameRules contested contestedAgain ∧
      ¬ Settled id contested plainPaths ⟨none, none⟩ sampleContext
          (commandRequest ["git", "push"]) := by
  have hs : SameRules contested contestedAgain := ⟨by decide +kernel, by decide +kernel⟩
  refine ⟨hs, fun h => ?_⟩
  have hb := h contestedAgain _ _ hs (.refl _) (.refl _)
  revert hb
  decide +kernel

end Louiselm.Permission
