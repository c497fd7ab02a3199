import Louiselm.Permission.Options

/-!
# The sense of automatic permission answers

`lua/louiselm/permission/gates.lua`: an answer that needs no human takes the first option whose
label holds one of the words of the decision, also inside another word. Whether the option that
is taken means the decision depends on what the words of its label mean, which is a parameter:
nothing is assumed of how an Agent words its options.
-/

namespace Louiselm.Permission.Gates
open Base.Lua Option

/-! ### First hits -/

section

variable {α : Type*} {hit good : α → Bool} {items : List α}

/-- The first hit is a good one exactly where every bad hit has a good one before it. -/
theorem find?_good_iff : (∀ x, items.find? hit = some x → good x = true) ↔
    ∀ pre x l, items = pre ++ x :: l → hit x = true →
      good x = false → ∃ e ∈ pre, hit e = true ∧ good e = true := by
  constructor
  · rintro h pre x l rfl hh hb
    cases ho : pre.find? hit with
    | none =>
      have hf : (pre ++ x :: l).find? hit = some x := by
        rw [List.find?_append, ho, none_or, List.find?_cons, hh]
      rw [h x hf] at hb
      cases hb
    | some e =>
      have hf : (pre ++ x :: l).find? hit = some e := by
        rw [List.find?_append, ho, some_or]
      exact ⟨e, List.mem_of_find?_eq_some ho, List.find?_some ho, h e hf⟩
  · intro h x hf
    obtain ⟨hh, pre, l, hs, hn⟩ := List.find?_eq_some_iff_append.mp hf
    by_contra hb
    obtain ⟨e, he, hits, -⟩ :=
      h pre x l hs hh (Bool.eq_false_of_not_eq_true hb)
    have ha := hn e he
    rw [hits] at ha
    cases ha

end

/-! ### Reading options -/

variable (tostring : Option Value → String)

/-- The label of an option holds one of the words of a decision, wherever in it. -/
def holdsWord (verdict : Verdict) (label : String) : Bool :=
  (wanted verdict).any fun word => decide (word.toList <:+: label.toList)

/-- An option that can be taken for a decision. -/
def hits (verdict : Verdict) (option : Value) : Bool :=
  (optionIdentifier tostring option).1.isSome &&
    holdsWord verdict (optionIdentifier tostring option).2

/-- The option that is taken for a decision. -/
def picked (data : Value) (verdict : Verdict) : Option Value :=
  (options data).find? (hits tostring verdict)

/-- The words of an option mean a decision. -/
def means (sense : String → Option Verdict) (verdict : Verdict) (option : Value) : Bool :=
  sense (optionIdentifier tostring option).2 == some verdict

variable {tostring} {sense : String → Option Verdict} {data : Value} {verdict : Verdict}

/-- The answer is made of the option that is taken. -/
theorem response_eq_picked : response tostring data verdict =
    ((picked tostring data verdict).bind fun o => (optionIdentifier tostring o).1).elim
      (if verdict = .deny then some cancelled else none) fun i =>
        some (selected i) := by
  have hs : ((options data).findSome? fun o =>
      (optionIdentifier tostring o).1.filter fun _ =>
        holdsWord verdict (optionIdentifier tostring o).2) =
      (picked tostring data verdict).bind fun o => (optionIdentifier tostring o).1 := by
    unfold picked
    induction options data with
    | nil => rfl
    | cons o xs ih =>
      rw [List.findSome?_cons, List.find?_cons, hits]
      cases hi : (optionIdentifier tostring o).1 with
      | none => simpa using ih
      | some i =>
        cases hh : holdsWord verdict (optionIdentifier tostring o).2 with
        | false => simpa [hh] using ih
        | true => simp [hi, Option.filter]
  rw [← hs]
  unfold response holdsWord
  dsimp only
  split <;> rename_i hf <;> rw [hf] <;> rfl

/-- An answer takes an option of the sense of its decision, or it is the cancelled outcome of a
denial. -/
def KeepsSense (tostring : Option Value → String) (sense : String → Option Verdict) (data : Value)
    (verdict : Verdict) : Prop :=
  ∀ answer, response tostring data verdict = some answer →
    (verdict = .deny ∧ answer = cancelled ∧ picked tostring data verdict = none) ∨
    ∃ option identifier, picked tostring data verdict = some option ∧
      (optionIdentifier tostring option).1 = some identifier ∧ answer = selected identifier ∧
      sense (optionIdentifier tostring option).2 = some verdict

/-- The option that is taken has the sense of the decision. -/
theorem keepsSense_iff_picked : KeepsSense tostring sense data verdict ↔
    ∀ o, picked tostring data verdict = some o → means tostring sense verdict o = true := by
  constructor
  · intro h o hp
    have hh : hits tostring verdict o = true := List.find?_some hp
    obtain ⟨i, hi⟩ :=
      isSome_iff_exists.mp (Bool.and_eq_true_iff.mp hh).1
    have ha : response tostring data verdict = some (selected i) := by
      rw [response_eq_picked, hp, bind_some, hi, elim_some]
    rcases h _ ha with ⟨-, -, hn⟩ | ⟨x, n, ho, -, -, hs⟩
    · rw [hp] at hn
      cases hn
    · obtain rfl := Option.some.inj (hp.symm.trans ho)
      exact beq_iff_eq.mpr hs
  · intro h a ha
    rw [response_eq_picked] at ha
    cases hp : picked tostring data verdict with
    | none =>
      rw [hp, bind_none, elim_none] at ha
      by_cases hd : verdict = .deny
      · rw [if_pos hd] at ha
        exact .inl ⟨hd, (Option.some.inj ha).symm, rfl⟩
      · rw [if_neg hd] at ha
        cases ha
    | some o =>
      have hh : hits tostring verdict o = true := List.find?_some hp
      obtain ⟨i, hi⟩ :=
        isSome_iff_exists.mp (Bool.and_eq_true_iff.mp hh).1
      rw [hp, bind_some, hi, elim_some] at ha
      exact .inr ⟨o, i, rfl, hi, (Option.some.inj ha).symm, beq_iff_eq.mp (h o hp)⟩

/-- Whatever the words of labels mean, an answer keeps the sense of its decision exactly where
every option with a word of the decision in its label that means something else stands behind one
that means it. -/
theorem keepsSense_iff (tostring : Option Value → String) (sense : String → Option Verdict)
    (data : Value) (verdict : Verdict) : KeepsSense tostring sense data verdict ↔
    ∀ before option after, options data = before ++ option :: after →
      hits tostring verdict option = true → means tostring sense verdict option = false →
      ∃ earlier ∈ before, hits tostring verdict earlier = true ∧
        means tostring sense verdict earlier = true := by
  rw [keepsSense_iff_picked]
  exact find?_good_iff

/-! ### A word inside another -/

/-- The words of a label, in letters. -/
def labelWords (label : String) : List String :=
  ((label.toList.splitOnP fun c => !c.isAlpha).filter (· != [])).map String.ofList

/-- A reading by whole words: a label means a decision where it has words of that one only. -/
def wholeWords (label : String) : Option Verdict :=
  let has (verdict : Verdict) := (labelWords label).any fun word => word ∈ wanted verdict
  if has .allow && !has .deny then some .allow
  else if has .deny && !has .allow then some .deny
  else none

/-- The options to allow something at once or to reject it. -/
def nowOptions : Value :=
  .table [(.str "options", .array [
    .table [(.str "optionId", .str "now"), (.str "name", .str "Allow now")],
    .table [(.str "optionId", .str "never"), (.str "name", .str "Reject")]])]

/-- A denial takes the option to allow something now, for the word in its last word. -/
theorem not_keepsSense : ¬∀ data verdict, KeepsSense (fun _ => "") wholeWords data verdict := by
  intro h
  have hp : (picked (fun _ => "") nowOptions .deny).map
      (fun o => (optionIdentifier (fun _ => "") o, means (fun _ => "") wholeWords .deny
        o)) = some ((some "now", "allow now"), false) := by
    decide +kernel
  obtain ⟨o, ho, hm⟩ := map_eq_some_iff.mp hp
  have hg := keepsSense_iff_picked.mp (h nowOptions .deny) o ho
  rw [(Prod.mk.inj hm).2] at hg
  cases hg

end Louiselm.Permission.Gates
