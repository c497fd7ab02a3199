import Mathlib.Data.List.TakeWhile

/-!
# Conventional command lines

A command line is a list of tokens. Before a bare `--` every token that starts with `-` is an
option; its value stands behind `=` in the same token, or else it is the next token. After the
bare `--` every token is positional.
-/

namespace Louiselm.Base.CommandLine
open List

/-- The token after which nothing is an option. -/
def terminator : String := "--"

/-- A token that starts with `-`. -/
def isOption (token : String) : Bool := token.toList.head? == some '-'

/-- The flag of an option: the token up to `=`. -/
def flagOf (token : String) : String := String.ofList (token.toList.takeWhile (· != '='))

/-- The value behind `=`. -/
def attachedValue (token : String) : Option String :=
  (token.toList.dropWhile (· != '=')).tail?.map String.ofList

/-- The tokens before a bare `--`. -/
def beforeTerminator (line : List String) : List String := line.takeWhile (· != terminator)

/-- The options among some tokens with their values, in order. -/
def readOptions : List String → List (String × Option String)
  | [] => []
  | token :: rest =>
    if isOption token then (flagOf token, (attachedValue token).or rest.head?) :: readOptions rest
    else readOptions rest

/-- The values that a command line gives to a flag, in order. -/
def valuesOf (flag : String) (line : List String) : List (Option String) :=
  ((readOptions (beforeTerminator line)).filter (·.1 == flag)).map (·.2)

/-- A token that gives a flag a value. -/
def Names (flag token : String) : Prop := isOption token = true ∧ flagOf token = flag

instance (flag : String) : DecidablePred (Names flag) := fun _ =>
    inferInstanceAs (Decidable (_ ∧ _))

variable {f t : String} {ts line xs : List String}

/-! ### Flags -/

/-- A token has a flag when it is the flag or goes on with `=`. -/
theorem flagOf_eq_iff (hflag : '=' ∉ f.toList) :
    flagOf t = f ↔ t = f ∨ (f ++ "=").toList <+: t.toList := by
  have hlist : flagOf t = f ↔ t.toList.takeWhile (· != '=') = f.toList := by
    rw [← String.toList_inj, flagOf, String.toList_ofList]
  rw [hlist]
  constructor
  · intro h
    have hsplit := takeWhile_append_dropWhile (p := (· != '=')) (l := t.toList)
    rw [h] at hsplit
    cases hdrop : t.toList.dropWhile (· != '=') with
    | nil =>
      rw [hdrop, append_nil] at hsplit
      exact .inl (String.toList_inj.mp hsplit.symm)
    | cons c a =>
      have hc : c = '=' := by
        have hhead := List.head?_dropWhile_not (· != '=') t.toList
        rw [hdrop] at hhead
        simpa using hhead
      rw [hdrop, hc] at hsplit
      refine .inr ⟨a, ?_⟩
      rw [← hsplit]
      simp
  · rintro (rfl | ⟨a, h⟩)
    · exact takeWhile_eq_self_iff.mpr fun c hc => by
        simpa using fun heq : c = '=' => hflag (heq ▸ hc)
    · rw [← h, String.toList_append, append_assoc, takeWhile_append_of_pos]
      · simp
      · intro c hc
        simpa using fun heq : c = '=' => hflag (heq ▸ hc)

/-- A token is an option when its flag starts with `-`. -/
theorem isOption_of_flagOf (h : flagOf t = f) (hf : isOption f = true) : isOption t = true := by
  rw [isOption, beq_iff_eq] at hf ⊢
  rw [← h, flagOf, String.toList_ofList] at hf
  cases ht : t.toList with
  | nil => simp [ht] at hf
  | cons c l =>
    rw [ht, takeWhile_cons] at hf
    split at hf
    · simpa using hf
    · simp at hf

/-! ### Lines -/

/-- A line without a bare `--` goes on with what follows. -/
theorem beforeTerminator_append (h : terminator ∉ ts) :
    beforeTerminator (ts ++ xs) = ts ++ beforeTerminator xs := by
  apply takeWhile_append_of_pos
  intro t hm
  simpa using fun heq : t = terminator => h (heq ▸ hm)

/-- Nothing counts behind a bare `--`. -/
theorem beforeTerminator_append_of_mem (h : terminator ∈ ts) :
    beforeTerminator (ts ++ xs) = beforeTerminator ts := by
  induction ts with
  | nil => simp at h
  | cons t ts ih =>
    unfold beforeTerminator at ih ⊢
    rw [cons_append, takeWhile_cons, takeWhile_cons]
    split
    · next hn =>
      have hr : terminator ∈ ts := by
        rcases mem_cons.mp h with heq | hm
        · simp [← heq] at hn
        · exact hm
      rw [ih hr]
    · rfl

/-- Tokens that do not name a flag do not change its values. -/
theorem filter_readOptions_append (h : ∀ t ∈ ts, ¬ Names f t) :
    (readOptions (ts ++ xs)).filter (·.1 == f) = (readOptions xs).filter (·.1 == f) := by
  induction ts with
  | nil => rfl
  | cons t ts ih =>
    obtain ⟨hf, ht⟩ := forall_mem_cons.mp h
    rw [cons_append, readOptions]
    split
    · next ho =>
      have hn : flagOf t ≠ f := fun heq => hf ⟨ho, heq⟩
      rw [filter_cons_of_neg (by simpa using hn), ih ht]
    · exact ih ht

/-- Each token that names a flag gives it one value. -/
theorem length_filter_readOptions :
    ((readOptions ts).filter (·.1 == f)).length = ts.countP (Names f ·) := by
  induction ts with
  | nil => rfl
  | cons t ts ih =>
    rw [readOptions, countP_cons]
    split
    · next ho =>
      by_cases hf : flagOf t = f
      · rw [filter_cons_of_pos (by simpa using hf), length_cons, ih]
        simp [Names, ho, hf]
      · rw [filter_cons_of_neg (by simpa using hf), ih]
        simp [Names, hf]
    · next ho =>
      rw [ih]
      simp [Names, ho]

/-! ### Values -/

/-- Tokens that neither end the options nor name a flag can stand before its values. -/
theorem valuesOf_append (he : terminator ∉ ts) (h : ∀ t ∈ ts, ¬ Names f t) :
    valuesOf f (ts ++ xs) = valuesOf f xs := by
  rw [valuesOf, beforeTerminator_append he, filter_readOptions_append h, valuesOf]

/-- Behind a bare `--` no flag has a value. -/
theorem valuesOf_append_of_mem (he : terminator ∈ ts)
    (h : ∀ t ∈ ts, ¬ Names f t) : valuesOf f (ts ++ xs) = [] := by
  have hb : ∀ t ∈ beforeTerminator ts, ¬ Names f t := fun t hm =>
    h t ((takeWhile_sublist _).subset hm)
  have hn : (readOptions (beforeTerminator ts ++ [])).filter (·.1 == f) = [] :=
    filter_readOptions_append hb
  rw [append_nil] at hn
  rw [valuesOf, beforeTerminator_append_of_mem he, hn]
  rfl

/-- A token that does not end the options gives its flag a value. -/
theorem valuesOf_cons (he : t ≠ terminator) (h : Names f t) : valuesOf f (t :: xs) =
      (attachedValue t).or (beforeTerminator xs).head? :: valuesOf f xs := by
  have hb : beforeTerminator (t :: xs) = t :: beforeTerminator xs := by
    rw [beforeTerminator, takeWhile_cons_of_pos (by simpa using he)]
    rfl
  rw [valuesOf, hb, readOptions, if_pos h.1, filter_cons_of_pos (by simpa using h.2),
    map_cons, valuesOf]

/-- A flag that is named once has the next token as its value. -/
theorem valuesOf_eq_singleton (pre : List String) (v : String) (l : List String)
    (hf : f ≠ terminator) (ho : Names f f) (hp : attachedValue f = none)
    (he : terminator ∉ pre ++ v :: l) (h : ∀ t ∈ pre ++ v :: l, ¬ Names f t) :
    valuesOf f (pre ++ f :: v :: l) = [some v] := by
  rw [mem_append, not_or, mem_cons, not_or] at he
  obtain ⟨hb, hv, ha⟩ := he
  have hr : valuesOf f ((v :: l) ++ []) = valuesOf f [] := by
    refine valuesOf_append ?_ fun t hm => h t (mem_append_right _ hm)
    simpa using ⟨hv, ha⟩
  rw [append_nil] at hr
  rw [valuesOf_append hb fun t hm => h t (mem_append_left _ hm),
    valuesOf_cons hf ho, hp, hr, beforeTerminator,
    takeWhile_cons_of_pos (by simpa using Ne.symm hv)]
  rfl

/-- Tokens that do not end the options give a flag as many values as they name it. -/
theorem length_valuesOf_append (he : terminator ∉ ts) : (valuesOf f (ts ++ xs)).length =
      ts.countP (Names f ·) + (valuesOf f xs).length := by
  rw [valuesOf, beforeTerminator_append he, length_map, length_filter_readOptions,
    countP_append, valuesOf, length_map, length_filter_readOptions]

end Louiselm.Base.CommandLine
