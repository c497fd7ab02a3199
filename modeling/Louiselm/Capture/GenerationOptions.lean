import Louiselm.Base.CommandLine
import Louiselm.Capture.Generation

/-!
# Which generation commands keep the broker's options

`generation_arguments` of `capture-service/src/generation.rs` refuses the broker's flags among
the supplied tokens and puts its own options behind them. A bare `--` that the Agent supplies
is passed on, and makes positional arguments of the broker's options.
-/

namespace Louiselm.Capture
open Base Base.CommandLine List Except

/-- The options by which a created issue is attributed, found again and stored. -/
def brokerFlags : List String := ["--actor", "--external-ref", "--db"]

/-- The broker's options are given once each, with the broker's values. -/
structure OptionsKept (actor externalRef database : String) (line : List String) : Prop where
  actor : valuesOf "--actor" line = [some actor]
  externalRef : valuesOf "--external-ref" line = [some externalRef]
  database : valuesOf "--db" line = [some database]

/-- A token that ends the options or names one of the broker's. -/
def Displaces (token : String) : Prop := token = terminator ∨ flagOf token ∈ brokerFlags

instance : DecidablePred Displaces := fun _ => inferInstanceAs (Decidable (_ ∨ _))

variable {command actor er database flag token : String} {supplied line tokens o t : List String}

/-! ### What is supplied -/

/-- The broker's flags are among those that it refuses. -/
theorem isControlFlag_of_flagOf (h : flagOf token ∈ brokerFlags) : isControlFlag token = true := by
  have hp : ∀ flag ∈ brokerFlags, flag ∈ forbiddenFlags ∧ '=' ∉ flag.toList := by decide
  obtain ⟨hf, he⟩ := hp _ h
  rw [isControlFlag, any_eq_true]
  refine ⟨flagOf token, hf, ?_⟩
  rw [Bool.or_eq_true, beq_iff_eq, isPrefixOf_iff_prefix]
  exact (flagOf_eq_iff he).mp rfl

theorem rejectControlFlags_ok {a : List String} :
    rejectControlFlags a = .ok () ↔ ∀ ar ∈ a, ¬ isControlFlag ar := by
  unfold rejectControlFlags
  cases hf : a.find? isControlFlag with
  | none => simpa using hf
  | some flag =>
    have hm := mem_of_find?_eq_some hf
    have hl := List.find?_some hf
    simp only [reduceCtorEq, false_iff]
    exact fun h => h flag hm hl

/-- No token is an option of one of the broker's flags. -/
def Unclaimed (tokens : List String) : Prop :=
  ∀ token ∈ tokens, ∀ flag ∈ brokerFlags, ¬ Names flag token

theorem unclaimed_of_accepted (h : rejectControlFlags supplied = .ok ()) : Unclaimed supplied := by
  intro token hm flag hf hn
  refine rejectControlFlags_ok.mp h token hm ?_
  exact isControlFlag_of_flagOf (hn.2 ▸ hf)

/-- A token that is no option names no flag. -/
theorem not_names_of_not_isOption (h : isOption token = false) : ¬ Names flag token := by
  intro hn
  rw [hn.1] at h
  contradiction

/-- What quick capture passes on: it keeps the supplied values, among them every bare `--`, and
the words of a title are no options. -/
theorem quickLoop_ok {o' t' : List String} (h : quickLoop o t supplied = .ok (o', t')) :
    (∀ token ∈ o', token ∈ o ∨ token ∈ supplied) ∧ (∀ token ∈ o, token ∈ o') ∧
      (terminator ∈ supplied → terminator ∈ o') ∧
      ((∀ w ∈ t, isOption w = false) → ∀ w ∈ t', isOption w = false) := by
  fun_induction quickLoop o t supplied with
  | case1 o t =>
    obtain ⟨rfl, rfl⟩ := Prod.mk.inj (ok.inj h)
    simp
  | case2 o t xs ih =>
    obtain ⟨hf, hk, he, hw⟩ := ih h
    refine ⟨fun token hm => ?_, hk, fun hm => ?_, hw⟩
    · exact (hf token hm).imp_right (mem_cons_of_mem _)
    · exact he (by simpa [terminator] using hm)
  | case3 o t v hj hv => simp at h
  | case4 o t v hj hv s xs ih =>
    obtain ⟨hf, hk, he, hw⟩ := ih h
    refine ⟨fun token hm => ?_, fun token hm => ?_, fun hm => ?_, hw⟩
    · rcases hf token hm with hold | hr
      · rcases mem_append.mp hold with hold | hn
        · exact .inl hold
        · exact .inr (by simp only [mem_cons, not_mem_nil, or_false] at hn ⊢; tauto)
      · exact .inr (mem_cons_of_mem _ (mem_cons_of_mem _ hr))
    · exact hk token (mem_append_left _ hm)
    · simp only [mem_cons] at hm
      rcases hm with rfl | rfl | hm
      · exact hk _ (by simp)
      · exact hk _ (by simp)
      · exact he hm
  | case5 o t v xs hj hv ho => simp at h
  | case6 o t v xs hj hv ho ih =>
    have hwo : isOption v = false := by simpa [isOption] using ho
    obtain ⟨hf, hk, he, hw⟩ := ih h
    refine ⟨fun token hm => ?_, hk, fun hm => ?_, fun ht => hw ?_⟩
    · exact (hf token hm).imp_right (mem_cons_of_mem _)
    · rcases mem_cons.mp hm with rfl | hm
      · simp [isOption, terminator] at hwo
      · exact he hm
    · intro w hm
      rcases mem_append.mp hm with hold | hn
      · exact ht w hold
      · rw [mem_singleton.mp hn]
        exact hwo

/-- A title does not start with `-`. -/
theorem isOption_intercalate (h : ∀ w ∈ t, isOption w = false) :
    isOption (" ".intercalate t) = false := by
  cases t with
  | nil => decide
  | cons x xs =>
    have hf := h x mem_cons_self
    cases xs with
    | nil => rwa [String.intercalate_singleton]
    | cons s xs =>
      rw [String.intercalate_cons_cons, isOption, String.toList_append, String.toList_append]
      cases hc : x.toList with
      | nil => rfl
      | cons c ch => simpa [isOption, hc] using hf

/-- The supplied part claims none of the broker's flags, and it holds a bare `--` exactly when
one was supplied. -/
theorem suppliedArguments_ok (h : suppliedArguments command supplied = .ok tokens) :
    Unclaimed tokens ∧ (terminator ∈ tokens ↔ terminator ∈ supplied) := by
  have hr : ∀ flag ∈ brokerFlags, ¬ Names flag "create" := by decide
  unfold suppliedArguments at h
  split at h
  · rw [quickToCreate, check_ok] at h
    obtain ⟨hc, h⟩ := h
    rw [bind_ok] at h
    obtain ⟨⟨o, t⟩, hl, h⟩ := h
    rw [check_ok] at h
    obtain rfl := ok.inj h.2
    obtain ⟨hfr, -, he, hw⟩ := quickLoop_ok hl
    have ht := isOption_intercalate (hw (by simp))
    have hu := unclaimed_of_accepted hc
    constructor
    · intro token hm flag hf
      simp only [mem_append, mem_cons, not_mem_nil, or_false] at hm
      rcases hm with hm | rfl | rfl
      · rcases hfr token hm with hi | hs
        · rw [mem_singleton.mp hi]
          exact hr flag hf
        · exact hu token hs flag hf
      · revert flag
        decide
      · exact not_names_of_not_isOption ht
    · constructor
      · intro hm
        simp only [mem_append, mem_cons, not_mem_nil, or_false] at hm
        rcases hm with hm | hm | hm
        · rcases hfr _ hm with hi | hs
          · exact absurd hi (by decide)
          · exact hs
        · exact absurd hm (by decide)
        · rw [← hm] at ht
          exact absurd ht (by decide)
      · exact fun hm => mem_append_left _ (he hm)
  · rw [check_ok] at h
    obtain ⟨hc, h⟩ := h
    obtain rfl := ok.inj h
    constructor
    · intro token hm flag hf
      rcases mem_cons.mp hm with rfl | hm
      · exact hr flag hf
      · exact unclaimed_of_accepted hc token (mem_of_mem_filter hm) flag hf
    · simp [terminator]

/-! ### The broker's part -/

/-- A reference names a mutation, and neither ends the options nor is one. -/
theorem not_displaces_mutationExternalRef (ri mid : String) :
    ¬ Displaces (mutationExternalRef ri mid) := by
  have hp : isOption (mutationExternalRef ri mid) = false := by
    have hc : "louiselm-run/".toList = 'l' :: "ouiselm-run/".toList := by decide
    rw [mutationExternalRef, isOption, String.toList_append, String.toList_append,
      String.toList_append, hc]
    rfl
  rintro (he | hf)
  · rw [he] at hp
    exact absurd hp (by decide)
  · have ho : ∀ flag ∈ brokerFlags, isOption flag = true := by decide
    have hn := isOption_of_flagOf rfl (ho _ hf)
    rw [hp] at hn
    exact absurd hn (by decide)

/-- A flag whose options are kept has one value. -/
theorem OptionsKept.length_valuesOf (h : OptionsKept actor er database line)
    (hf : flag ∈ brokerFlags) : (valuesOf flag line).length = 1 := by
  simp only [brokerFlags, mem_cons, not_mem_nil, or_false] at hf
  rcases hf with rfl | rfl | rfl
  · rw [h.actor]
    rfl
  · rw [h.externalRef]
    rfl
  · rw [h.database]
    rfl

/-- Options are not kept where a flag is named twice before a bare `--`. -/
theorem OptionsKept.countP_le (h : OptionsKept actor er database (tokens ++ line))
    (he : terminator ∉ tokens) (hf : flag ∈ brokerFlags) : tokens.countP (Names flag ·) ≤ 1 := by
  have ho := h.length_valuesOf hf
  rw [length_valuesOf_append he] at ho
  omega

/-- A token that displaces the options names a flag, unless it ends them. -/
theorem exists_names_of_displaces (h : Displaces token) (he : terminator ≠ token) :
    ∃ flag ∈ brokerFlags, Names flag token := by
  have ho : ∀ flag ∈ brokerFlags, isOption flag = true := by decide
  rcases h with heq | hf
  · exact absurd heq.symm he
  · exact ⟨flagOf token, hf, isOption_of_flagOf rfl (ho _ hf), rfl⟩

/-- The broker's own options are kept where its values neither end the options nor name one. -/
theorem optionsKept_brokerArguments (href : ¬ Displaces er) :
    OptionsKept actor er database (brokerArguments actor er database) ↔
      ¬ Displaces actor ∧ ¬ Displaces database := by
  have hthree : ∀ flag ∈ brokerFlags,
      1 ≤ ["--actor", "--external-ref", "--db"].countP (Names flag ·) := by decide
  have hunnamed : ∀ token, ¬ Displaces token → "--" ≠ token ∧
      ∀ flag ∈ brokerFlags, ¬ Names flag token :=
    fun token ht => ⟨fun heq => ht (.inl heq.symm), fun flag hflag hna => ht (.inr (hna.2 ▸ hflag))⟩
  obtain ⟨h, hno⟩ := hunnamed _ href
  simp only [countP_cons, countP_nil] at hthree
  constructor
  · intro hkept
    have ha : ¬ Displaces actor := by
      intro ha
      by_cases hend : "--" = actor
      · subst hend
        have hnone : valuesOf "--external-ref" (["--actor", terminator] ++
            ["--external-ref", er, "--db", database, "--json"]) = [] :=
          valuesOf_append_of_mem (by simp) (by decide)
        exact absurd (hkept.externalRef.symm.trans hnone) (by simp)
      · obtain ⟨flag, hflag, hna⟩ := exists_names_of_displaces ha hend
        have hsplit : OptionsKept actor er database
            (["--actor", actor, "--external-ref", er, "--db"] ++ [database, "--json"]) :=
          hkept
        have hcount := hsplit.countP_le (by simp [hend, h, terminator]) hflag
        have hone := hthree flag hflag
        simp only [countP_cons, countP_nil, hna, decide_true, if_true] at hcount
        omega
    refine ⟨ha, fun hd => ?_⟩
    obtain ⟨hend, hn⟩ := hunnamed _ ha
    by_cases hbare : "--" = database
    · subst hbare
      have hnone : valuesOf "--db" (["--actor", actor, "--external-ref", er] ++
          ["--db", "--", "--json"]) = [none] := by
        have hdb : "--db" ∈ brokerFlags := by decide
        rw [valuesOf_append, valuesOf_cons (by decide) (by decide)]
        · rfl
        · simp [hend, h, terminator]
        · simp only [forall_mem_cons]
          exact ⟨by decide, hn _ hdb, by decide, hno _ hdb, by simp⟩
      exact absurd (hkept.database.symm.trans hnone) (by simp)
    · obtain ⟨flag, hflag, hna⟩ := exists_names_of_displaces hd hbare
      have hsplit : OptionsKept actor er database
          (["--actor", actor, "--external-ref", er, "--db", database] ++ ["--json"]) :=
        hkept
      have hcount := hsplit.countP_le (by simp [hend, h, hbare, terminator]) hflag
      have hone := hthree flag hflag
      simp only [countP_cons, countP_nil, hna, decide_true, if_true] at hcount
      omega
  · rintro ⟨ha, hd⟩
    obtain ⟨hend, hn⟩ := hunnamed _ ha
    obtain ⟨hbare, hnodb⟩ := hunnamed _ hd
    have hA : "--actor" ∈ brokerFlags := by decide
    have hE : "--external-ref" ∈ brokerFlags := by decide
    have hD : "--db" ∈ brokerFlags := by decide
    constructor
    · refine valuesOf_eq_singleton [] actor ["--external-ref", er, "--db", database, "--json"]
        (by decide) (by decide) (by decide) (by simp [hend, h, hbare, terminator]) ?_
      simp only [nil_append, forall_mem_cons]
      exact ⟨hn _ hA, by decide, hno _ hA, by decide, hnodb _ hA, by decide, by simp⟩
    · refine valuesOf_eq_singleton ["--actor", actor] er ["--db", database, "--json"]
        (by decide) (by decide) (by decide) (by simp [hend, h, hbare, terminator]) ?_
      simp only [cons_append, nil_append, forall_mem_cons]
      exact ⟨by decide, hn _ hE, hno _ hE, by decide, hnodb _ hE, by decide, by simp⟩
    · refine valuesOf_eq_singleton ["--actor", actor, "--external-ref", er] database
        ["--json"] (by decide) (by decide) (by decide) (by simp [hend, h, hbare, terminator]) ?_
      simp only [cons_append, nil_append, forall_mem_cons]
      exact ⟨by decide, hn _ hD, by decide, hno _ hD, hnodb _ hD, by decide, by simp⟩

/-- An accepted command keeps the broker's options, once each and with the broker's values,
exactly when no bare `--` was supplied and neither the actor nor the database reads as one of
these tokens. -/
theorem optionsKept_iff {runId mutationId : String}
    (h : generationArguments command supplied actor (mutationExternalRef runId mutationId)
      database = .ok line) :
    OptionsKept actor (mutationExternalRef runId mutationId) database line ↔
      terminator ∉ supplied ∧ ¬ Displaces actor ∧ ¬ Displaces database := by
  rw [generationArguments, bind_ok] at h
  obtain ⟨tokens, hs, h⟩ := h
  obtain rfl := ok.inj h
  obtain ⟨hu, hend⟩ := suppliedArguments_ok hs
  rw [← hend, ← optionsKept_brokerArguments (not_displaces_mutationExternalRef runId mutationId)]
  have hactor : ∀ token ∈ tokens, ¬ Names "--actor" token := fun token hmem =>
    hu token hmem _ (by decide)
  have hreference : ∀ token ∈ tokens, ¬ Names "--external-ref" token := fun token hmem =>
    hu token hmem _ (by decide)
  have hdatabase : ∀ token ∈ tokens, ¬ Names "--db" token := fun token hmem =>
    hu token hmem _ (by decide)
  constructor
  · intro hkept
    have ht : terminator ∉ tokens := fun hmem => by
      have hnone := hkept.actor
      rw [valuesOf_append_of_mem hmem hactor] at hnone
      simp at hnone
    refine ⟨ht, ?_, ?_, ?_⟩
    · rw [← valuesOf_append ht hactor]
      exact hkept.actor
    · rw [← valuesOf_append ht hreference]
      exact hkept.externalRef
    · rw [← valuesOf_append ht hdatabase]
      exact hkept.database
  · rintro ⟨ht, hkept⟩
    constructor
    · rw [valuesOf_append ht hactor]
      exact hkept.actor
    · rw [valuesOf_append ht hreference]
      exact hkept.externalRef
    · rw [valuesOf_append ht hdatabase]
      exact hkept.database

/-- A plain creation keeps the broker's options. -/
theorem optionsKept_create : OptionsKept "codex/session-1" (mutationExternalRef "run" "mutation")
    "/beads.db" ["create", "--title", "Work", "--actor", "codex/session-1", "--external-ref",
      mutationExternalRef "run" "mutation", "--db", "/beads.db", "--json"] := by
  have haccepted : generationArguments "create" ["--title", "Work"] "codex/session-1"
      (mutationExternalRef "run" "mutation") "/beads.db" = .ok ["create", "--title", "Work",
        "--actor", "codex/session-1", "--external-ref", mutationExternalRef "run" "mutation",
        "--db", "/beads.db", "--json"] := rfl
  exact (optionsKept_iff haccepted).mpr (by decide)

/-- A bare `--` among the supplied arguments is accepted, and the created issue has no reference. -/
theorem bare_terminator_displaces : ∃ line,
    generationArguments "create" ["--title", "Work", "--"] "codex/session-1"
      (mutationExternalRef "run" "mutation") "/beads.db" = .ok line ∧
    valuesOf "--external-ref" line = [] ∧
    ¬ OptionsKept "codex/session-1" (mutationExternalRef "run" "mutation") "/beads.db" line := by
  refine ⟨_, rfl, by decide +kernel, fun h => ?_⟩
  exact absurd h.externalRef (by decide +kernel)

end Louiselm.Capture
