import Louiselm.Base.JsonCompact
import Louiselm.Base.JsonMap
import Louiselm.Provider.Framing

/-!
# Readings of one request body

`skills-core/src/provider_request/framing.rs`, `policy_fields`: a JSON reader keeps the first or
the last of repeated keys. The fields that policy reads are compared under both; only the top
level is checked for repeated keys.
-/

namespace Louiselm.Provider
open Base Option Json Compact Except

/-- Which of the members with one key a reader keeps. -/
inductive Duplicates where
  | first
  | last
deriving DecidableEq

/-- The member of an object that a reader finds under a key. -/
def Duplicates.member (rule : Duplicates) (key : String) : Json → Option Json
  | .obj members =>
    match rule with
    | .first => members.lookup key
    | .last => members.reverse.lookup key
  | _ => none

/-- What policy is about, as a reader of a body finds it. -/
structure PolicyReading where
  stream : Option Json
  model : Option Json
  effort : Option Json

/-- The fields of a document under a rule for repeated keys. -/
def Duplicates.reading (rule : Duplicates) (document : Json) : PolicyReading where
  stream := rule.member "stream" document
  model := rule.member "model" document
  effort := (rule.member "reasoning" document).bind (rule.member "effort")

/-- A body says to every reader that it streams, and this model and effort. -/
def Unambiguous (fmt : JsonFormat) (body : Bytes) (model : String) (effort : Option String) :
    Prop :=
  ∃ document, fmt.readBytes body = some document ∧ ∀ rule : Duplicates,
    rule.reading document = ⟨some (.bool true), some (.str model), effort.map .str⟩

/-- The reasoning object of a body, if it has one, does not give `effort` two values of which the
first and the last differ. -/
def OneEffort (fmt : JsonFormat) (body : Bytes) : Prop :=
  ∀ members reasoning, fmt.readBytes body = some (.obj members) →
    members.lookup "reasoning" = some reasoning →
      Duplicates.first.member "effort" reasoning = Duplicates.last.member "effort" reasoning

namespace Duplicates

theorem member_last (key : String) (d : Json) : Duplicates.last.member key d = d.get key := by
  cases d <;> rfl

/-- Where no key is repeated every reader finds the same. -/
theorem member_of_nodup (r : Duplicates) {ms : List (String × Json)} (h : (ms.map Prod.fst).Nodup)
    (key : String) : r.member key (.obj ms) = (obj ms).get key := by
  cases r with
  | last => rfl
  | first => exact lookup_perm (List.reverse_perm ms).symm h key

end Duplicates

variable {fmt : JsonFormat}

private theorem map_normalize_bool {v : Option Json} {b : Bool}
    (h : v.map normalize = some (.bool b)) : v = some (.bool b) := by
  obtain ⟨f, rfl, hf⟩ := map_eq_some_iff.mp h
  cases f <;> simp_all [Json.normalize]

private theorem map_normalize_str {v : Option Json} {t : String}
    (h : v.map normalize = some (.str t)) : v = some (.str t) := by
  obtain ⟨f, rfl, hf⟩ := map_eq_some_iff.mp h
  cases f <;> simp_all [Json.normalize]

variable {effort : Option String}

/-- What the effort is: that of the last `effort` of the reasoning object. -/
theorem effortField_normalize {d : Json} (h : effortField d.normalize = .ok effort) :
    (d.get "reasoning").bind (·.get "effort") = effort.map .str := by
  unfold effortField at h
  rw [get_normalize] at h
  cases hr : d.get "reasoning" with
  | none =>
    rw [hr] at h
    rw [← ok.inj h]
    rfl
  | some r =>
    rw [hr, map_some] at h
    cases r with
    | obj ms =>
      rw [Json.normalize] at h
      dsimp only at h
      rw [← Json.normalize, get_normalize] at h
      rw [bind_some]
      cases he : (obj ms).get "effort" with
      | none =>
        rw [he] at h
        rw [← ok.inj h]
        rfl
      | some v =>
        rw [he, map_some] at h
        cases v with
        | str t =>
          simp only [Json.normalize] at h
          split at h
          · rw [← ok.inj h]
            rfl
          · contradiction
        | _ => simp [Json.normalize] at h
    | _ => simp [Json.normalize] at h

/-- What an accepted body says, keeping the last of repeated keys; its top level repeats none. -/
theorem policyFields_ok {b : Bytes} {m : String} (h : policyFields fmt b = .ok (m, effort)) :
    ∃ ms, fmt.readBytes b = some (.obj ms) ∧ (ms.map Prod.fst).Nodup ∧
      (obj ms).get "stream" = some (.bool true) ∧ (obj ms).get "model" = some (.str m) ∧
      ((obj ms).get "reasoning").bind (·.get "effort") = effort.map .str := by
  unfold policyFields at h
  split at h
  · next ms hr =>
    simp only [check_ok, require_ok, decide_eq_true_eq] at h
    obtain ⟨-, hn, h⟩ := h
    refine ⟨ms, hr, hn, ?_⟩
    split at h
    · next hs =>
      split at h
      · next t hm =>
        simp only [check_ok] at h
        obtain ⟨f, he, h⟩ := bind_ok.mp h.2
        obtain ⟨rfl, rfl⟩ := Prod.mk.inj (ok.inj h)
        rw [get_normalize] at hs hm
        exact ⟨map_normalize_bool hs, map_normalize_str hm, effortField_normalize he⟩
      · contradiction
    · contradiction
  · contradiction

/-- An accepted body says the same to every reader exactly when its reasoning object does not give
two different efforts. -/
theorem policyFields_unambiguous_iff {body : Bytes} {model : String} {effort : Option String}
    (h : policyFields fmt body = .ok (model, effort)) :
    Unambiguous fmt body model effort ↔ OneEffort fmt body := by
  obtain ⟨ms, hre, hn, hs, hm, he⟩ := policyFields_ok h
  have hrd : ∀ ru : Duplicates, ru.reading (.obj ms) = ⟨some (.bool true), some (.str model),
        ((obj ms).get "reasoning").bind (ru.member "effort")⟩ := by
    intro ru
    rw [Duplicates.reading, ru.member_of_nodup hn, ru.member_of_nodup hn,
      ru.member_of_nodup hn, hs, hm]
  have hl : ((obj ms).get "reasoning").bind (Duplicates.last.member "effort") =
      effort.map .str := by
    rw [← he]
    exact congrArg _ (funext (Duplicates.member_last "effort"))
  constructor
  · rintro ⟨d, hd, ha⟩ ms' r hr' hr
    obtain rfl := some.inj (hre.symm.trans hd)
    obtain rfl := obj.inj (some.inj (hre.symm.trans hr'))
    have hf := congrArg PolicyReading.effort ((hrd .first).symm.trans (ha .first))
    have hg : (obj ms).get "reasoning" = some r :=
      (Duplicates.first.member_of_nodup hn "reasoning").symm.trans hr
    rw [hg] at hf hl
    exact hf.trans hl.symm
  · intro ho
    refine ⟨.obj ms, hre, fun ru => ?_⟩
    rw [hrd ru, ← hl]
    congr 1
    cases hr : (obj ms).get "reasoning" with
    | none => rfl
    | some r =>
      cases ru with
      | last => rfl
      | first =>
        refine ho ms r hre ?_
        exact (Duplicates.first.member_of_nodup hn "reasoning").trans hr

/-! ### A repeated effort -/

/-- A request whose reasoning object gives an effort twice. -/
def repeatedEffort (first last : String) : Bytes :=
  utf8 ("\x7b\"model\":\"m\",\"stream\":true,\"reasoning\":\x7b\"effort\":\"" ++ first ++
    "\",\"effort\":\"" ++ last ++ "\"\x7d\x7d")

private def textOf : Json → Option String
  | .str text => some text
  | _ => none

theorem policyFields_unambiguous_sample :
    policyFields format (repeatedEffort "low" "low") = .ok ("m", some "low") ∧
      (Unambiguous format (repeatedEffort "low" "low") "m" (some "low") ↔
        OneEffort format (repeatedEffort "low" "low")) := by
  have ha : policyFields format (repeatedEffort "low" "low") =
      .ok ("m", some "low") := by decide +kernel
  exact ⟨ha, policyFields_unambiguous_iff ha⟩

/-- Policy sees the low effort of a body in which another reader finds the high one. -/
theorem repeated_effort_ambiguous :
    policyFields format (repeatedEffort "high" "low") = .ok ("m", some "low") ∧
      ¬ Unambiguous format (repeatedEffort "high" "low") "m" (some "low") := by
  refine ⟨by decide +kernel, ?_⟩
  rintro ⟨d, hr, hs⟩
  have hf : ((format.readBytes (repeatedEffort "high" "low")).bind fun d =>
      (Duplicates.first.reading d).effort.bind textOf) = some "high" := by decide +kernel
  rw [hr, bind_some, hs .first] at hf
  exact absurd hf (by decide)

end Louiselm.Provider
