import Louiselm.Usage.Counted

/-!
# The tables and the order of replacement

`usage-cli/src/store.rs`: after any replacements the tables hold the last facts of every source,
the sources in the order in which they were last replaced. All that is derived from them is the
same in every such order, but for the list of a call's sources.
-/

namespace Louiselm.Usage
open Base.Rows List

/-! ### Replacements -/

/-- The replaced sources, in the order of their last replacements. -/
def lastReplaced (log : List (String × Parsed)) : List String :=
  log.foldl (fun order entry => order.filter (· ≠ entry.1) ++ [entry.1]) []

/-- The facts that a source was last replaced with. -/
def latest (log : List (String × Parsed)) : String → Option Parsed :=
  log.foldl (fun known entry => Function.update known entry.1 (some entry.2)) fun _ => none

/-- The rows of the last facts of every source. -/
def rowsOf {α : Type} (select : Parsed → List α) (log : List (String × Parsed)) :
    List (String × α) :=
  (lastReplaced log).flatMap fun id =>
    (((latest log id).map select).getD []).map fun fact => (id, fact)

theorem lastReplaced_append (log : List (String × Parsed)) (e : String × Parsed) :
    lastReplaced (log ++ [e]) = (lastReplaced log).filter (· ≠ e.1) ++ [e.1] := by
  rw [lastReplaced, foldl_append]
  rfl

theorem latest_append (log : List (String × Parsed)) (e : String × Parsed) :
    latest (log ++ [e]) = Function.update (latest log) e.1 (some e.2) := by
  rw [latest, foldl_append]
  rfl

theorem nodup_lastReplaced (log : List (String × Parsed)) : (lastReplaced log).Nodup := by
  induction log using List.reverseRecOn with
  | nil => exact nodup_nil
  | append_singleton log e ih =>
    rw [lastReplaced_append]
    refine nodup_append.mpr ⟨ih.filter _, nodup_singleton _, ?_⟩
    intro id hi o ho heq
    rw [heq, mem_singleton.mp ho] at hi
    simp at hi

theorem mem_lastReplaced (log : List (String × Parsed)) (id : String) :
    id ∈ lastReplaced log ↔ (latest log id).isSome := by
  induction log using List.reverseRecOn with
  | nil => simp [lastReplaced, latest]
  | append_singleton log e ih =>
    rw [lastReplaced_append, latest_append, Function.update_apply, mem_append,
      mem_singleton, mem_filter, ih]
    by_cases heq : id = e.1
    · simp [heq]
    · simp [heq]

/-- Replacing facts puts their rows in place of those that the source had. -/
theorem rowsOf_append {α : Type} (se : Parsed → List α) (log : List (String × Parsed)) (id : String)
    (p : Parsed) : rowsOf se (log ++ [(id, p)]) = Index.put id (se p) (rowsOf se log) := by
  have ho : ∀ o : List String, (o.filter (· ≠ id)).flatMap (fun s =>
          (((latest (log ++ [(id, p)]) s).map se).getD []).map fun f => (s, f)) =
        (o.flatMap fun s =>
          (((latest log s).map se).getD []).map fun f => (s, f)).filter fun row => row.1 ≠ id := by
    intro o
    induction o with
    | nil => rfl
    | cons s o ih =>
      rw [flatMap_cons, filter_append, ← ih, filter_cons]
      by_cases hs : s = id
      · have hn : ((((latest log s).map se).getD []).map fun f => (s, f)).filter
            (fun row => row.1 ≠ id) = [] := by
          refine filter_eq_nil_iff.mpr fun row hr => ?_
          obtain ⟨f, -, rfl⟩ := mem_map.mp hr
          simp [hs]
        rw [if_neg (by simp [hs]), hn, nil_append]
      · have ha : ((((latest log s).map se).getD []).map fun f => (s, f)).filter
            (fun row => row.1 ≠ id) = (((latest log s).map se).getD []).map fun f => (s, f) := by
          refine filter_eq_self.mpr fun row hr => ?_
          obtain ⟨f, -, rfl⟩ := mem_map.mp hr
          simp [hs]
        rw [if_pos (by simp [hs]), flatMap_cons, ha, latest_append, Function.update_of_ne hs]
  rw [rowsOf, lastReplaced_append, flatMap_append, ho]
  simp [Index.put, rowsOf, latest_append]

/-- One source was last replaced before another. -/
def Precedes (log : List (String × Parsed)) (first second : String) : Prop :=
  [first, second].Sublist (lastReplaced log)

/-! ### What the tables hold -/

/-- The tables after some replacements. -/
structure Built (digests : Digests) (tables : Tables) (log : List (String × Parsed)) : Prop where
  sessions : tables.sessions = rowsOf (·.sessions) log
  calls : tables.calls = rowsOf (·.calls) log
  turns : tables.turns = rowsOf (·.turns) log
  distinct : (tables.sources.map (·.id)).Nodup
  known : ∀ id ∈ lastReplaced log, ∃ row ∈ tables.sources, row.id = id
  named : ∀ row ∈ tables.sources, row.id = sourceId digests row.format row.path

theorem Built.sourced {ds : Digests} {t : Tables} {log : List (String × Parsed)}
    (h : Built ds t log) : t.Sourced where
  distinct := h.distinct
  known := by
    intro x hi
    rw [h.calls] at hi
    obtain ⟨id, hd, hm⟩ := mem_flatMap.mp hi
    obtain ⟨f, -, rfl⟩ := mem_map.mp hm
    exact h.known id hd

end Louiselm.Usage
