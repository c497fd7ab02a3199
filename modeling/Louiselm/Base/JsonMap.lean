import Mathlib.Data.String.Basic
import Louiselm.Base.Json

/-!
# JSON objects read as maps

The keys of an object read as a map stand in order, and each has the last value that the text
gives it.
-/

namespace Louiselm.Base.Json
open List

variable {key : String} {value : Json} {ms : List (String × Json)}

theorem mem_keys_insertAbsent {n : String} : n ∈ (insertAbsent key value ms).map Prod.fst ↔
      n = key ∨ n ∈ ms.map Prod.fst := by
  induction ms with
  | nil => simp [insertAbsent]
  | cons x xs ih =>
    obtain ⟨k, v⟩ := x
    rw [insertAbsent]
    split
    · simp
    · split
      · next hk =>
        subst hk
        simp
      · rw [map_cons, mem_cons, ih, map_cons, mem_cons]
        exact or_left_comm

/-- An object read as a map has its keys in order. -/
theorem sorted_insertAbsent (h : (ms.map Prod.fst).Pairwise (· < ·)) :
    ((insertAbsent key value ms).map Prod.fst).Pairwise (· < ·) := by
  induction ms with
  | nil => simp [insertAbsent]
  | cons x xs ih =>
    obtain ⟨k, v⟩ := x
    have hc := pairwise_cons.mp h
    rw [insertAbsent]
    split
    · next hl =>
      refine pairwise_cons.mpr ⟨?_, h⟩
      exact forall_mem_cons.mpr ⟨hl, fun n hn => lt_trans hl (hc.1 n hn)⟩
    · next hl =>
      split
      · exact h
      · next he =>
        refine pairwise_cons.mpr ⟨fun n hn => ?_, ih hc.2⟩
        rcases mem_keys_insertAbsent.mp hn with rfl | hn
        · exact lt_of_le_of_ne (not_lt.mp hl) (Ne.symm he)
        · exact hc.1 n hn

theorem lookup_insertAbsent (h : (ms.map Prod.fst).Pairwise (· < ·)) (n : String) :
    (insertAbsent key value ms).lookup n = (ms.lookup n).or ([(key, value)].lookup n) := by
  induction ms with
  | nil => simp [insertAbsent]
  | cons x xs ih =>
    obtain ⟨k, v⟩ := x
    have hc := pairwise_cons.mp h
    rw [insertAbsent]
    split
    · next hl =>
      -- nothing later has the key that goes in front
      by_cases hn : n = key
      · subst hn
        have ho : ((k, v) :: xs).lookup n = none := by
          rw [lookup_eq_none_iff]
          refine forall_mem_cons.mpr ⟨bne_iff_ne.mpr (ne_of_lt hl), fun m hm => ?_⟩
          exact bne_iff_ne.mpr (ne_of_lt (lt_trans hl (hc.1 m.1 (mem_map_of_mem hm))))
        rw [ho]
        simp
      · simp [lookup_cons, beq_false_of_ne hn]
    · split
      · next hk =>
        subst hk
        rw [lookup_cons, lookup_cons]
        cases hn : n == key <;> simp
      · rw [lookup_cons, lookup_cons, ih hc.2]
        cases hn : n == k <;> simp

theorem sorted_normalizeMembers (ms : List (String × Json)) :
    ((normalizeMembers ms).map Prod.fst).Pairwise (· < ·) := by
  induction ms with
  | nil => exact .nil
  | cons x xs ih => exact sorted_insertAbsent ih

/-- A map keeps the last value of each key. -/
theorem lookup_normalizeMembers (ms : List (String × Json)) (n : String) :
    (normalizeMembers ms).lookup n = (ms.reverse.lookup n).map normalize := by
  induction ms with
  | nil => rfl
  | cons x xs ih =>
    obtain ⟨key, value⟩ := x
    rw [normalizeMembers, lookup_insertAbsent (sorted_normalizeMembers xs), ih,
      reverse_cons, lookup_append, Option.map_or]
    congr 1
    rw [lookup_cons, lookup_cons]
    cases n == key <;> rfl

/-- A document read as a map has the members that it has, read so. -/
theorem get_normalize (d : Json) (n : String) : d.normalize.get n = (d.get n).map normalize := by
  cases d with
  | obj ms =>
    have hn : ((normalizeMembers ms).map Prod.fst).Nodup :=
      (sorted_normalizeMembers ms).imp ne_of_lt
    rw [normalize, get, get, ← lookup_normalizeMembers,
      lookup_perm (reverse_perm _) (((reverse_perm _).map _).nodup_iff.mpr hn)]
  | _ => rfl

end Louiselm.Base.Json
