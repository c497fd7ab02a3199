import Mathlib.Data.List.Basic
import Mathlib.Data.List.Infix

/-!
# Occurrences of a pattern

Where a pattern occurs in a list, from the left, each occurrence behind the previous one. Every
place at which the pattern stands is inside one of them.
-/

namespace Louiselm.Base
open List

variable {α : Type} [DecidableEq α]

/-- The positions of a pattern in a list whose first position is `start`. -/
def occurrences (pattern : List α) (start : Nat) (items : List α) : List Nat :=
  match items with
  | [] => []
  | item :: rest =>
    if pattern.isPrefixOf (item :: rest) then
      start :: occurrences pattern (start + max pattern.length 1) (rest.drop (pattern.length - 1))
    else occurrences pattern (start + 1) rest
termination_by items.length
decreasing_by
  · simp only [length_drop, length_cons]
    omega
  · simp

/-- Wherever the pattern stands, one of its occurrences reaches there. -/
theorem exists_mem_occurrences {p xs pre l : List α} (s : Nat) (hne : p ≠ [])
    (h : xs = pre ++ p ++ l) : ∃ pos ∈ occurrences p s xs,
      pos ≤ s + pre.length ∧ s + pre.length < pos + p.length := by
  have ho : 0 < p.length := length_pos_iff.mpr hne
  induction s, xs using occurrences.induct p generalizing pre with
  | case1 s =>
    have he := congrArg List.length h
    simp only [length_nil, length_append] at he
    omega
  | case2 s it r hp ih =>
    rw [occurrences, if_pos hp]
    by_cases hs : pre.length < p.length
    · exact ⟨s, mem_cons_self, by omega, by omega⟩
    · have hd : r.drop (p.length - 1) = pre.drop p.length ++ p ++ l := by
        have hr : r.drop (p.length - 1) = (it :: r).drop p.length := by
          obtain ⟨n, hn⟩ := Nat.exists_eq_add_of_lt ho
          rw [hn, Nat.zero_add, drop_succ_cons, Nat.add_sub_cancel]
        rw [hr, h, append_assoc, drop_append_of_le_length (by omega), append_assoc]
      obtain ⟨pos, hm, hl, ht⟩ := ih hd
      rw [length_drop] at hl ht
      exact ⟨pos, mem_cons_of_mem _ hm, by omega, by omega⟩
  | case3 s it r hp ih =>
    rw [occurrences, if_neg hp]
    cases pre with
    | nil =>
      rw [nil_append] at h
      exact absurd (List.isPrefixOf_iff_prefix.mpr ⟨l, h.symm⟩) hp
    | cons x pre =>
      obtain ⟨-, hr⟩ := List.cons.inj h
      obtain ⟨pos, hm, hl, ht⟩ := ih hr
      rw [length_cons]
      exact ⟨pos, hm, by omega, by omega⟩

end Louiselm.Base
