import Mathlib.Data.List.Infix
import Mathlib.Order.Bounds.Basic

/-!
# Longest common subsequences

The length of a longest common subsequence of two lists, by its recursion on their heads.
-/

namespace Louiselm.Base

variable {α : Type}

/-- The lengths of the common subsequences of two lists. -/
def commonLengths (xs ys : List α) : Set Nat :=
  {n | ∃ common : List α, common.Sublist xs ∧ common.Sublist ys ∧ common.length = n}

/-- A number is the length of a longest common subsequence. -/
def IsLongestCommon (n : Nat) (xs ys : List α) : Prop := IsGreatest (commonLengths xs ys) n

namespace IsLongestCommon

variable {m n : Nat} {xs ys : List α} {x y : α}

/-- There is one length only. -/
theorem unique (h : IsLongestCommon m xs ys) (h' : IsLongestCommon n xs ys) : m = n :=
  IsGreatest.unique h h'

theorem nil_left (ys : List α) : IsLongestCommon 0 [] ys := by
  refine ⟨⟨[], List.Sublist.refl _, List.nil_sublist _, rfl⟩, ?_⟩
  rintro _ ⟨c, hl, -, rfl⟩
  rw [List.eq_nil_of_sublist_nil hl]
  exact Nat.le_refl 0

theorem nil_right (xs : List α) : IsLongestCommon 0 xs [] := by
  refine ⟨⟨[], List.nil_sublist _, List.Sublist.refl _, rfl⟩, ?_⟩
  rintro _ ⟨c, -, hr, rfl⟩
  rw [List.eq_nil_of_sublist_nil hr]
  exact Nat.le_refl 0

/-- An equal head is in a longest common subsequence. -/
theorem cons_cons (h : IsLongestCommon n xs ys) (x : α) :
    IsLongestCommon (n + 1) (x :: xs) (x :: ys) := by
  obtain ⟨⟨c, hl, hr, he⟩, hg⟩ := h
  constructor
  · refine ⟨x :: c, hl.cons_cons x, hr.cons_cons x, ?_⟩
    rw [List.length_cons, he]
  · rintro _ ⟨o, ho, hor, rfl⟩
    have ht : o.tail.length ≤ n :=
      hg ⟨o.tail, ho.tail, hor.tail, rfl⟩
    rw [List.length_tail] at ht
    omega

/-- Of two different heads one is not in a common subsequence. -/
theorem cons_ne (hn : x ≠ y) (hl : IsLongestCommon m xs (y :: ys))
    (hr : IsLongestCommon n (x :: xs) ys) : IsLongestCommon (max m n) (x :: xs) (y :: ys) := by
  constructor
  · rcases Nat.le_total n m with hle | hle
    · obtain ⟨c, hs, hs', he⟩ := hl.1
      rw [Nat.max_eq_left hle]
      exact ⟨c, hs.cons x, hs', he⟩
    · obtain ⟨c, hs, hs', he⟩ := hr.1
      rw [Nat.max_eq_right hle]
      exact ⟨c, hs, hs'.cons y, he⟩
  · rintro _ ⟨c, hs, hs', rfl⟩
    cases hs with
    | cons _ hs =>
      exact Nat.le_trans (hl.2 ⟨c, hs, hs', rfl⟩) (Nat.le_max_left m n)
    | cons_cons _ hs =>
      cases hs' with
      | cons _ hs' =>
        exact Nat.le_trans (hr.2 ⟨_, hs.cons_cons x, hs', rfl⟩) (Nat.le_max_right m n)
      | cons_cons _ hs' => exact absurd rfl hn

end IsLongestCommon

end Louiselm.Base
