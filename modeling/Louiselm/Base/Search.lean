import Mathlib.Data.List.Basic
import Mathlib.Order.Lattice

/-!
# Binary search

The search of a sorted list that halves a window until one item is left. What it finds is
there in any case; that it finds what is there takes a sorted list.
-/

namespace Louiselm.Base
open List

variable {α : Type} [LinearOrder α]

/-- Halve the window at most so often, and look at the item that is left. -/
def searchWindow (target : α) : Nat → List α → Bool
  | 0, window => window.head? == some target
  | steps + 1, window =>
    if window.length ≤ 1 then window.head? == some target
    else
      let half := window.length / 2
      if (window[half]?).any (target < ·) then
        searchWindow target steps (window.take (window.length - half))
      else searchWindow target steps (window.drop half)

/-- Whether a binary search finds an item. -/
def binarySearch (items : List α) (target : α) : Bool := searchWindow target items.length items

variable {t : α} {w : List α}

private theorem mem_of_head (h : (w.head? == some t) = true) : t ∈ w :=
  mem_of_head? (beq_iff_eq.mp h)

private theorem mem_of_searchWindow {s : Nat} (h : searchWindow t s w = true) : t ∈ w := by
  induction s generalizing w with
  | zero => exact mem_of_head h
  | succ s ih =>
    rw [searchWindow] at h
    split at h
    · exact mem_of_head h
    · dsimp only at h
      split at h
      · exact mem_of_mem_take (ih h)
      · exact mem_of_mem_drop (ih h)

/-- What a binary search finds is there, in whatever order the items are. -/
theorem mem_of_binarySearch {xs : List α} (h : binarySearch xs t = true) : t ∈ xs :=
  mem_of_searchWindow h

private theorem head_of_mem (hl : w.length ≤ 1) (h : t ∈ w) : (w.head? == some t) = true := by
  obtain ⟨x, rfl⟩ := length_eq_one_iff.mp (le_antisymm hl (length_pos_of_mem h))
  rw [mem_singleton.mp h]
  simp

/-- The half that is kept has the item, when the window has it and is sorted. -/
private theorem mem_half {half : Nat} (hh : half < w.length) (hs : w.Pairwise (· < ·)) (h : t ∈ w) :
    if t < w[half] then t ∈ w.take half else t ∈ w.drop half := by
  obtain ⟨i, hi, rfl⟩ := mem_iff_getElem.mp h
  split
  · next hl =>
    have hb : i < half := by
      by_contra hg
      rcases Nat.eq_or_lt_of_le (Nat.le_of_not_lt hg) with rfl | ha
      · exact lt_irrefl _ hl
      · exact lt_asymm hl (pairwise_iff_getElem.mp hs half i hh hi ha)
    exact mem_take_iff_getElem.mpr ⟨i, by omega, rfl⟩
  · next hg =>
    have ha : half ≤ i := by
      by_contra hl
      exact hg (pairwise_iff_getElem.mp hs i half hi hh (Nat.lt_of_not_le hl))
    refine mem_drop_iff_getElem.mpr ⟨i - half, by omega, ?_⟩
    congr 1
    omega

private theorem searchWindow_of_mem {s : Nat} (ht : w.length ≤ s + 1)
    (hs : w.Pairwise (· < ·)) (h : t ∈ w) : searchWindow t s w = true := by
  induction s generalizing w with
  | zero => exact head_of_mem ht h
  | succ s ih =>
    rw [searchWindow]
    split
    · next hl => exact head_of_mem hl h
    · next hl =>
      have hh : w.length / 2 < w.length := by omega
      have hk := mem_half hh hs h
      simp only [List.getElem?_eq_getElem hh, Option.any_some, decide_eq_true_eq]
      split
      · next hlt =>
        rw [if_pos hlt] at hk
        refine ih ?_ (hs.sublist (take_sublist _ _)) ?_
        · rw [length_take]
          omega
        · exact (take_subset_take_left _ (by omega)) hk
      · next hg =>
        rw [if_neg hg] at hk
        refine ih ?_ (hs.sublist (drop_sublist _ _)) hk
        rw [length_drop]
        omega

/-- A binary search of a sorted list finds exactly what is there. -/
theorem binarySearch_iff {xs : List α} (hs : xs.Pairwise (· < ·)) :
    binarySearch xs t = true ↔ t ∈ xs :=
  ⟨mem_of_binarySearch, searchWindow_of_mem (Nat.le_succ _) hs⟩

end Louiselm.Base
