import Mathlib.Data.List.AList
import Mathlib.Data.List.Sort

/-!
# Numbered create-once files

A directory of files that are named by number, created in order and never changed or removed.
-/

namespace Louiselm.Base
open List

/-- Records under their numbers. -/
abbrev Numbered (α : Type) := AList fun _ : Nat => α

/-- How many numbers there are, when they are those from zero on without a gap. -/
def contiguous (numbers : List Nat) : Option Nat :=
  let sequences := numbers.insertionSort (· ≤ ·)
  if sequences = List.range sequences.length then some sequences.length else none

namespace Numbered

variable {α : Type}

/-- The files are exactly those of the first `n` numbers. -/
def Upto (files : Numbered α) (n : Nat) : Prop := ∀ number, number ∈ files ↔ number < n

/-- Every record is still there. -/
def Extends (before after : Numbered α) : Prop :=
  ∀ number record, before.lookup number = some record → after.lookup number = some record

variable {fi before middle l : Numbered α} {n m nu : Nat}

theorem upto_empty : Upto (∅ : Numbered α) 0 := fun nu => by simp

/-- The numbers of a directory have no gap exactly when they are the first ones. -/
theorem contiguous_eq_some : contiguous fi.keys = some n ↔ Upto fi n := by
  have hm : ∀ nu, nu ∈ fi ↔ nu ∈ fi.keys.insertionSort (· ≤ ·) := fun _ =>
    AList.mem_keys.trans (mem_insertionSort _).symm
  have hl := length_insertionSort (· ≤ ·) fi.keys
  unfold contiguous
  constructor
  · intro h nu
    dsimp only at h
    split at h
    · next hr =>
      rw [hm, hr, mem_range, Option.some.inj h]
    · simp at h
  · intro h
    have hs : fi.keys.insertionSort (· ≤ ·) = List.range n := by
      refine List.Perm.eq_of_pairwise (fun _ _ _ _ => le_antisymm)
        (pairwise_insertionSort (· ≤ ·) _) pairwise_le_range ?_
      refine (perm_insertionSort _ _).trans ?_
      refine (perm_ext_iff_of_nodup fi.nodupKeys nodup_range).mpr fun nu => ?_
      rw [mem_range]
      exact AList.mem_keys.symm.trans (h nu)
    simp [hs]

theorem Upto.unique (h : Upto fi n) (h' : Upto fi m) : n = m := by
  have hn := (h m).symm.trans (h' m)
  have hm := (h n).symm.trans (h' n)
  omega

theorem Upto.length_keys (h : Upto fi n) : fi.keys.length = n := by
  have hp : fi.keys.Perm (List.range n) := by
    refine (perm_ext_iff_of_nodup fi.nodupKeys nodup_range).mpr fun nu => ?_
    rw [mem_range]
    exact AList.mem_keys.symm.trans (h nu)
  simpa using hp.length_eq

/-- The next file keeps the numbers without a gap. -/
theorem Upto.create (h : Upto fi n) (r : α) : Upto (fi.insert n r) (n + 1) := by
  intro o
  rw [AList.mem_insert, h o]
  omega

theorem Extends.refl (fi : Numbered α) : Extends fi fi := fun _ _ h => h

theorem Extends.trans (h : Extends before middle) (h' : Extends middle l) :
    Extends before l := fun nu r hr => h' nu r (h nu r hr)

/-- A new file changes no record. -/
theorem extends_insert (h : nu ∉ fi) (r : α) : Extends fi (fi.insert nu r) := by
  intro o f hf
  have hn : o ≠ nu := by
    rintro rfl
    rw [AList.lookup_eq_none.mpr h] at hf
    simp at hf
  rw [AList.lookup_insert_ne hn, hf]

theorem Extends.mem (h : Extends before l) (hn : nu ∈ before) : nu ∈ l := by
  rw [← AList.lookup_isSome] at hn ⊢
  obtain ⟨r, hr⟩ := Option.isSome_iff_exists.mp hn
  rw [h nu r hr]
  rfl

end Numbered
end Louiselm.Base
