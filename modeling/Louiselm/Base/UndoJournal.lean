import Mathlib.Logic.Function.Basic

/-!
# Undo journals

Contents are values under keys. An update that may stop half way first records what stood
under every key it will touch; putting the recorded values back undoes it, from wherever it
stopped and however often the undoing itself stopped before.
-/

namespace Louiselm.Base.UndoJournal
open Function

variable {κ β : Type}

/-- Contents that differ at most under the given keys. -/
def AgreeOff (keys : List κ) (before after : κ → Option β) : Prop :=
  ∀ key, key ∉ keys → after key = before key

/-- What an undo journal records was there before. -/
def Captures (before : κ → Option β) (backups : List (κ × Option β)) : Prop :=
  ∀ backup ∈ backups, backup.2 = before backup.1

/-- Contents in which each key holds what it held or what a planned write puts there. -/
def Within (writes : List (κ × β)) (before after : κ → Option β) : Prop :=
  ∀ key, after key = before key ∨ ∃ value, (key, value) ∈ writes ∧ after key = some value

theorem Within.refl (wr : List (κ × β)) (c : κ → Option β) :
    Within wr c c := fun _ => .inl rfl

theorem AgreeOff.refl (keys : List κ) (c : κ → Option β) :
    AgreeOff keys c c := fun _ _ => rfl

variable {keys : List κ} {pre l : κ → Option β}

/-- Fewer differences are differences under more keys. -/
theorem AgreeOff.mono {m : List κ} (h : AgreeOff keys pre l) (hs : keys ⊆ m) :
    AgreeOff m pre l :=
  fun key he => h key (fun hk => he (hs hk))

variable [DecidableEq κ]

variable {key : κ}

/-- A change under a recorded key stays undoable. -/
theorem AgreeOff.update (h : AgreeOff keys pre l) (hk : key ∈ keys) (v : Option β) :
    AgreeOff keys pre (Function.update l key v) := by
  intro o ho
  have hn : o ≠ key := fun he => ho (he ▸ hk)
  rw [update_of_ne hn]
  exact h o ho

variable {w : List (κ × β)}

/-- A planned write stays within the plan. -/
theorem Within.update (h : Within w pre l) {v : β} (hw : (key, v) ∈ w) :
    Within w pre (Function.update l key (some v)) := by
  intro o
  by_cases he : o = key
  · subst he
    exact .inr ⟨v, hw, update_self ..⟩
  · rw [update_of_ne he]
    exact h o

/-- Putting a value back stays within the plan. -/
theorem Within.update_restored (h : Within w pre l) {v : Option β}
    (hv : v = pre key) : Within w pre (Function.update l key v) := by
  intro o
  by_cases he : o = key
  · subst he
    exact .inl (by rw [update_self, hv])
  · rw [update_of_ne he]
    exact h o

/-- Put recorded values back, in order. -/
def restore (backups : List (κ × Option β)) (contents : κ → Option β) : κ → Option β :=
  backups.foldl (fun contents backup => Function.update contents backup.1 backup.2) contents

/-- A rollback that stopped leaves less to undo, under the keys it did not come to. -/
theorem AgreeOff.update_restored (h : AgreeOff (key :: keys) pre l) {v : Option β}
    (hv : v = pre key) : AgreeOff keys pre (Function.update l key v) := by
  intro o ho
  by_cases he : o = key
  · rw [he, update_self, hv]
  · rw [update_of_ne he]
    exact h o (by simp [he, ho])

/-- Putting everything back undoes the update, wherever it stopped. -/
theorem restore_eq {ba : List (κ × Option β)} (hc : Captures pre ba)
    (h : AgreeOff (ba.map Prod.fst) pre l) : restore ba l = pre := by
  induction ba generalizing l with
  | nil => exact funext fun key => h key (by simp)
  | cons bac ba ih =>
    rw [restore, List.foldl_cons]
    exact ih (fun b hb => hc b (by simp [hb])) (h.update_restored (hc bac (by simp)))

end Louiselm.Base.UndoJournal
