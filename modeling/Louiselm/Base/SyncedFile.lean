import Louiselm.Base.Hex

/-!
# Files that lose what is not synced

A file is what was last synced and the changes since. Its readers see all of them; when the
machine stops, any of the changes since may be lost, in any combination.
-/

namespace Louiselm.Base
open List

/-- A change of the smallest part that can be lost by itself. -/
inductive Change where
  | put (offset : Nat) (byte : UInt8)
  | resize (length : Nat)
deriving DecidableEq

namespace Change

/-- A byte put beyond the end, and a larger size, leave zeros between. -/
def apply (content : Bytes) : Change → Bytes
  | .put offset byte =>
    if offset < content.length then content.set offset byte
    else content ++ List.replicate (offset - content.length) 0 ++ [byte]
  | .resize length => content.take length ++ List.replicate (length - content.length) 0

/-- A change after which no file is empty. -/
def Fills : Change → Prop
  | .put _ _ => True
  | .resize length => 0 < length

theorem Fills.apply_ne_nil {c : Change} (h : c.Fills) (co : Bytes) : c.apply co ≠ [] := by
  apply ne_nil_of_length_pos
  cases c with
  | put o b =>
    rw [apply]
    split
    · next hl =>
      rw [length_set]
      exact Nat.lt_of_le_of_lt (Nat.zero_le _) hl
    · rw [length_append, length_singleton]
      exact Nat.succ_pos _
  | resize n =>
    have hp : 0 < n := h
    rw [apply, length_append, length_take, length_replicate]
    omega

end Change

/-- What was last synced, and the changes since. -/
structure SyncedFile where
  durable : Bytes
  unsynced : List Change
deriving DecidableEq

namespace SyncedFile

/-- What a reader sees. -/
def content (file : SyncedFile) : Bytes := file.unsynced.foldl Change.apply file.durable

def change (file : SyncedFile) (change : Change) : SyncedFile :=
  { file with unsynced := file.unsynced ++ [change] }

def sync (file : SyncedFile) : SyncedFile := ⟨file.content, []⟩

/-- What the machine stopping leaves, where only some changes were kept. -/
def lose (file : SyncedFile) (kept : List Change) : SyncedFile :=
  ⟨kept.foldl Change.apply file.durable, []⟩

/-- Not empty, whatever is lost. -/
def Sealed (file : SyncedFile) : Prop :=
  ∀ kept, List.Sublist kept file.unsynced → kept.foldl Change.apply file.durable ≠ []

@[simp] theorem content_change (file : SyncedFile) (c : Change) :
    (file.change c).content = c.apply file.content := by
  rw [content, SyncedFile.change, foldl_append]
  rfl

variable {f : SyncedFile}

theorem Sealed.content_ne_nil (h : f.Sealed) : f.content ≠ [] :=
  h _ (List.Sublist.refl _)

/-- A file stays sealed under a change that fills it. -/
theorem Sealed.change (h : f.Sealed) {c : Change} (hf : c.Fills) : (f.change c).Sealed := by
  intro k hk
  obtain ⟨e, l, rfl, he, hl⟩ := sublist_append_iff.mp hk
  rcases sublist_singleton.mp hl with rfl | rfl
  · rw [append_nil]
    exact h e he
  · rw [foldl_append]
    exact hf.apply_ne_nil _

/-- A file that is not empty is sealed by syncing it. -/
theorem sealed_sync (h : f.content ≠ []) : f.sync.Sealed := by
  intro k hk
  rw [sublist_nil.mp hk]
  exact h

/-- A sealed file stays sealed when the machine stops. -/
theorem Sealed.lose (h : f.Sealed) {k : List Change}
    (hk : List.Sublist k f.unsynced) : (f.lose k).Sealed := by
  intro l hl
  rw [sublist_nil.mp hl]
  exact h k hk

end SyncedFile
end Louiselm.Base
