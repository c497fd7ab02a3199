import Louiselm.Base.Lua
import Mathlib.Logic.Function.Basic
import Mathlib.Algebra.BigOperators.Group.List.Basic

/-!
# Structural exports

`lua/louiselm/forensics/export_format.lua`, `redact`: what is left of a decoded value in an export.
The nodes that are visited count against one limit, in the order in which the tables are traversed.
-/

namespace Louiselm.Forensics
open List
open Base.Lua (Number)

/-! ### Values -/

/-- What a field stands under: a position of a list or a name. -/
inductive Key where
  | position (n : Nat)
  | name (text : String)
deriving DecidableEq, Repr

/-- A decoded value. The keys of a table are in the order in which it is traversed; empty objects
are marked by a metatable. -/
inductive Decoded where
  | bool (b : Bool)
  | num (n : Number)
  | str (text : String)
  | null
  | table (marked : Bool) (keys : List Key) (unique : keys.Nodup) (child : Key → Decoded)

/-- What is left of a value. The fields of a table have no order. -/
inductive Redacted where
  | bool (b : Bool)
  | text (text : String)
  | count (n : Nat)
  | table (marked : Bool) (field : Key → Option Redacted)

def fieldNames : List String :=
  ["jsonrpc", "id", "method", "params", "result", "error", "code", "message", "data", "update",
    "sessionUpdate", "sessionId", "content", "type", "text", "role", "status", "direction",
    "timestamp", "payload", "frame", "load_session", "list_sessions", "embedded_context"]

/-- The texts that are kept under a key. -/
def enums : Key → List String
  | .name "jsonrpc" => ["2.0"]
  | .name "method" => ["initialize", "session/new", "session/load", "session/prompt",
    "session/cancel", "session/update", "session/request_permission"]
  | .name "sessionUpdate" => ["user_message_chunk", "agent_message_chunk", "agent_thought_chunk",
    "tool_call", "tool_call_update", "plan", "available_commands_update", "current_mode_update"]
  | .name "type" => ["text", "image", "audio", "resource", "resource_link"]
  | .name "role" => ["user", "assistant", "system", "tool"]
  | .name "status" => ["pending", "in_progress", "completed", "failed"]
  | _ => []

/-- Whether what is under a key is visited. -/
def isListed : Key → Bool
  | .position _ => true
  | .name text => fieldNames.contains text

def limit : Redacted := .text "[redacted:limit]"

/-! ### Redaction -/

/-- What has become of a table so far, and the nodes that may still be visited. -/
structure Level where
  field : Key → Option Redacted
  omitted : Nat
  remaining : Int

/-- The loop over the keys of a table. -/
def visitKeys (visitChild : Key → Int → Redacted × Int) : List Key → Level → Level
  | [], level => level
  | key :: keys, level =>
    visitKeys visitChild keys <|
      if isListed key then
        { level with
          field := Function.update level.field key (some (visitChild key level.remaining).1)
          remaining := (visitChild key level.remaining).2 }
      else { level with omitted := level.omitted + 1 }

/-- A table's fields with the number of those that were left out. -/
def finish (field : Key → Option Redacted) (omitted : Nat) : Key → Option Redacted :=
  if 0 < omitted then Function.update field (.name "redacted_fields") (some (.count omitted))
  else field

/-- What is left of a value that is no table. -/
def leaf (key : Key) : Decoded → Redacted
  | .bool b => .bool b
  | .str text => .text (if text ∈ enums key then text else "[redacted]")
  | _ => .text "[redacted]"

def visit : Decoded → Key → Nat → Int → Redacted × Int
  | .table marked keys _ child, _, depth, remaining =>
    if remaining - 1 < 0 ∨ 8 < depth ∨ 128 < keys.length then (limit, remaining - 1)
    else
      let level := visitKeys (fun key remaining => visit (child key) key (depth + 1) remaining) keys
        ⟨fun _ => none, 0, remaining - 1⟩
      (.table marked (finish level.field level.omitted), level.remaining)
  | item, key, depth, remaining =>
    if remaining - 1 < 0 ∨ 8 < depth then (limit, remaining - 1)
    else (leaf key item, remaining - 1)

def root : Key := .name ""

/-- Whether the nodes of a value are more than the limit. -/
def refuses (value : Decoded) : Prop := (visit value root 0 2048).2 < 0

instance (value : Decoded) : Decidable (refuses value) :=
  inferInstanceAs (Decidable ((visit value root 0 2048).2 < 0))

def redact (value : Decoded) : Redacted :=
  if refuses value then limit else (visit value root 0 2048).1

/-! ### What redaction may depend on -/

/-- A scalar that is neither a boolean nor a text that is kept under the key. -/
def Plain (key : Key) : Decoded → Prop
  | .num _ => True
  | .null => True
  | .str text => text ∉ enums key
  | _ => False

/-- The same tables with the same listed keys and as many others, in whatever order, the same
booleans and the same texts that are kept. -/
inductive Alike : Key → Decoded → Decoded → Prop where
  | bool (key : Key) (b : Bool) : Alike key (.bool b) (.bool b)
  | kept (key : Key) (text : String) : text ∈ enums key → Alike key (.str text) (.str text)
  | plain (key : Key) (v w : Decoded) : Plain key v → Plain key w → Alike key v w
  | table (key : Key) (marked : Bool) (keys others : List Key) (u : keys.Nodup) (u' : others.Nodup)
      (child child' : Key → Decoded) :
      (keys.filter isListed).Perm (others.filter isListed) → keys.length = others.length →
      (∀ k ∈ keys, isListed k = true → Alike k (child k) (child' k)) →
      Alike key (.table marked keys u child) (.table marked others u' child')

/-- What is left shows of a value its tables, listed keys, booleans and texts that are kept, and how
many other keys there are. -/
inductive Shows : Key → Decoded → Redacted → Prop where
  | bool (key : Key) (b : Bool) : Shows key (.bool b) (.bool b)
  | kept (key : Key) (text : String) : text ∈ enums key → Shows key (.str text) (.text text)
  | redacted (key : Key) (v : Decoded) : Shows key v (.text "[redacted]")
  | limit (key : Key) (v : Decoded) : Shows key v limit
  | table (key : Key) (marked : Bool) (keys : List Key) (u : keys.Nodup) (child : Key → Decoded)
      (field : Key → Option Redacted) :
      (∀ k ∈ keys, isListed k = true → ∀ r, field k = some r → Shows k (child k) r) →
      (∀ k r, field k = some r → (k ∈ keys ∧ isListed k = true) ∨
        (k = .name "redacted_fields" ∧ r = .count (keys.countP fun k => !isListed k))) →
      Shows key (.table marked keys u child) (.table marked field)

/-! ### Without the limit -/

/-- How many nodes are visited. -/
def visits : Decoded → Nat → Nat
  | .table _ keys _ child, depth =>
    1 + if 8 < depth ∨ 128 < keys.length then 0
      else ((keys.filter isListed).map fun k => visits (child k) (depth + 1)).sum
  | _, _ => 1

/-- What is left of a value without the limit on nodes. -/
def image : Decoded → Key → Nat → Redacted
  | .table marked keys _ child, _, depth =>
    if 8 < depth ∨ 128 < keys.length then limit
    else .table marked <| finish
      (fun k => if k ∈ keys ∧ isListed k = true then some (image (child k) k (depth + 1)) else none)
      (keys.countP fun k => !isListed k)
  | item, key, depth => if 8 < depth then limit else leaf key item

section

variable {f : Key → Int → Redacted × Int} {g : Key → Redacted} {c : Key → Nat}

/-- The loop visits the listed keys, as far as the limit goes. -/
theorem visitKeys_spec (hf : ∀ k r, ((c k : Int) ≤ r → f k r = (g k, r - c k)) ∧
      (r < c k → (f k r).2 < 0)) (ke : List Key) (l : Level) :
    (((ke.filter isListed).map c).sum ≤ l.remaining → visitKeys f ke l =
      ⟨fun k => if k ∈ ke ∧ isListed k = true then some (g k) else l.field k,
        l.omitted + ke.countP fun k => !isListed k,
        l.remaining - ((ke.filter isListed).map c).sum⟩) ∧
    (l.remaining < ((ke.filter isListed).map c).sum → (visitKeys f ke l).remaining < 0) := by
  induction ke generalizing l with
  | nil => simp [visitKeys]
  | cons key ke ih =>
    rw [visitKeys]
    by_cases hk : isListed key = true
    · rw [if_pos hk, filter_cons_of_pos hk, map_cons, sum_cons, Nat.cast_add]
      obtain ⟨hn, hu⟩ := hf key l.remaining
      by_cases hr : (c key : Int) ≤ l.remaining
      · rw [hn hr]
        obtain ⟨hi, ho⟩ := ih { l with
            field := Function.update l.field key (some (g key))
            remaining := l.remaining - c key }
        dsimp only at hi ho
        refine ⟨fun hl => ?_, fun ht => ho (by omega)⟩
        rw [hi (by omega)]
        have hfi : (fun k => if k ∈ ke ∧ isListed k = true then some (g k)
            else Function.update l.field key (some (g key)) k) =
            fun k => if k ∈ key :: ke ∧ isListed k = true then some (g k) else l.field k := by
          funext k
          by_cases hkk : k = key
          · subst hkk
            simp [hk]
          · simp [hkk]
        rw [hfi, countP_cons_of_neg (by simp [hk]), Int.sub_sub]
      · have he := hu (by omega)
        refine ⟨fun hl => absurd hl (by omega), fun _ => ?_⟩
        obtain ⟨-, ho⟩ := ih { l with
            field := Function.update l.field key (some (f key l.remaining).1)
            remaining := (f key l.remaining).2 }
        exact ho (by dsimp only; omega)
    · rw [if_neg hk, filter_cons_of_neg hk]
      obtain ⟨hi, ho⟩ := ih { l with omitted := l.omitted + 1 }
      refine ⟨fun hl => ?_, ho⟩
      rw [hi hl]
      have hfi : (fun k => if k ∈ ke ∧ isListed k = true then some (g k) else l.field k) =
          fun k => if k ∈ key :: ke ∧ isListed k = true then some (g k) else l.field k := by
        funext k
        by_cases hkk : k = key
        · subst hkk
          simp [hk]
        · simp [hkk]
      rw [hfi, countP_cons_of_pos (by simpa using hk)]
      simp only [Level.mk.injEq, true_and, and_true]
      omega

end

/-- A value is visited as far as the limit goes. -/
theorem visit_spec (v : Decoded) (key : Key) (depth : Nat) (r : Int) :
    ((visits v depth : Int) ≤ r → visit v key depth r = (image v key depth, r - visits v depth)) ∧
      (r < visits v depth → (visit v key depth r).2 < 0) := by
  induction v generalizing key depth r
  case table marked keys u child ih =>
    unfold visit image visits
    by_cases hd : 8 < depth ∨ 128 < keys.length
    · simp only [hd, or_true, if_true, Nat.add_zero]
      exact ⟨fun _ => rfl, fun h => by omega⟩
    simp only [hd, or_false, if_false]
    obtain ⟨hi, ho⟩ := visitKeys_spec (c := fun k => visits (child k) (depth + 1))
      (fun k r => ih k k (depth + 1) r) keys ⟨fun _ => none, 0, r - 1⟩
    rw [Nat.cast_add, Nat.cast_one]
    by_cases hr : r - 1 < 0
    · rw [if_pos hr]
      exact ⟨fun h => absurd h (by omega), fun _ => hr⟩
    · rw [if_neg hr]
      refine ⟨fun h => ?_, fun h => ho (by dsimp only; omega)⟩
      rw [hi (by dsimp only; omega), Nat.zero_add, Int.sub_sub]
  all_goals
    unfold visit image visits
    by_cases hd : 8 < depth
    · simp only [hd, or_true, if_true]
      exact ⟨fun _ => rfl, fun h => by omega⟩
    simp only [hd, or_false, if_false]
    by_cases hr : r - 1 < 0
    · rw [if_pos hr]
      exact ⟨fun h => absurd h (by omega), fun _ => hr⟩
    · rw [if_neg hr]
      exact ⟨fun _ => rfl, fun h => absurd h (by omega)⟩

theorem refuses_iff (v : Decoded) : refuses v ↔ 2048 < visits v 0 := by
  obtain ⟨hi, ho⟩ := visit_spec v root 0 2048
  rw [refuses]
  by_cases h : 2048 < visits v 0
  · exact iff_of_true (ho (by omega)) h
  · rw [hi (by omega)]
    exact iff_of_false (by dsimp only; omega) h

theorem redact_eq (v : Decoded) :
    redact v = if 2048 < visits v 0 then limit else image v root 0 := by
  rw [redact]
  by_cases h : 2048 < visits v 0
  · rw [if_pos h, if_pos ((refuses_iff v).mpr h)]
  · rw [if_neg h, if_neg fun hr => h ((refuses_iff v).mp hr),
      (visit_spec v root 0 2048).1 (by omega)]

/-! ### Values that are alike -/

theorem leaf_of_plain {key : Key} {v : Decoded} (h : Plain key v) :
    leaf key v = .text "[redacted]" ∧ (∀ d, visits v d = 1) ∧
      ∀ d, image v key d = if 8 < d then limit else leaf key v := by
  cases v with
  | str text => simp_all [Plain, leaf, visits, image]
  | num n => simp [leaf, visits, image]
  | null => simp [leaf, visits, image]
  | _ => exact h.elim

/-- Values that are alike have as many nodes and leave the same. -/
theorem Alike.same {key : Key} {v w : Decoded} (h : Alike key v w) (d : Nat) :
    visits v d = visits w d ∧ image v key d = image w key d := by
  induction h generalizing d with
  | bool key b => exact ⟨rfl, rfl⟩
  | kept key t _ => exact ⟨rfl, rfl⟩
  | plain key v w hv hw =>
    obtain ⟨hl, hn, hi⟩ := leaf_of_plain hv
    obtain ⟨hl', hn', hi'⟩ := leaf_of_plain hw
    rw [hn, hn', hi, hi', hl, hl']
    exact ⟨rfl, rfl⟩
  | table key m ke os u u' ch c' hp he ha ih =>
    have hk : ∀ k, (k ∈ ke ∧ isListed k = true) ↔ (k ∈ os ∧ isListed k = true) := fun k => by
      rw [← mem_filter, ← mem_filter, hp.mem_iff]
    have hs : ((ke.filter isListed).map fun k => visits (ch k) (d + 1)).sum =
        ((os.filter isListed).map fun k => visits (c' k) (d + 1)).sum := by
      rw [← (hp.map _).sum_eq]
      refine congrArg _ (map_congr_left fun k hm => ?_)
      obtain ⟨hm, hl⟩ := mem_filter.mp hm
      exact (ih k hm hl (d + 1)).1
    have hc : ke.countP (fun k => !isListed k) = os.countP fun k => !isListed k := by
      have h₁ := length_eq_countP_add_countP isListed (l := ke)
      have h₂ := length_eq_countP_add_countP isListed (l := os)
      have h₃ := hp.length_eq
      rw [← countP_eq_length_filter, ← countP_eq_length_filter] at h₃
      simp only [Bool.not_eq_true, Bool.decide_eq_false] at h₁ h₂
      omega
    have hi : (fun k => if k ∈ ke ∧ isListed k = true then some (image (ch k) k (d + 1))
        else none) = fun k => if k ∈ os ∧ isListed k = true then
          some (image (c' k) k (d + 1)) else none := by
      funext k
      by_cases hm : k ∈ ke ∧ isListed k = true
      · rw [if_pos hm, if_pos ((hk k).mp hm), (ih k hm.1 hm.2 (d + 1)).2]
      · rw [if_neg hm, if_neg fun h => hm ((hk k).mpr h)]
    unfold visits image
    rw [hs, he, hc, hi]
    exact ⟨rfl, rfl⟩

theorem image_shows (v : Decoded) (key : Key) (d : Nat) : Shows key v (image v key d) := by
  induction v generalizing key d
  case table marked keys u child ih =>
    unfold image
    split
    · exact .limit _ _
    have hr : isListed (.name "redacted_fields") = false := by decide
    refine .table _ _ _ _ _ _ (fun k hk hl r h => ?_) fun k r h => ?_
    · have he : k ≠ .name "redacted_fields" := by
        rintro rfl
        rw [hr] at hl
        contradiction
      have hf : some (image (child k) k (d + 1)) = some r := by
        rw [← h, finish]
        split
        · rw [Function.update_of_ne he, if_pos ⟨hk, hl⟩]
        · exact (if_pos ⟨hk, hl⟩).symm
      obtain rfl := Option.some.inj hf
      exact ih k k (d + 1)
    · rw [finish] at h
      by_cases hk : k = .name "redacted_fields"
      · subst hk
        split at h
        · rw [Function.update_self, Option.some.injEq] at h
          exact Or.inr ⟨rfl, h.symm⟩
        · simp [hr] at h
      · refine Or.inl (by_contra fun hn => ?_)
        split at h
        · rw [Function.update_of_ne hk, if_neg hn] at h
          contradiction
        · exact absurd ((if_neg hn).symm.trans h) (by simp)
  case str text =>
    unfold image
    split
    · exact .limit _ _
    · rw [leaf]
      split
      · next ht => exact .kept _ _ ht
      · exact .redacted _ _
  case bool b =>
    unfold image
    split
    · exact .limit _ _
    · exact .bool _ _
  all_goals
    unfold image
    split
    · exact .limit _ _
    · exact .redacted _ _

/-- What is left of a value shows its structure only, and is the same for values that are alike,
whatever the order in which their tables are traversed; and so is whether the limit refuses it. -/
theorem redact_structural (v w : Decoded) : Shows root v (redact v) ∧
      (Alike root v w → redact v = redact w ∧ (refuses v ↔ refuses w)) := by
  constructor
  · rw [redact_eq]
    split
    · exact .limit _ _
    · exact image_shows v root 0
  · intro h
    obtain ⟨hn, hi⟩ := h.same 0
    rw [redact_eq, redact_eq, refuses_iff, refuses_iff, hn, hi]
    exact ⟨rfl, Iff.rfl⟩

end Louiselm.Forensics
