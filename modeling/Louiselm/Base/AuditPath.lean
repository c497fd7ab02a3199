import Mathlib.Data.Nat.Log
import Mathlib.Tactic.Ring

/-!
# Audit paths over ragged binary trees

A tree of `n > 1` leaves splits at the largest power of two below `n`. The turns
from a leaf up to the head can be read from the two counters `(index, n - 1)`
alone, one halving a level; the lemmas below relate that counter walk to the split.
Nodes are arbitrary, and the combining function is never assumed injective: a
second opening of one head yields an explicit collision.
-/

namespace Louiselm.Base
open List

/-- Which side the sibling stands on when a walk combines it with the node below. -/
inductive Turn where
  | siblingRight
  | siblingLeft
deriving DecidableEq, Repr

namespace AuditPath

/-- Turns from the leaf at `index` to the head of a tree whose last leaf is `last`.
A node that is both even and last has no sibling on its level and climbs silently. -/
def climb (index last : Nat) : List Turn :=
  if last = 0 then []
  else if index % 2 = 1 then .siblingLeft :: climb (index / 2) (last / 2)
  else if index = last then climb (index / 2) (last / 2)
  else .siblingRight :: climb (index / 2) (last / 2)
termination_by last
decreasing_by all_goals omega

/-- The walk of a one-leaf tree is empty. -/
@[simp] theorem climb_zero (i : Nat) : climb i 0 = [] := by
  rw [climb]
  rfl

variable {la : Nat}

/-- An odd node combines with the sibling on its left. -/
theorem climb_odd {i : Nat} (hl : la ≠ 0) (ho : i % 2 = 1) :
    climb i la = .siblingLeft :: climb (i / 2) (la / 2) := by
  rw [climb, if_neg hl, if_pos ho]

/-- An even node on the right edge only moves up one level. -/
theorem climb_edge (he : la % 2 = 0) : climb la la = climb (la / 2) (la / 2) := by
  by_cases hl : la = 0
  · subst la
    rfl
  · rw [climb, if_neg hl, if_neg (by omega), if_pos rfl]

/-- An even node inside the level combines with the sibling on its right. -/
theorem climb_even {i : Nat} (hl : la ≠ 0) (he : i % 2 = 0) (hi : i ≠ la) :
    climb i la = .siblingRight :: climb (i / 2) (la / 2) := by
  rw [climb, if_neg hl, if_neg (by omega), if_neg hi]

/-- A walk of a tree with more than one leaf takes at least one turn. -/
theorem climb_ne_nil (i la : Nat) (hl : la ≠ 0) (hi : i ≤ la) : climb i la ≠ [] := by
  induction la using Nat.strongRecOn generalizing i with
  | ind la ih =>
    rcases Nat.mod_two_eq_zero_or_one i with he | ho
    · by_cases hd : i = la
      · subst i
        rw [climb_edge he]
        exact ih (la / 2) (by omega) (la / 2) (by omega) (Nat.le_refl _)
      · rw [climb_even hl he hd]
        exact cons_ne_nil _ _
    · rw [climb_odd hl ho]
      exact cons_ne_nil _ _

/-- Below the split the walk stays inside a perfect tree and then meets the right half. -/
theorem climb_left (m i la : Nat) (hi : i < 2 ^ m) (hl : 2 ^ m ≤ la)
    (hhi : la < 2 ^ (m + 1)) : climb i la = climb i (2 ^ m - 1) ++ [.siblingRight] := by
  induction m generalizing i la with
  | zero =>
    have hz : i = 0 := by omega
    have ho : la = 1 := by omega
    subst hz ho
    rw [climb_even (by decide) rfl (by decide)]
    simp
  | succ m ih =>
    have hp := Nat.two_pow_pos m
    simp only [Nat.pow_succ] at hi hl hhi ih ⊢
    have hh := ih (i / 2) (la / 2) (by omega) (by omega) (by omega)
    have hd : (2 ^ m * 2 - 1) / 2 = 2 ^ m - 1 := by omega
    rcases Nat.mod_two_eq_zero_or_one i with he | ho
    · rw [climb_even (by omega) he (by omega), hh,
        climb_even (show 2 ^ m * 2 - 1 ≠ 0 by omega) he (by omega), hd]
      rfl
    · rw [climb_odd (by omega) ho, hh, climb_odd (show 2 ^ m * 2 - 1 ≠ 0 by omega) ho, hd]
      rfl

/-- Above the split the walk is that of the right half, then meets the left half. -/
theorem climb_right (m i la : Nat) (hi : i ≤ la) (hl : la < 2 ^ m) :
    climb (i + 2 ^ m) (la + 2 ^ m) = climb i la ++ [.siblingLeft] := by
  induction m generalizing i la with
  | zero =>
    have hz : i = 0 := by omega
    have ho : la = 0 := by omega
    subst hz ho
    rw [climb_odd (by decide) rfl]
    simp
  | succ m ih =>
    have hp := Nat.two_pow_pos m
    simp only [Nat.pow_succ] at hl ⊢
    have hh := ih (i / 2) (la / 2) (by omega) (by omega)
    have hdi : (i + 2 ^ m * 2) / 2 = i / 2 + 2 ^ m := by omega
    have hdl : (la + 2 ^ m * 2) / 2 = la / 2 + 2 ^ m := by omega
    rcases Nat.mod_two_eq_zero_or_one i with he | ho
    · by_cases hd : i = la
      · subst i
        rw [climb_edge (by omega), hdi, hh, climb_edge he]
      · rw [climb_even (by omega) (by omega) (by omega), hdi, hdl, hh, climb_even (by omega) he hd]
        rfl
    · by_cases hz : la = 0
      · omega
      · rw [climb_odd (by omega) (by omega), hdi, hdl, hh, climb_odd hz ho]
        rfl

/-! ### Combining a node with its siblings -/

section

variable {Node : Type} (hash : Node → Node → Node)

/-- The pair hashed when a walk turns at `sibling`. -/
def pair (turn : Turn) (sibling node : Node) : Node × Node :=
  match turn with
  | .siblingRight => (node, sibling)
  | .siblingLeft => (sibling, node)

/-- The head reached from `node` along `turns` with the given siblings. -/
def ascend : List Turn → List Node → Node → Node
  | turn :: turns, sibling :: path, node =>
    let next := pair turn sibling node
    ascend turns path (hash next.1 next.2)
  | _, _, node => node

/-- Every pair that `ascend` hashes, in the order of the walk. -/
def ascendPairs : List Turn → List Node → Node → List (Node × Node)
  | turn :: turns, sibling :: path, node =>
    let next := pair turn sibling node
    next :: ascendPairs turns path (hash next.1 next.2)
  | _, _, _ => []

/-- The last turn of a walk combines the head reached before it. -/
theorem ascend_concat (tu : List Turn) (p : List Node) (n : Node) (turn : Turn) (si : Node)
    (h : p.length = tu.length) : ascend hash (tu ++ [turn]) (p ++ [si]) n =
      hash (pair turn si (ascend hash tu p n)).1 (pair turn si (ascend hash tu p n)).2 := by
  induction tu generalizing p n with
  | nil =>
    have hp : p = [] := length_eq_zero_iff.mp h
    subst hp
    rfl
  | cons t tu ih =>
    cases p with
    | nil => simp at h
    | cons s p => exact ih p _ (by simpa using h)

/-- The pairs of a longer walk are those of the shorter one and the last pair. -/
theorem ascendPairs_concat (tu : List Turn) (p : List Node) (n : Node) (turn : Turn) (si : Node)
    (h : p.length = tu.length) : ascendPairs hash (tu ++ [turn]) (p ++ [si]) n =
      ascendPairs hash tu p n ++ [pair turn si (ascend hash tu p n)] := by
  induction tu generalizing p n with
  | nil =>
    have hp : p = [] := length_eq_zero_iff.mp h
    subst hp
    rfl
  | cons t tu ih =>
    cases p with
    | nil => simp at h
    | cons s p =>
      simp only [cons_append, ascendPairs, List.cons.injEq, true_and]
      exact ih p _ (by simpa using h)

/-- Two different pairs with one hash, the first among `xs` and the second among `ys`. -/
def Collision (xs ys : List (Node × Node)) : Prop :=
  ∃ x ∈ xs, ∃ y ∈ ys, x ≠ y ∧ hash x.1 x.2 = hash y.1 y.2

/-- A collision remains one among more pairs. -/
theorem Collision.mono {hash : Node → Node → Node} {xs ys xs' ys' : List (Node × Node)}
    (h : Collision hash xs ys) (hx : xs ⊆ xs') (hy : ys ⊆ ys') : Collision hash xs' ys' := by
  obtain ⟨x, hm, y, hmy, hn, he⟩ := h
  exact ⟨x, hx hm, y, hy hmy, hn, he⟩

/-- A walk that ends in the hash of `left` and `right` combined exactly these two at its last
turn, or its last pair collides with them. -/
theorem ascend_concat_inv (t : List Turn) (tu : Turn) (s : List Node) (n l r : Node)
    (hl : s.length = t.length + 1) (h : ascend hash (t ++ [tu]) s n = hash l r) :
    (∃ b top, s = b ++ [top] ∧ b.length = t.length ∧ pair tu top (ascend hash t b n) = (l, r) ∧
        ascendPairs hash t b n ⊆ ascendPairs hash (t ++ [tu]) s n) ∨ Collision hash [(l, r)]
      (ascendPairs hash (t ++ [tu]) s n) := by
  obtain ⟨b, top, rfl⟩ : ∃ b top, s = b ++ [top] := by
    have hn : s ≠ [] := ne_nil_of_length_pos (by omega)
    exact ⟨s.dropLast, s.getLast hn, (dropLast_concat_getLast hn).symm⟩
  have hb : b.length = t.length := by simpa using hl
  rw [ascend_concat hash t b n tu top hb] at h
  rw [ascendPairs_concat hash t b n tu top hb]
  by_cases heq : pair tu top (ascend hash t b n) = (l, r)
  · exact Or.inl ⟨b, top, rfl, hb, heq, by simp⟩
  · exact Or.inr ⟨(l, r), by simp, _, by simp, fun he => heq he.symm, h.symm⟩

end

end AuditPath
end Louiselm.Base
