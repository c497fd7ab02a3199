import Mathlib.Data.Set.Function

/-!
# Histories pinned by the digest of their last entry

Every entry of a history but the first names the digest of the entry before it. Equal
digests of two last entries then mean equal histories, unless two different entries have
one digest.
-/

namespace Louiselm.Base.HashChain

variable {α δ : Type} (link : α → Option δ) (digest : α → δ)

/-- The entries before a last one, each linked to its predecessor. -/
inductive Linked : List α → α → Prop where
  | first {a : α} : link a = none → Linked [] a
  | next {earlier : List α} {a b : α} :
      Linked earlier a → link b = some (digest a) → Linked (earlier ++ [a]) b

variable {link digest}

/-- The last entry names no digest exactly when nothing precedes it. -/
theorem Linked.link_eq_none {e : List α} {a : α} (h : Linked link digest e a) :
    link a = none ↔ e = [] := by
  cases h with
  | first hn => simp [hn]
  | next _ hs => simp [hs]

/-- Two histories whose last entries agree are equal, or hold a collision. -/
theorem Linked.unique_or_collision {xs ys : List α} {a b : α} (hx : Linked link digest xs a)
    (hy : Linked link digest ys b) (hd : digest a = digest b) : xs ++ [a] = ys ++ [b] ∨
      ∃ x ∈ xs ++ [a], ∃ y ∈ ys ++ [b], x ≠ y ∧ digest x = digest y := by
  by_cases ha : a = b
  · subst ha
    induction hx generalizing ys with
    | first hn =>
      left
      rw [hy.link_eq_none.mp hn]
    | @next e p q hp hs ih =>
      cases hy with
      | first hn => simp [hn] at hs
      | @next e' p' _ hp' hs' =>
        have he : digest p = digest p' := Option.some.inj (hs.symm.trans hs')
        by_cases hpp : p = p'
        · subst hpp
          rcases ih hp' he with heq | ⟨x, hm, y, hmy, hne⟩
          · left
            rw [heq]
          · right
            exact ⟨x, List.mem_append_left _ hm, y, List.mem_append_left _ hmy, hne⟩
        · right
          exact ⟨p, by simp, p', by simp, hpp, he⟩
  · right
    exact ⟨a, by simp, b, by simp, ha, hd⟩

/-- Where the digest separates the entries of both, equal last digests mean equal
histories. -/
theorem Linked.unique {xs ys : List α} {a b : α} (hx : Linked link digest xs a)
    (hy : Linked link digest ys b) (hd : digest a = digest b)
    (hi : Set.InjOn digest {x | x ∈ (xs ++ [a]) ++ (ys ++ [b])}) : xs ++ [a] = ys ++ [b] := by
  rcases hx.unique_or_collision hy hd with h | ⟨x, hm, y, hmy, hn, he⟩
  · exact h
  · exact absurd (hi (List.mem_append_left _ hm) (List.mem_append_right _ hmy) he) hn

end Louiselm.Base.HashChain
