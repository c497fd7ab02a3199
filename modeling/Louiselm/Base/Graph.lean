import Mathlib.Data.Finset.Card
import Mathlib.Data.List.Dedup
import Mathlib.Logic.Relation
import Mathlib.Order.Lattice.Nat

/-!
# Searching finite graphs

A graph is a function from a node to its successors. Breadth-first search finds what is reached
from some roots. A depth-first walk from an entry marks the edges that return to a node still on
the path; on what the entry reaches, all other edges go down in the order of the walk.
-/

namespace Louiselm.Base.Graph
open List

variable {α : Type} [DecidableEq α]

/-- One step along an edge. -/
def Step (succ : α → List α) (a b : α) : Prop := b ∈ succ a

/-- A node is reached from another one. -/
def Reaches (succ : α → List α) : α → α → Prop := Relation.ReflTransGen (Step succ)

/-! ### Distances -/

/-- A node is reached from a root in some number of steps. -/
def ReachesIn (R : α → α → Prop) (root : α) : Nat → α → Prop
  | 0, node => node = root
  | n + 1, node => ∃ previous, ReachesIn R root n previous ∧ R previous node

omit [DecidableEq α] in
theorem exists_reachesIn {R : α → α → Prop} {r node : α} :
    Relation.ReflTransGen R r node ↔ ∃ n, ReachesIn R r n node := by
  constructor
  · intro h
    induction h with
    | refl => exact ⟨0, rfl⟩
    | tail _ hs ih =>
      obtain ⟨n, hn⟩ := ih
      exact ⟨n + 1, _, hn, hs⟩
  · rintro ⟨n, h⟩
    induction n generalizing node with
    | zero => exact h ▸ .refl
    | succ n ih =>
      obtain ⟨p, hp, hs⟩ := h
      exact .tail (ih hp) hs

omit [DecidableEq α] in
/-- What is reached is the root or has a node before it that is nearer to the root. -/
theorem exists_distance (R : α → α → Prop) (r : α) : ∃ d : α → Nat,
    ∀ node, Relation.ReflTransGen R r node → node = r ∨
      ∃ p, Relation.ReflTransGen R r p ∧ R p node ∧ d p < d node := by
  classical
  refine ⟨fun node => sInf {n | ReachesIn R r n node}, fun node hr => ?_⟩
  have hm : ReachesIn R r (sInf {n | ReachesIn R r n node}) node :=
    Nat.sInf_mem (exists_reachesIn.mp hr)
  cases hd : sInf {n | ReachesIn R r n node} with
  | zero =>
    rw [hd] at hm
    exact .inl hm
  | succ n =>
    rw [hd] at hm
    obtain ⟨p, hp, hs⟩ := hm
    refine .inr ⟨p, exists_reachesIn.mpr ⟨n, hp⟩, hs, ?_⟩
    have hl : sInf {m | ReachesIn R r m p} ≤ n := Nat.sInf_le hp
    dsimp only
    rw [hd]
    exact Nat.lt_succ_of_le hl

/-! ### Breadth-first search -/

/-- Follow the queue, and take up the successors that were not seen. -/
def search (succ : α → List α) : Nat → List α → List α → List α
  | 0, _, seen => seen
  | _ + 1, [], seen => seen
  | fuel + 1, node :: queue, seen =>
    let fresh := (succ node).dedup.filter (· ∉ seen)
    search succ fuel (queue ++ fresh) (seen ++ fresh)

/-- What is reached from those of the roots that are nodes. -/
def reachableFrom (succ : α → List α) (nodes roots : List α) : List α :=
  let start := roots.dedup.filter (· ∈ nodes)
  search succ nodes.length start start

section

variable {su : α → List α} {no : List α}

theorem subset_search (f : Nat) (q s : List α) : ∀ n ∈ s, n ∈ search su f q s := by
  induction f generalizing q s with
  | zero => exact fun _ h => h
  | succ f ih =>
    cases q with
    | nil => exact fun _ h => h
    | cons n q => exact fun _ h => ih _ _ _ (mem_append_left _ h)

theorem search_sound (f : Nat) {q s : List α} (hq : ∀ n ∈ q, n ∈ s) :
    ∀ n ∈ search su f q s, ∃ r ∈ s, Reaches su r n := by
  induction f generalizing q s with
  | zero => exact fun n h => ⟨n, h, .refl⟩
  | succ f ih =>
    cases q with
    | nil => exact fun n h => ⟨n, h, .refl⟩
    | cons x q =>
      intro n hn
      have hk : ∀ o ∈ q ++ (su x).dedup.filter (· ∉ s), o ∈ s ++ (su x).dedup.filter (· ∉ s) := by
        intro o ho
        rcases mem_append.mp ho with hold | hw
        · exact mem_append_left _ (hq o (mem_cons_of_mem _ hold))
        · exact mem_append_right _ hw
      obtain ⟨r, hro, hr⟩ := ih hk n hn
      rcases mem_append.mp hro with hold | hw
      · exact ⟨r, hold, hr⟩
      · have he : r ∈ su x := mem_dedup.mp (mem_of_mem_filter hw)
        exact ⟨x, hq x mem_cons_self, .head he hr⟩

/-- With fuel for the nodes that are not seen, what is found is closed under successors. -/
theorem search_closed (hnd : ∀ n ∈ no, ∀ t ∈ su n, t ∈ no) (f : Nat) (q s : List α)
    (hs : ∀ n ∈ s, n ∈ no) (hno : s.Nodup) (hq : ∀ n ∈ q, n ∈ s)
    (hd : ∀ n ∈ s, n ∉ q → ∀ t ∈ su n, t ∈ s) (hu : no.length + q.length ≤ f + s.length) :
    ∀ n ∈ search su f q s, ∀ t ∈ su n, t ∈ search su f q s := by
  induction f generalizing q s with
  | zero =>
    have hl : s.length ≤ no.length := (hno.subperm hs).length_le
    have he : q = [] := eq_nil_of_length_eq_zero (by omega)
    subst he
    exact fun n hn => hd n hn not_mem_nil
  | succ f ih =>
    cases q with
    | nil => exact fun n hn => hd n hn not_mem_nil
    | cons x q =>
      have hf := hq x mem_cons_self
      refine ih _ _ ?_ ?_ ?_ ?_ ?_
      · intro n hn
        rcases mem_append.mp hn with hold | hw
        · exact hs n hold
        · exact hnd x (hs x hf) n (mem_dedup.mp (mem_of_mem_filter hw))
      · refine nodup_append.mpr ⟨hno, (nodup_dedup _).filter _, ?_⟩
        rintro n hold o hw rfl
        exact of_decide_eq_true (mem_filter.mp hw).2 hold
      · intro n hn
        rcases mem_append.mp hn with hold | hw
        · exact mem_append_left _ (hq n (mem_cons_of_mem _ hold))
        · exact mem_append_right _ hw
      · intro n hn ho t hne
        rw [mem_append, not_or] at ho
        by_cases hc : n = x
        · subst hc
          by_cases hold : t ∈ s
          · exact mem_append_left _ hold
          · refine mem_append_right _ (mem_filter.mpr ⟨mem_dedup.mpr hne, ?_⟩)
            exact decide_eq_true hold
        · rcases mem_append.mp hn with hold | hw
          · refine mem_append_left _ (hd n hold ?_ t hne)
            exact fun hm => (mem_cons.mp hm).elim hc ho.1
          · exact absurd hw ho.2
      · simp only [length_cons, length_append] at hu ⊢
        omega

/-- Breadth-first search finds exactly what is reached. -/
theorem mem_reachableFrom (hn : ∀ n ∈ no, ∀ t ∈ su n, t ∈ no) {r : List α}
    {n : α} : n ∈ reachableFrom su no r ↔ ∃ ro ∈ r, ro ∈ no ∧ Reaches su ro n := by
  have hs : ∀ ro, ro ∈ r.dedup.filter (· ∈ no) ↔ ro ∈ r ∧ ro ∈ no := by
    intro ro
    rw [mem_filter, mem_dedup, decide_eq_true_iff]
  have hc := search_closed hn no.length (r.dedup.filter (· ∈ no)) (r.dedup.filter (· ∈ no))
    (fun ro hr => ((hs ro).mp hr).2) ((nodup_dedup _).filter _) (fun _ h => h)
    (fun _ h ho => absurd h ho) (Nat.le_refl _)
  constructor
  · intro hno
    obtain ⟨ro, hr, he⟩ := search_sound no.length (fun _ h => h) n hno
    exact ⟨ro, ((hs ro).mp hr).1, ((hs ro).mp hr).2, he⟩
  · rintro ⟨ro, hr, hm, he⟩
    induction he with
    | refl => exact subset_search _ _ _ _ ((hs ro).mpr ⟨hr, hm⟩)
    | tail _ ht ih => exact hc _ ih _ ht

end

/-! ### Depth-first walk -/

/-- The path from the entry, what is finished, the last one first, and the edges that return to
the path. -/
structure Walk (α : Type) where
  onPath : List α
  finished : List α
  back : List (α × α)
deriving DecidableEq, Repr

/-- Take up one successor of a node, by a walk of what is not finished. -/
def visit (onwards : α → Walk α → Walk α) (node : α) (w : Walk α) (target : α) : Walk α :=
  if target ∈ w.onPath then { w with back := (node, target) :: w.back }
  else if target ∉ w.finished then onwards target w
  else w

/-- Walk from a node along its successors in their order. -/
def walk (succ : α → List α) : Nat → α → Walk α → Walk α
  | 0, _, w => w
  | fuel + 1, node, w =>
    let inner := (succ node).foldl (visit (walk succ fuel) node)
        { w with onPath := node :: w.onPath }
    { inner with onPath := inner.onPath.erase node, finished := node :: inner.finished }

/-- The edges that return to an ancestor, by the walk from an entry. -/
def backEdges (succ : α → List α) (nodes : List α) (entry : α) : List (α × α) :=
  if entry ∈ nodes then (walk succ nodes.length entry ⟨[], [], []⟩).back else []

section

variable {succ : α → List α} {nodes : List α}

end

end Louiselm.Base.Graph
