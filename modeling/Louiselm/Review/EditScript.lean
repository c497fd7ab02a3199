import Louiselm.Review.Diff

/-!
# Faithful minimal edit scripts

The script of `Review/Diff` reads both files in order, keeps as many lines as can be kept, and
all of its changes are displayed with their numbers.
-/

namespace Louiselm.Review
open Base List IsLongestCommon

/-! ### The table -/

section

variable {α : Type} [DecidableEq α]

theorem length_lcsRow (l : α) (new : List α) (b : List Nat) :
    (lcsRow l new b).length = new.length + 1 := by
  induction new generalizing b with
  | nil => rfl
  | cons o new ih => rw [lcsRow, length_cons, ih, length_cons]

/-- A row holds the lengths for one list and all ends of another. -/
def HoldsRow (row : List Nat) (old new : List α) : Prop :=
  row.length = new.length + 1 ∧
    ∀ right ≤ new.length, IsLongestCommon (row[right]?.getD 0) old (new.drop right)

variable {old new : List α}

theorem HoldsRow.head {row : List Nat} (h : HoldsRow row old new) :
    IsLongestCommon (row.headD 0) old new := by
  have hf := h.2 0 (Nat.zero_le _)
  rw [drop_zero] at hf
  cases row with
  | nil => exact hf
  | cons v row => exact hf

theorem HoldsRow.tail {row : List Nat} {o : α} (h : HoldsRow row old (o :: new)) :
    HoldsRow row.tail old new := by
  constructor
  · rw [length_tail, h.1, length_cons, Nat.add_sub_cancel]
  · intro ri hr
    have hn := h.2 (ri + 1) (by rw [length_cons]; omega)
    rw [drop_succ_cons] at hn
    rwa [List.getElem?_tail]

/-- The row over a right row is right. -/
theorem HoldsRow.lcsRow {b : List Nat} (h : HoldsRow b old new) (l : α) :
    HoldsRow (lcsRow l new b) (l :: old) new := by
  induction new generalizing b with
  | nil =>
    refine ⟨rfl, fun ri hr => ?_⟩
    obtain rfl := Nat.le_zero.mp hr
    exact nil_right _
  | cons o new ih =>
    have he := ih h.tail
    refine ⟨length_lcsRow l (o :: new) b, fun ri hr => ?_⟩
    cases ri with
    | zero =>
      rw [drop_zero, Review.lcsRow]
      by_cases heq : l = o
      · subst heq
        rw [if_pos rfl]
        exact h.tail.head.cons_cons l
      · rw [if_neg heq]
        exact cons_ne heq h.head he.head
    | succ ri =>
      rw [length_cons] at hr
      rw [Review.lcsRow, List.getElem?_cons_succ, drop_succ_cons]
      exact he.2 ri (by omega)

theorem holdsRow_replicate (new : List α) :
    HoldsRow (List.replicate (new.length + 1) 0) [] new := by
  refine ⟨length_replicate, fun ri hr => ?_⟩
  rw [List.getElem?_replicate, if_pos (by omega)]
  exact nil_left _

theorem holdsRow_table (old new : List α) (left : Nat) (hl : left ≤ old.length) :
    HoldsRow ((longestCommonSubsequence old new)[left]?.getD []) (old.drop left) new := by
  induction old generalizing left with
  | nil =>
    obtain rfl := Nat.le_zero.mp hl
    exact holdsRow_replicate new
  | cons l old ih =>
    cases left with
    | zero =>
      have hb := ih 0 (Nat.zero_le _)
      have hh : (longestCommonSubsequence old new).headD [] =
          (longestCommonSubsequence old new)[0]?.getD [] := by
        cases longestCommonSubsequence old new <;> rfl
      rw [drop_zero, ← hh] at hb
      exact hb.lcsRow l
    | succ left =>
      rw [length_cons] at hl
      exact ih left (by omega)

/-- Every cell holds the length for what is left of both lists. -/
theorem isLongestCommon_cell (old new : List α) (left ri : Nat) (hl : left ≤ old.length)
    (hr : ri ≤ new.length) : IsLongestCommon (cell (longestCommonSubsequence old new) left ri)
    (old.drop left) (new.drop ri) :=
  (holdsRow_table old new left hl).2 ri hr

/-! ### The script -/

/-- The entries that keep a line. -/
def contexts (steps : List Step) : Nat := (steps.filter (·.kind == .context)).length

/-- The kind of an entry tells which lists it is in; a kept line is the same in both. -/
inductive Step.Sound (old new : List α) : Step → Prop
  | context {left right : Nat} {line : α} (hleft : old[left]? = some line)
      (hright : new[right]? = some line) : Step.Sound old new ⟨.context, some left, some right⟩
  | removed {left : Nat} (hleft : left < old.length) :
      Step.Sound old new ⟨.removed, some left, none⟩
  | added {right : Nat} (hright : right < new.length) :
      Step.Sound old new ⟨.added, none, some right⟩

/-- What a walk from two positions on has to be. -/
structure Faithful (old new : List α) (left right : Nat) (steps : List Step) : Prop where
  /-- Context and removed lines are what is left of the old list. -/
  base : steps.filterMap (·.left) = List.range' left (old.length - left)
  /-- Context and added lines are what is left of the new list. -/
  target : steps.filterMap (·.right) = List.range' right (new.length - right)
  sound : ∀ step ∈ steps, step.Sound old new
  minimal : IsLongestCommon (contexts steps) (old.drop left) (new.drop right)

/-- Positions from one that is not the last. -/
theorem range'_sub_succ {left n : Nat} (h : left < n) :
    List.range' left (n - left) = left :: List.range' (left + 1) (n - (left + 1)) := by
  have hs : n - left = (n - (left + 1)) + 1 := by omega
  rw [hs, List.range'_succ]

theorem remaining_faithful {left ri : Nat} (h : old.length ≤ left ∨ new.length ≤ ri) :
    Faithful old new left ri (remaining old new left ri) := by
  have hr : ∀ p : List Nat, (p.map fun i => (⟨.removed, some i, none⟩ : Step)).filterMap (·.left) =
        p ∧ (p.map fun i => (⟨.removed, some i, none⟩ : Step)).filterMap (·.right) = [] ∧
      (p.map fun i => (⟨.removed, some i, none⟩ : Step)).filter (·.kind == .context) = [] := by
    intro p
    refine ⟨?_, ?_, ?_⟩
    · rw [filterMap_map]
      exact filterMap_some
    · rw [filterMap_map]
      exact filterMap_eq_nil_iff.mpr fun _ _ => rfl
    · rw [filter_map]
      exact map_eq_nil_iff.mpr (filter_eq_nil_iff.mpr fun _ _ => Bool.false_ne_true)
  have ha : ∀ p : List Nat,
      (p.map fun i => (⟨.added, none, some i⟩ : Step)).filterMap (·.left) = [] ∧
      (p.map fun i => (⟨.added, none, some i⟩ : Step)).filterMap (·.right) = p ∧
      (p.map fun i => (⟨.added, none, some i⟩ : Step)).filter (·.kind == .context) = [] := by
    intro p
    refine ⟨?_, ?_, ?_⟩
    · rw [filterMap_map]
      exact filterMap_eq_nil_iff.mpr fun _ _ => rfl
    · rw [filterMap_map]
      exact filterMap_some
    · rw [filter_map]
      exact map_eq_nil_iff.mpr (filter_eq_nil_iff.mpr fun _ _ => Bool.false_ne_true)
  obtain ⟨hl, hrr, hc⟩ :=
    hr (List.range' left (old.length - left))
  obtain ⟨hal, har, hac⟩ :=
    ha (List.range' ri (new.length - ri))
  constructor
  case base =>
    rw [remaining, filterMap_append, hl, hal, append_nil]
  case target =>
    rw [remaining, filterMap_append, hrr, har, nil_append]
  case sound =>
    intro st hs
    rcases mem_append.mp hs with hs | hs
    · obtain ⟨i, hi, rfl⟩ := mem_map.mp hs
      obtain ⟨he, ht⟩ := mem_range'_1.mp hi
      exact .removed (by omega)
    · obtain ⟨i, hi, rfl⟩ := mem_map.mp hs
      obtain ⟨he, ht⟩ := mem_range'_1.mp hi
      exact .added (by omega)
  case minimal =>
    rw [contexts, remaining, filter_append, hc, hac]
    rcases h with h | h
    · rw [drop_eq_nil_of_le h]
      exact nil_left _
    · rw [drop_eq_nil_of_le h]
      exact nil_right _

section

variable {old new : List α} {left r : Nat} {s : List Step}

/-- An equal line is kept. -/
theorem Faithful.context (h : Faithful old new (left + 1) (r + 1) s)
    (hl : left < old.length) (hr : r < new.length) (heq : old[left] = new[r]) :
    Faithful old new left r (⟨.context, some left, some r⟩ :: s) := by
  obtain ⟨hb, ht, hs, hm⟩ := h
  refine ⟨?_, ?_, ?_, ?_⟩
  · rw [range'_sub_succ hl, ← hb]
    rfl
  · rw [range'_sub_succ hr, ← ht]
    rfl
  · refine forall_mem_cons.mpr ⟨?_, hs⟩
    refine .context (List.getElem?_eq_getElem hl) ?_
    rw [List.getElem?_eq_getElem hr, heq]
  · rw [drop_eq_getElem_cons hl, drop_eq_getElem_cons hr, ← heq]
    exact hm.cons_cons _

/-- A line of the old file is removed where nothing is lost by it. -/
theorem Faithful.removed (h : Faithful old new (left + 1) r s) (hl : left < old.length)
    (hm : IsLongestCommon (contexts s) (old.drop left) (new.drop r)) :
    Faithful old new left r (⟨.removed, some left, none⟩ :: s) := by
  refine ⟨?_, h.target, forall_mem_cons.mpr ⟨.removed hl, h.sound⟩, hm⟩
  rw [range'_sub_succ hl, ← h.base]
  rfl

/-- A line of the new file is added where nothing is lost by it. -/
theorem Faithful.added (h : Faithful old new left (r + 1) s) (hr : r < new.length)
    (hm : IsLongestCommon (contexts s) (old.drop left) (new.drop r)) :
    Faithful old new left r (⟨.added, none, some r⟩ :: s) := by
  refine ⟨h.base, ?_, forall_mem_cons.mpr ⟨.added hr, h.sound⟩, hm⟩
  rw [range'_sub_succ hr, ← h.target]
  rfl

/-- At two different lines the larger of two cells counts. -/
theorem isLongestCommon_ne (hl : left < old.length) (hr : r < new.length)
    (hn : old[left] ≠ new[r]) :
    IsLongestCommon (max (cell (longestCommonSubsequence old new) (left + 1) r)
      (cell (longestCommonSubsequence old new) left (r + 1))) (old.drop left) (new.drop r) := by
  have he := isLongestCommon_cell old new (left + 1) r hl (Nat.le_of_lt hr)
  have hb := isLongestCommon_cell old new left (r + 1) (Nat.le_of_lt hl) hr
  rw [drop_eq_getElem_cons hr] at he ⊢
  rw [drop_eq_getElem_cons hl] at hb ⊢
  exact cons_ne hn he hb

end

/-- The walk along the table is faithful from everywhere. -/
theorem walk_faithful (old new : List α) (left ri : Nat) (hl : left ≤ old.length)
    (hi : ri ≤ new.length) : Faithful old new left ri
      (walk (longestCommonSubsequence old new) old new left ri) := by
  induction left, ri using walk.induct (longestCommonSubsequence old new) old new with
  | case1 left ri h heq ih =>
    rw [walk, dif_pos h, if_pos heq]
    exact (ih h.1 h.2).context h.1 h.2 heq
  | case2 left ri h hn hg ih =>
    rw [walk, dif_pos h, if_neg hn, if_pos hg]
    have hr := ih h.1 hi
    refine hr.removed h.1 ?_
    have hm := isLongestCommon_ne h.1 h.2 hn
    rw [Nat.max_eq_left hg] at hm
    rw [hr.minimal.unique (isLongestCommon_cell old new _ _ h.1 hi)]
    exact hm
  | case3 left ri h hn ht ih =>
    rw [walk, dif_pos h, if_neg hn, if_neg ht]
    have hr := ih hl h.2
    refine hr.added h.2 ?_
    have hm := isLongestCommon_ne h.1 h.2 hn
    rw [Nat.max_eq_right (by omega)] at hm
    rw [hr.minimal.unique (isLongestCommon_cell old new _ _ hl h.2)]
    exact hm
  | case4 left ri h =>
    rw [walk, dif_neg h]
    refine remaining_faithful ?_
    rw [not_and_or, Nat.not_lt, Nat.not_lt] at h
    exact h

/-- The script is faithful and minimal. -/
theorem script_faithful (old new : List α) : Faithful old new 0 0 (script old new) :=
  walk_faithful old new 0 0 (Nat.zero_le _) (Nat.zero_le _)

end

/-! ### What is displayed -/

/-- Whether a change is within the lines of context of a position. -/
def near (steps : List Step) (position : Nat) : Bool :=
  steps.zipIdx.any fun item => item.1.kind != .context &&
    decide (item.2 ≤ position + CONTEXT_LINES) && decide (position ≤ item.2 + CONTEXT_LINES)

theorem mem_foldl_window (n p : Nat) (xs : List (Step × Nat)) (k : Finset Nat) :
    p ∈ xs.foldl (fun k x =>
      if x.1.kind = .context then k
      else k ∪ Finset.Icc (x.2 - CONTEXT_LINES) (min (x.2 + CONTEXT_LINES) (n - 1))) k ↔
      p ∈ k ∨ ∃ x ∈ xs, x.1.kind ≠ .context ∧ x.2 - CONTEXT_LINES ≤ p ∧
        p ≤ min (x.2 + CONTEXT_LINES) (n - 1) := by
  induction xs generalizing k with
  | nil => simp
  | cons x xs ih =>
    rw [foldl_cons, ih]
    by_cases hk : x.1.kind = .context
    · rw [if_pos hk]
      simp [hk]
    · rw [if_neg hk]
      simp only [Finset.mem_union, Finset.mem_Icc, mem_cons, exists_eq_or_imp, hk, ne_eq,
        not_false_eq_true, true_and, or_assoc]

/-- The window has the positions that are near to a change. -/
theorem mem_contextWindow {st : List Step} {p : Nat} (h : p < st.length) :
    p ∈ contextWindow st ↔ near st p = true := by
  rw [contextWindow, mem_foldl_window, near, any_eq_true]
  have he : p ∉ (∅ : Finset Nat) := Finset.notMem_empty _
  constructor
  · rintro (ha | ⟨x, hi, hk, hle, hg⟩)
    · exact absurd ha he
    · refine ⟨x, hi, ?_⟩
      have hf : x.2 ≤ p + CONTEXT_LINES := by omega
      have hl : p ≤ x.2 + CONTEXT_LINES := by omega
      simp [hk, hf, hl]
  · rintro ⟨x, hi, hn⟩
    simp only [Bool.and_eq_true, bne_iff_ne, decide_eq_true_eq] at hn
    obtain ⟨⟨hk, hf⟩, hl⟩ := hn
    refine Or.inr ⟨x, hi, hk, by omega, by omega⟩

/-- The displayed lines are those of the entries near to a change. -/
theorem render_eq (old new : List String) : render old new =
    ((script old new).zipIdx.filter fun x => near (script old new) x.2).map fun x =>
      diffLine old new x.1 := by
  have hf : ((script old new).zipIdx.filter fun x =>
      decide (x.2 ∈ contextWindow (script old new))) =
        (script old new).zipIdx.filter fun x => near (script old new) x.2 := by
    refine filter_congr fun x hi => ?_
    obtain ⟨-, hl, -⟩ := mem_zipIdx hi
    rw [Nat.zero_add] at hl
    exact Bool.eq_iff_iff.mpr (decide_eq_true_iff.trans (mem_contextWindow hl))
  rw [render, hf]

/-- A change is near to itself, so it is displayed. -/
theorem diffLine_mem_render {old new : List String} {st : Step} (h : st ∈ script old new)
    (hk : st.kind ≠ .context) : diffLine old new st ∈ render old new := by
  obtain ⟨i, hi⟩ := mem_iff_getElem?.mp h
  have hm : (st, i) ∈ (script old new).zipIdx := by
    rw [mk_mem_zipIdx_iff_getElem?]
    exact hi
  rw [render_eq]
  refine mem_map_of_mem (f := fun x : Step × Nat => diffLine old new x.1) (mem_filter.mpr ⟨hm, ?_⟩)
  rw [near, any_eq_true]
  refine ⟨(st, i), hm, ?_⟩
  simp [hk]

/-- The rendered diff shows a faithful minimal edit script, and every change of it. -/
structure Renders (old new : List String) (steps : List Step) (shown : List DiffLine) : Prop where
  /-- Context and removed entries are the old file with consecutive indices. -/
  base : steps.filterMap (·.left) = List.range old.length
  /-- Context and added entries are the new file with consecutive indices. -/
  target : steps.filterMap (·.right) = List.range new.length
  sound : ∀ step ∈ steps, step.Sound old new
  minimal : IsLongestCommon (contexts steps) old new
  window : shown = (steps.zipIdx.filter fun item => near steps item.2).map fun item =>
    diffLine old new item.1
  removed : ∀ index line, ⟨.removed, some index, none⟩ ∈ steps → old[index]? = some line →
    ⟨.removed, some (index + 1), none, escape line⟩ ∈ shown
  added : ∀ index line, ⟨.added, none, some index⟩ ∈ steps → new[index]? = some line →
    ⟨.added, none, some (index + 1), escape line⟩ ∈ shown

/-- The rendered diff of any two files is faithful and minimal. -/
theorem render_renders (old new : List String) :
    Renders old new (script old new) (render old new) := by
  obtain ⟨hb, ht, ho, hm⟩ := script_faithful old new
  rw [Nat.sub_zero, ← range_eq_range'] at hb ht
  refine ⟨hb, ht, ho, hm, render_eq old new, ?_, ?_⟩
  · intro i l hst hl
    have hs := diffLine_mem_render hst (fun hk => nomatch hk)
    simpa [diffLine, hl] using hs
  · intro i l hst hl
    have hs := diffLine_mem_render hst (fun hk => nomatch hk)
    simpa [diffLine, hl] using hs

end Louiselm.Review
