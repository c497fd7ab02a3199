import Mathlib.Algebra.BigOperators.Group.List.Lemmas
import Mathlib.Algebra.GroupWithZero.Nat
import Mathlib.Data.List.Dedup
import Mathlib.Data.List.Perm.Basic
import Mathlib.Order.Lattice

/-!
# Rows of tables in an order

Grouping rows, choosing one row of every partition, counting values and joining on keys. Rows come
in an order, as an engine visits them: a group keeps the order of its rows, the first of several
equal rows is chosen, and a join goes through its left rows one after the other.
-/

namespace Louiselm.Base.Rows
open List

/-! ### Distinct values -/

section

variable {κ : Type} [DecidableEq κ]

theorem nodup_eraseDups (vs : List κ) : vs.eraseDups.Nodup := by
  induction h : vs.length using Nat.strong_induction_on generalizing vs with
  | _ n ih =>
    cases vs with
    | nil => exact nodup_nil
    | cons v xs =>
      rw [eraseDups_cons, nodup_cons]
      constructor
      · rw [mem_eraseDups, mem_filter]
        simp
      · refine ih _ ?_ _ rfl
        rw [← h, length_cons]
        exact Nat.lt_succ_of_le (length_filter_le _ _)

/-- Distinct values are the same however they are ordered. -/
theorem eraseDups_perm {vs o : List κ} (h : ∀ v, v ∈ vs ↔ v ∈ o) :
    vs.eraseDups.Perm o.eraseDups := by
  rw [perm_ext_iff_of_nodup (nodup_eraseDups _) (nodup_eraseDups _)]
  intro v
  rw [mem_eraseDups, mem_eraseDups, h]

theorem eraseDups_perm_dedup (vs : List κ) : vs.eraseDups.Perm vs.dedup := by
  rw [perm_ext_iff_of_nodup (nodup_eraseDups _) (nodup_dedup _)]
  intro v
  rw [mem_eraseDups, mem_dedup]

/-- How many values there are, nulls and repetitions apart. -/
def countDistinct (values : List (Option κ)) : Nat := (values.filterMap id).eraseDups.length

theorem countDistinct_perm {vs o : List (Option κ)} (h : vs.Perm o) :
    countDistinct vs = countDistinct o :=
  (eraseDups_perm fun _ => (h.filterMap id).mem_iff).length_eq

end

/-! ### Groups -/

section

variable {α κ : Type} [DecidableEq κ]

/-- The rows with a key. -/
def group (key : α → κ) (rows : List α) (k : κ) : List α := rows.filter fun row => key row = k

/-- The rows by their keys, in the order in which the keys appear. -/
def groups (key : α → κ) (rows : List α) : List (κ × List α) :=
  (rows.map key).eraseDups.map fun k => (k, group key rows k)

variable {key : α → κ} {ro : List α}

@[simp] theorem mem_group {k : κ} {row : α} : row ∈ group key ro k ↔ row ∈ ro ∧ key row = k := by
  rw [group, mem_filter, decide_eq_true_iff]

theorem group_perm {o : List α} (h : ro.Perm o) (k : κ) :
    (group key ro k).Perm (group key o k) := h.filter _

theorem group_flatMap (key : α → κ) {σ : Type} (b : σ → List α) (o : List σ) (k : κ) :
    group key (o.flatMap b) k = o.flatMap fun s => group key (b s) k := by
  rw [group, filter_flatMap]
  rfl

theorem group_map {β : Type} (key : β → κ) (f : α → β) (ro : List α) (k : κ) :
    group key (ro.map f) k = (group (key ∘ f) ro k).map f := by
  rw [group, filter_map]
  rfl

theorem group_ne_nil {k : κ} (h : k ∈ ro.map key) : group key ro k ≠ [] := by
  obtain ⟨row, hr, hk⟩ := mem_map.mp h
  exact ne_nil_of_mem (mem_group.mpr ⟨hr, hk⟩)

/-- Every row is in one group. -/
theorem sum_length_groups (key : α → κ) (ro : List α) :
    ((groups key ro).map fun x => x.2.length).sum = ro.length := by
  have hc : ∀ k, (group key ro k).length = (ro.map key).count k := by
    intro k
    rw [group, ← countP_eq_length_filter, List.count, countP_map]
    refine countP_congr fun row _ => ?_
    simp
  have hs := sum_map_count_dedup_eq_length (ro.map key)
  rw [length_map] at hs
  rw [groups, map_map, ← hs, ← ((eraseDups_perm_dedup (ro.map key)).map _).sum_eq]
  refine congrArg List.sum (map_congr_left fun k _ => ?_)
  exact hc k

end

/-! ### Choosing a row -/

section

variable {α κ ι : Type} [DecidableEq κ] [LinearOrder ι]

/-- The first of the rows with the least key. -/
def firstBy (key : α → ι) : List α → Option α
  | [] => none
  | row :: rows => some (match firstBy key rows with
    | none => row
    | some other => if key other < key row then other else row)

/-- The rows that are the first of their partition. -/
def chosen (part : α → κ) (key : α → ι) (rows : List α) : List α :=
  (groups part rows).filterMap fun item => firstBy key item.2

variable {rows : List α}

theorem firstBy_isSome (key : α → ι) (h : rows ≠ []) : ∃ row, firstBy key rows = some row := by
  cases rows with
  | nil => exact absurd rfl h
  | cons row rows => exact ⟨_, rfl⟩

variable {key : α → ι} {row : α}

/-- What is chosen has the least key, and is the first that has it. -/
theorem firstBy_eq_some (h : firstBy key rows = some row) :
    (∀ o ∈ rows, key row ≤ key o) ∧ (group key rows (key row)).head? = some row := by
  induction rows generalizing row with
  | nil => contradiction
  | cons x rows ih =>
    rw [firstBy] at h
    have hw := Option.some.inj h
    cases hr : firstBy key rows with
    | none =>
      have hn : rows = [] := by
        by_contra he
        obtain ⟨o, ho⟩ := firstBy_isSome key he
        rw [hr] at ho
        contradiction
      rw [hr] at hw
      subst hw hn
      constructor
      · intro o ho
        rw [mem_singleton.mp ho]
      · simp [group]
    | some b =>
      obtain ⟨hl, hh⟩ := ih hr
      rw [hr] at hw
      dsimp only at hw
      split at hw
      · next ht =>
        subst hw
        constructor
        · intro o ho
          rcases mem_cons.mp ho with rfl | ho
          · exact ht.le
          · exact hl o ho
        · rw [group, filter_cons_of_neg (by simpa using ht.ne')]
          exact hh
      · next hle =>
        subst hw
        constructor
        · intro o ho
          rcases mem_cons.mp ho with rfl | ho
          · exact le_rfl
          · exact (not_lt.mp hle).trans (hl o ho)
        · rw [group, filter_cons_of_pos (by simp)]
          rfl

theorem mem_of_firstBy (h : firstBy key rows = some row) : row ∈ rows :=
  (mem_group.mp (mem_of_mem_head? (firstBy_eq_some h).2)).1

/-- The choice depends only on what rows there are with every key. -/
theorem firstBy_congr {o : List α} (hp : rows.Perm o)
    (h : ∀ k, group key rows k = group key o k) : firstBy key rows = firstBy key o := by
  by_cases hn : rows = []
  · subst hn
    rw [nil_perm.mp hp]
  · have ho : o ≠ [] := fun heq => hn (perm_nil.mp (heq ▸ hp))
    obtain ⟨row, hr⟩ := firstBy_isSome key hn
    obtain ⟨r', hr'⟩ := firstBy_isSome key ho
    obtain ⟨hl, hh⟩ := firstBy_eq_some hr
    obtain ⟨hl', hh'⟩ := firstBy_eq_some hr'
    have hk : key row = key r' := by
      apply le_antisymm
      · exact hl r' (hp.mem_iff.mpr (mem_of_firstBy hr'))
      · exact hl' row (hp.mem_iff.mp (mem_of_firstBy hr))
    rw [hk, h, hh'] at hh
    rw [hr, hr', Option.some.inj hh]

theorem firstBy_congr_key {o : α → ι} (h : ∀ row ∈ rows, key row = o row) :
    firstBy key rows = firstBy o rows := by
  induction rows with
  | nil => rfl
  | cons row rows ih =>
    have hr := ih fun row ho => h row (mem_cons_of_mem _ ho)
    rw [firstBy, firstBy, ← hr]
    cases hf : firstBy key rows with
    | none => rfl
    | some f =>
      dsimp only
      rw [h row mem_cons_self, h f (mem_cons_of_mem _ (mem_of_firstBy hf))]

/-- One row is chosen of every partition. -/
theorem map_chosen (part : α → κ) (key : α → ι) (rows : List α) :
    (chosen part key rows).map part = (rows.map part).eraseDups := by
  have ha : ∀ p : List κ, (∀ k ∈ p, k ∈ rows.map part) →
      ((p.map fun k => (k, group part rows k)).filterMap fun x =>
        firstBy key x.2).map part = p := by
    intro p hp
    induction p with
    | nil => rfl
    | cons k p ih =>
      obtain ⟨row, ho⟩ := firstBy_isSome key (group_ne_nil (hp k mem_cons_self))
      have hpa : part row = k := (mem_group.mp (mem_of_firstBy ho)).2
      have hr := ih fun k hk => hp k (mem_cons_of_mem _ hk)
      rw [map_cons, filterMap_cons]
      dsimp only
      rw [ho, map_cons, hpa, hr]
  exact ha _ fun k hk => mem_eraseDups.mp hk

variable {pa : α → κ}

theorem mem_chosen :
    row ∈ chosen pa key rows ↔ firstBy key (group pa rows (pa row)) = some row := by
  rw [chosen, mem_filterMap]
  constructor
  · rintro ⟨x, hi, hr⟩
    obtain ⟨k, -, rfl⟩ := mem_map.mp hi
    have hp : pa row = k := (mem_group.mp (mem_of_firstBy hr)).2
    rw [hp]
    exact hr
  · intro h
    refine ⟨(pa row, group pa rows (pa row)), mem_map.mpr ⟨pa row, ?_, rfl⟩, h⟩
    exact mem_eraseDups.mpr (mem_map_of_mem (mem_group.mp (mem_of_firstBy h)).1)

theorem firstBy_map {β : Type} (key : β → ι) (f : α → β) (rows : List α) :
    firstBy key (rows.map f) = (firstBy (key ∘ f) rows).map f := by
  induction rows with
  | nil => rfl
  | cons row rows ih =>
    rw [map_cons, firstBy, firstBy, ih]
    cases firstBy (key ∘ f) rows with
    | none => rfl
    | some o =>
      rw [Option.map_some, Option.map_some, apply_ite f]
      rfl

theorem chosen_map {β : Type} (pa : β → κ) (key : β → ι) (f : α → β) (rows : List α) :
    chosen pa key (rows.map f) = (chosen (pa ∘ f) (key ∘ f) rows).map f := by
  rw [chosen, chosen, groups, groups, map_map, filterMap_map, filterMap_map, map_filterMap]
  refine filterMap_congr fun k _ => ?_
  rw [Function.comp_apply, Function.comp_apply, group_map, firstBy_map]

/-- The least of some values. -/
def least (values : List ι) : Option ι := firstBy id values

theorem least_perm {vs o : List ι} (h : vs.Perm o) : least vs = least o := by
  by_cases hn : vs = []
  · subst hn
    rw [nil_perm.mp h]
  · have ho : o ≠ [] := fun heq => hn (perm_nil.mp (heq ▸ h))
    obtain ⟨v, hv⟩ := firstBy_isSome id hn
    obtain ⟨v', hv'⟩ := firstBy_isSome id ho
    have hl : v ≤ v' :=
      (firstBy_eq_some hv).1 _ (h.mem_iff.mpr (mem_of_firstBy hv'))
    have hg : v' ≤ v :=
      (firstBy_eq_some hv').1 _ (h.mem_iff.mp (mem_of_firstBy hv))
    rw [least, least, hv, hv', le_antisymm hl hg]

theorem chosen_congr_key {o : α → ι} (h : ∀ row ∈ rows, key row = o row) :
    chosen pa key rows = chosen pa o rows := by
  rw [chosen, chosen]
  refine filterMap_congr fun x hi => firstBy_congr_key fun row hr => h row ?_
  obtain ⟨k, -, rfl⟩ := mem_map.mp hi
  exact (mem_group.mp hr).1

/-- The chosen rows are the same where those of every partition are. -/
theorem chosen_perm {o : List α}
    (h : ∀ k, firstBy key (group pa rows k) = firstBy key (group pa o k)) :
    (chosen pa key rows).Perm (chosen pa key o) := by
  have hn : ∀ rows : List α, (chosen pa key rows).Nodup := by
    intro rows
    refine List.Nodup.of_map pa ?_
    rw [map_chosen]
    exact nodup_eraseDups _
  rw [perm_ext_iff_of_nodup (hn _) (hn _)]
  intro row
  rw [mem_chosen, mem_chosen, h]

end

/-! ### Rows in blocks -/

section

variable {α κ ι σ : Type} [DecidableEq κ] [DecidableEq σ] [LinearOrder ι]

variable {bl : σ → List α} {or : List σ}

/-- Where a key tells the block of a row, the rows with it are those of one block. -/
theorem group_blocks {key : α → κ} (b : κ → σ) (hb : ∀ s, ∀ row ∈ bl s, b (key row) = s)
    (hn : or.Nodup) (k : κ) : group key (or.flatMap bl) k =
      if b k ∈ or then group key (bl (b k)) k else [] := by
  have ho : ∀ s, s ≠ b k → group key (bl s) k = [] := by
    intro s hs
    refine filter_eq_nil_iff.mpr fun row hr heq => hs ?_
    rw [← hb s row hr, of_decide_eq_true heq]
  rw [group_flatMap]
  induction or with
  | nil => rfl
  | cons s or ih =>
    rw [nodup_cons] at hn
    rw [flatMap_cons, ih hn.2]
    by_cases hs : s = b k
    · rw [if_neg (hs ▸ hn.1), append_nil, if_pos (hs ▸ mem_cons_self), hs]
    · rw [ho s hs, nil_append]
      refine if_congr ?_ rfl rfl
      rw [mem_cons]
      exact ⟨Or.inr, fun h => h.resolve_left fun heq => hs heq.symm⟩

/-- Then the choice does not depend on the order of the blocks. -/
theorem firstBy_blocks {key : α → ι} (b : ι → σ) (hb : ∀ s, ∀ row ∈ bl s, b (key row) = s)
    {o : List σ} (hn : or.Nodup) (hp : or.Perm o) :
    firstBy key (or.flatMap bl) = firstBy key (o.flatMap bl) := by
  refine firstBy_congr (hp.flatMap_right bl) fun k => ?_
  rw [group_blocks b hb hn, group_blocks b hb (hp.nodup_iff.mp hn)]
  exact if_congr hp.mem_iff rfl rfl

/-- The blocks of some rows are named in their order. -/
theorem eraseDups_blocks {tag : α → σ} (ht : ∀ s, ∀ row ∈ bl s, tag row = s) (hn : or.Nodup) :
    ((or.flatMap bl).map tag).eraseDups = or.filter fun s => !(bl s).isEmpty := by
  induction or with
  | nil => rfl
  | cons s or ih =>
    rw [nodup_cons] at hn
    rw [flatMap_cons, map_append, filter_cons]
    cases hb : bl s with
    | nil => simpa using ih hn.2
    | cons row rows =>
      have hw : tag row = s := ht s row (hb ▸ mem_cons_self)
      have hr : (rows.map tag).filter (fun b => !b == s) = [] := by
        refine filter_eq_nil_iff.mpr fun n ha => ?_
        obtain ⟨l, hl, rfl⟩ := mem_map.mp ha
        rw [ht s l (hb ▸ mem_cons_of_mem _ hl)]
        simp
      have ho : ((or.flatMap bl).map tag).filter (fun b => !b == s) = (or.flatMap bl).map tag := by
        refine filter_eq_self.mpr fun n ha => ?_
        obtain ⟨l, hl, rfl⟩ := mem_map.mp ha
        obtain ⟨o, hot, hm⟩ := mem_flatMap.mp hl
        rw [ht o l hm]
        have he : o ≠ s := fun heq => hn.1 (heq ▸ hot)
        simpa using he
      rw [map_cons, cons_append, eraseDups_cons, filter_append, hw, hr, nil_append, ho, ih hn.2]
      rfl

end

/-! ### Joining -/

section

variable {α β κ : Type} [DecidableEq κ]

/-- The rows with a key; a null matches nothing. -/
def matching (right : β → Option κ) (others : List β) : Option κ → List β
  | none => []
  | some k => others.filter fun other => right other = some k

/-- Every row with every row that has its key. -/
def join (left : α → Option κ) (right : β → Option κ) (rows : List α) (others : List β) :
    List (α × β) :=
  rows.flatMap fun row => (matching right others (left row)).map fun other => (row, other)

/-- And rows whose key no other row has, alone. -/
def leftJoin (left : α → Option κ) (right : β → Option κ) (rows : List α) (others : List β) :
    List (α × Option β) :=
  rows.flatMap fun row =>
    match matching right others (left row) with
    | [] => [(row, none)]
    | found => found.map fun other => (row, some other)

/-- The first row with a key. -/
def lookup (right : β → Option κ) (others : List β) (k : κ) : Option β :=
  others.find? fun other => right other = some k

variable {left : α → Option κ} {r : β → Option κ} {rows : List α} {os : List β}

/-- At most one row has a key where no two have the same. -/
theorem matching_eq (h : (os.filterMap r).Nodup) (k : Option κ) :
    matching r os k = (k.bind (lookup r os)).toList := by
  cases k with
  | none => rfl
  | some k =>
    rw [matching, Option.bind_some, lookup]
    induction os with
    | nil => rfl
    | cons o os ih =>
      by_cases hk : r o = some k
      · rw [filterMap_cons_some hk, nodup_cons] at h
        have hn : (os.filter fun o => r o = some k) = [] := by
          refine filter_eq_nil_iff.mpr fun l hl heq => h.1 ?_
          exact mem_filterMap.mpr ⟨l, hl, of_decide_eq_true heq⟩
        rw [filter_cons_of_pos (by simpa using hk), hn, List.find?_cons_of_pos (by simpa using hk)]
        rfl
      · rw [filter_cons_of_neg (by simpa using hk), List.find?_cons_of_neg (by simpa using hk)]
        refine ih (h.sublist ?_)
        exact (sublist_cons_self o os).filterMap r

/-- A left join on distinct keys keeps every row once. -/
theorem leftJoin_eq (h : (os.filterMap r).Nodup) : leftJoin left r rows os =
      rows.map fun row => (row, (left row).bind (lookup r os)) := by
  rw [leftJoin, map_eq_flatMap]
  refine congrArg (List.flatMap · rows) (funext fun row => ?_)
  rw [matching_eq h]
  cases (left row).bind (lookup r os) <;> rfl

/-- So does a join where every row has a match. -/
theorem join_eq (h : (os.filterMap r).Nodup) {f : α → β}
    (hf : ∀ row ∈ rows, (left row).bind (lookup r os) = some (f row)) :
    join left r rows os = rows.map fun row => (row, f row) := by
  rw [join]
  induction rows with
  | nil => rfl
  | cons row rows ih =>
    rw [flatMap_cons, map_cons, ih fun row hr => hf row (mem_cons_of_mem _ hr),
      matching_eq h, hf row mem_cons_self]
    rfl

theorem lookup_self (os : List κ) (k : κ) : lookup some os k = if k ∈ os then some k else none := by
  induction os with
  | nil => rfl
  | cons o os ih =>
    by_cases heq : o = k
    · rw [lookup, List.find?_cons_of_pos (by simpa using heq), heq, if_pos mem_cons_self]
    · rw [lookup, List.find?_cons_of_neg (by simpa using heq), ← lookup, ih]
      refine if_congr ?_ rfl rfl
      rw [mem_cons]
      exact ⟨Or.inr, fun h => h.resolve_left (Ne.symm heq)⟩

/-- What is found by a key among what groups come to. -/
theorem lookup_groups {γ : Type} [DecidableEq γ] {key : α → γ} {e : κ → γ}
    {f : γ × List α → Option β} (he : Function.Injective e)
    (hf : ∀ it y, f it = some y → ∃ k, r y = some k ∧ e k = it.1) (rows : List α) (k : κ)
    [Decidable (e k ∈ rows.map key)] : lookup r ((groups key rows).filterMap f) k =
      if e k ∈ rows.map key then f (e k, group key rows (e k)) else none := by
  have ha : ∀ ke : List γ, ke.Nodup →
      lookup r ((ke.map fun k => (k, group key rows k)).filterMap f) k =
        if e k ∈ ke then f (e k, group key rows (e k)) else none := by
    intro ke hn
    induction ke with
    | nil => rfl
    | cons x ke ih =>
      rw [nodup_cons] at hn
      have hre := ih hn.2
      rw [map_cons, filterMap_cons]
      cases ho : f (x, group key rows x) with
      | none =>
        rw [hre]
        by_cases heq : e k = x
        · rw [if_neg (heq ▸ hn.1), if_pos (heq ▸ mem_cons_self), heq, ho]
        · refine if_congr ?_ rfl rfl
          rw [mem_cons]
          exact ⟨Or.inr, fun h => h.resolve_left heq⟩
      | some y =>
        obtain ⟨own, hr, hw⟩ := hf _ _ ho
        by_cases heq : e k = x
        · have hk : own = k := he (hw.trans heq.symm)
          rw [lookup, List.find?_cons_of_pos (by simp [hr, hk]),
            if_pos (heq ▸ mem_cons_self), heq, ho]
        · have hk : own ≠ k := fun h => heq (h ▸ hw)
          rw [lookup, List.find?_cons_of_neg (by simp [hr, hk]), ← lookup, hre]
          refine if_congr ?_ rfl rfl
          rw [mem_cons]
          exact ⟨Or.inr, fun h => h.resolve_left heq⟩
  rw [groups, ha _ (nodup_eraseDups _)]
  refine if_congr ?_ rfl rfl
  rw [mem_eraseDups]

omit [DecidableEq κ] in
/-- Groups have distinct keys, whatever is made of them. -/
theorem nodup_groups {γ : Type} [DecidableEq γ] {key : α → γ} (e : κ → γ)
    {f : γ × List α → Option β} (hf : ∀ it y, f it = some y → ∃ k, r y = some k ∧ e k = it.1)
    (rows : List α) : (((groups key rows).filterMap f).filterMap r).Nodup := by
  have ha : ∀ ke : List γ, ke.Nodup →
      ((((ke.map fun k => (k, group key rows k)).filterMap f).filterMap r).map e).Sublist ke := by
    intro ke hn
    induction ke with
    | nil => exact List.Sublist.refl _
    | cons x ke ih =>
      have hr := ih (nodup_cons.mp hn).2
      rw [map_cons, filterMap_cons]
      cases hfo : f (x, group key rows x) with
      | none => exact hr.cons x
      | some y =>
        obtain ⟨own, hi, ho⟩ := hf _ _ hfo
        dsimp only
        rw [filterMap_cons_some hi, map_cons, ho]
        exact hr.cons_cons x
  have hn := nodup_eraseDups (rows.map key)
  exact (hn.sublist (ha _ hn)).of_map e

end

/-! ### One order and another -/

theorem not_sublist_swap {σ : Type} {o : List σ} (hn : o.Nodup) {a b : σ}
    (h : [a, b].Sublist o) : ¬ [b, a].Sublist o := by
  induction o with
  | nil => exact fun hs => by cases hs
  | cons x o ih =>
    rw [nodup_cons] at hn
    intro hs
    rcases sublist_cons_iff.mp h with hl | ⟨xs, heq, hr⟩
    · rcases sublist_cons_iff.mp hs with hl' | ⟨xs, heq, -⟩
      · exact ih hn.2 hl hl'
      · obtain ⟨rfl, -⟩ := List.cons.inj heq
        exact hn.1 (hl.subset (mem_cons_of_mem _ mem_cons_self))
    · obtain ⟨rfl, rfl⟩ := List.cons.inj heq
      rcases sublist_cons_iff.mp hs with hl' | ⟨xs, heq, -⟩
      · exact hn.1 (hl'.subset (mem_cons_of_mem _ mem_cons_self))
      · obtain ⟨rfl, -⟩ := List.cons.inj heq
        exact hn.1 (hr.subset mem_cons_self)

/-- Where two orders of the same values put every two values that a predicate holds of alike, they
leave it the same list, and only there. -/
theorem filter_eq_iff {σ : Type} {ord o : List σ} (he : ord.Perm o)
    (hn : ord.Nodup) (p : σ → Bool) : ord.filter p = o.filter p ↔
      ∀ a b, p a = true → p b = true → ([a, b].Sublist ord ↔ [a, b].Sublist o) := by
  have hpa : ∀ {vs : List σ} {a b : σ}, p a = true → p b = true →
      ([a, b].Sublist vs ↔ [a, b].Sublist (vs.filter p)) := by
    intro vs a b ha hb
    constructor
    · intro h
      simpa [ha, hb] using h.filter p
    · exact fun h => h.trans filter_sublist
  constructor
  · intro h a b ha hb
    rw [hpa ha hb, h, ← hpa ha hb]
  · intro h
    have hp : ∀ a b, a ∈ ord.filter p → b ∈ o.filter p → [a, b].Sublist ord →
        [b, a].Sublist ord → a = b :=
      fun a b _ _ hab hba => absurd hba (not_sublist_swap hn hab)
    refine List.Perm.eq_of_pairwise hp ?_ ?_ (he.filter p)
    · exact pairwise_iff_forall_sublist.mpr fun hab => hab.trans filter_sublist
    · refine pairwise_iff_forall_sublist.mpr fun {a b} hab => ?_
      have ha : p a = true := (mem_filter.mp (hab.subset mem_cons_self)).2
      have hb : p b = true :=
        (mem_filter.mp (hab.subset (mem_cons_of_mem _ mem_cons_self))).2
      exact (h a b ha hb).mpr (hab.trans filter_sublist)

end Louiselm.Base.Rows
