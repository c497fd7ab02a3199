import Louiselm.Attention.Store

/-!
# What an operation makes of the Attention file

Every operation of `capture-service/src/attention.rs` first drops the resolved local Parks and
then changes the conditions at most once. Each of these changes keeps the file as it has to
be to be loaded again, and takes the next generation.
-/

namespace Louiselm.Attention
open Base Canonical List AttentionItem

/-! ### Files that can be loaded -/

/-- The items are valid, in order, and under distinct keys. -/
structure Tidy (uuid : String → Option String) (items : List AttentionItem) : Prop where
  valid : ∀ item ∈ items, validateItem uuid item = .ok ()
  sorted : items.Pairwise Upto
  distinct : (items.map (·.key)).Nodup

/-- A file that passes its check, with keys that are distinct even where they are not
neighbours. -/
structure Loadable (uuid : String → Option String) (state : PersistedAttention) : Prop where
  cursor : ∀ cursor ∈ state.brokerProjection, cursor.validate = .ok ()
  version : state.schemaVersion = 1
  items : Tidy uuid state.items

instance : Std.Total Upto := ⟨fun a b => le_total a.sortKey b.sortKey⟩

instance : IsTrans AttentionItem Upto := ⟨fun _ _ _ h h' => le_trans h h'⟩

/-- Whether an item is in order depends on nothing but its place in the order. -/
theorem pairwise_upto_congr {i os : List AttentionItem}
    (h : os.map (·.sortKey) = i.map (·.sortKey)) (hs : i.Pairwise Upto) :
    os.Pairwise Upto := by
  have hk : (i.map (·.sortKey)).Pairwise (· ≤ ·) := pairwise_map.mpr hs
  rw [← h, pairwise_map] at hk
  exact hk

theorem adjacentKeys_eq_false {i : List AttentionItem} (h : (i.map (·.key)).Nodup) :
    adjacentKeys i = false := by
  induction i with
  | nil => rfl
  | cons x l ih =>
    cases l with
    | nil => rfl
    | cons s l =>
      rw [map_cons, nodup_cons, map_cons, mem_cons, not_or] at h
      rw [adjacentKeys, ih h.2, Bool.or_false, beq_eq_false_iff_ne]
      exact h.1.1

variable {u : String → Option String} {sha256 : Sha256} {xs : List AttentionItem}

/-- A loadable file passes the check of its next read. -/
theorem Loadable.validateState {s : PersistedAttention} (h : Loadable u s) :
    validateState u s = .ok () := by
  obtain ⟨hc, hv, ha, hs, hd⟩ := h
  have ho : sortItems s.items = s.items := hs.insertionSort_eq
  have hi : s.items.forM (validateItem u) = .ok () := forM_ok.mpr ha
  unfold Attention.validateState
  rw [ho, adjacentKeys_eq_false hd]
  cases hp : s.brokerProjection with
  | none => simp [hv, hi]
  | some c => simp [hv, hi, hc c hp]

theorem Tidy.sublist {k : List AttentionItem} (h : Tidy u xs) (hs : k.Sublist xs) : Tidy u k where
  valid := fun item hm => h.valid item (hs.subset hm)
  sorted := h.sorted.sublist hs
  distinct := h.distinct.sublist (hs.map _)

/-- Items of one key are one item. -/
theorem Tidy.eq_of_key {a b : AttentionItem} (h : Tidy u xs) (ha : a ∈ xs) (hb : b ∈ xs)
    (hk : a.key = b.key) : a = b :=
  inj_on_of_nodup_map h.distinct ha hb hk

/-- Sorting puts valid items under distinct keys in order. -/
theorem tidy_sortItems (hv : ∀ item ∈ xs, validateItem u item = .ok ())
    (hd : (xs.map (·.key)).Nodup) : Tidy u (sortItems xs) where
  valid := fun item hm => hv item ((mem_insertionSort _).mp hm)
  sorted := pairwise_insertionSort _ xs
  distinct := ((perm_insertionSort _ xs).map _).nodup_iff.mpr hd

/-! ### Replacing an item -/

variable {key : AttentionKey} {cha : AttentionItem → AttentionItem}

/-- What a change of the item keeps, replacing it keeps of the list. -/
theorem map_replaceItem {β : Type} {f : AttentionItem → β}
    (h : ∀ item ∈ xs, item.key = key → f (cha item) = f item) :
    (replaceItem key cha xs).map f = xs.map f := by
  induction xs with
  | nil => rfl
  | cons item l ih =>
    obtain ⟨hi, hr⟩ := forall_mem_cons.mp h
    rw [replaceItem]
    split
    · next hk => rw [map_cons, map_cons, hi hk]
    · rw [map_cons, map_cons, ih hr]

variable {it : AttentionItem}

theorem mem_replaceItem (h : it ∈ replaceItem key cha xs) :
    it ∈ xs ∨ ∃ old ∈ xs, old.key = key ∧ it = cha old := by
  induction xs with
  | nil => exact .inl h
  | cons x l ih =>
    rw [replaceItem] at h
    split at h
    · next hk =>
      rcases mem_cons.mp h with rfl | hm
      · exact .inr ⟨x, mem_cons_self, hk, rfl⟩
      · exact .inl (mem_cons_of_mem _ hm)
    · rcases mem_cons.mp h with rfl | hm
      · exact .inl mem_cons_self
      · rcases ih hm with hold | ⟨old, hold, hk, heq⟩
        · exact .inl (mem_cons_of_mem _ hold)
        · exact .inr ⟨old, mem_cons_of_mem _ hold, hk, heq⟩

variable (cha) in
/-- The item that was found is the one that is replaced. -/
theorem change_mem_replaceItem (h : xs.find? (·.key == key) = some it) :
    cha it ∈ replaceItem key cha xs := by
  induction xs with
  | nil => simp at h
  | cons x l ih =>
    rw [replaceItem]
    rw [List.find?_cons] at h
    split at h
    · next hk =>
      obtain rfl := Option.some.inj h
      rw [if_pos (beq_iff_eq.mp hk)]
      exact mem_cons_self
    · next hk =>
      rw [if_neg (by simpa using hk)]
      exact mem_cons_of_mem _ (ih h)

theorem mem_and_key_of_find (h : xs.find? (·.key == key) = some it) : it ∈ xs ∧ it.key = key :=
  ⟨mem_of_find?_eq_some h, by simpa using List.find?_some h⟩

variable (key cha) in
/-- Replacing an item by a valid one of its key keeps the others. -/
theorem tidy_replaceItem (h : Tidy u xs)
    (hv : ∀ it ∈ xs, it.key = key → validateItem u (cha it) = .ok ())
    (hk : ∀ it ∈ xs, it.key = key → (cha it).key = it.key) :
    (∀ it ∈ replaceItem key cha xs, validateItem u it = .ok ()) ∧
      ((replaceItem key cha xs).map (·.key)).Nodup := by
  constructor
  · intro it hm
    rcases mem_replaceItem hm with hold | ⟨old, hold, ho, rfl⟩
    · exact h.valid it hold
    · exact hv old hold ho
  · rw [map_replaceItem hk]
    exact h.distinct

/-- An item of a new key can be added. -/
theorem tidy_append (h : Tidy u xs) (hi : validateItem u it = .ok ())
    (ha : ∀ old ∈ xs, old.key ≠ it.key) : Tidy u (sortItems (xs ++ [it])) := by
  apply tidy_sortItems
  · intro o hm
    rcases mem_append.mp hm with hold | hn
    · exact h.valid o hold
    · rw [mem_singleton.mp hn]
      exact hi
  · rw [map_append, nodup_append]
    refine ⟨h.distinct, nodup_singleton _, ?_⟩
    rintro _ hold _ hn rfl
    obtain ⟨old, hm, hk⟩ := mem_map.mp hold
    exact ha old hm (hk.trans (by simpa using hn))

/-! ### Reports -/

variable {d : AttentionDraft}

/-- The item of a valid report is valid, whatever its eligibility. -/
theorem validateItem_item (h : validateDraft u d = .ok ()) (e : Bool) :
    validateItem u (d.item e) = .ok () := by
  simp only [validateDraft, check_ok] at h
  obtain ⟨hk, hc, ho, hd, hw⟩ := h
  simp only [validateItem, check_ok]
  exact ⟨hk, hc, by simp [AttentionDraft.item], ho, hd, hw⟩

/-- An item stays valid with the time of another one. -/
theorem validateItem_createdAt {c : AttentionItem} (h : validateItem u it = .ok ())
    (hc : validateItem u c = .ok ()) :
    validateItem u { it with createdAtMs := c.createdAtMs } = .ok () := by
  simp only [validateItem, check_ok] at h hc ⊢
  exact ⟨h.1, hc.2.1, h.2.2⟩

theorem upsertItems_tidy {ch : List AttentionItem} (h : Tidy u xs) (hd : validateDraft u d = .ok ())
    (hc : upsertItems sha256 d xs = some ch) : Tidy u (sortItems ch) ∧ sortItems ch ≠ xs := by
  unfold upsertItems at hc
  split at hc
  · next ho =>
    obtain rfl := Option.some.inj hc
    have ha : ∀ it ∈ xs, it.key ≠ d.key := by simpa using ho
    refine ⟨tidy_append h (validateItem_item hd false) ha, fun heq => ?_⟩
    have hl := congrArg List.length heq
    simp [sortItems] at hl
  · next c hf =>
    obtain ⟨hm, hu⟩ := mem_and_key_of_find hf
    dsimp only at hc
    obtain ⟨it, hi⟩ : ∃ it : AttentionItem, it = if isLocalPark sha256 d.key then
      { d.item c.eligible with createdAtMs := c.createdAtMs }
      else d.item c.eligible := ⟨_, rfl⟩
    rw [← hi] at hc
    split at hc
    · simp at hc
    next hdi =>
    obtain rfl := Option.some.inj hc
    have hk : it.key = d.key := by
      rw [hi]
      split <;> rfl
    have hv : validateItem u it = .ok () := by
      rw [hi]
      split
      · exact validateItem_createdAt (validateItem_item hd _) (h.valid c hm)
      · exact validateItem_item hd _
    obtain ⟨hall, hn⟩ := tidy_replaceItem d.key (fun _ => it) h (fun _ _ _ => hv)
      (fun _ _ hold => hk.trans hold.symm)
    refine ⟨tidy_sortItems hall hn, fun heq => hdi ?_⟩
    -- The replaced item is among the items, so it is the current one.
    have he : it ∈ xs := by
      rw [← heq]
      exact (mem_insertionSort _).mpr (change_mem_replaceItem (fun _ => it) hf)
    rw [h.eq_of_key he hm (hk.trans hu.symm)]
    simp [sameContent]

/-- Marking an item keeps the order, and changes the items when it changes the item. -/
theorem setEligible_tidy {eligible : Bool} (h : Tidy u xs) (hf : xs.find? (·.key == key) = some it)
    (hd : it.eligible ≠ eligible) : Tidy u (replaceItem key (fun it => { it with eligible }) xs) ∧
      replaceItem key (fun it => { it with eligible }) xs ≠ xs := by
  obtain ⟨hm, hk⟩ := mem_and_key_of_find hf
  obtain ⟨ha, hn⟩ := tidy_replaceItem key (fun it => { it with eligible }) h
    (fun it hm _ => h.valid it hm) (fun _ _ _ => rfl)
  refine ⟨⟨ha, pairwise_upto_congr (map_replaceItem fun _ _ _ => rfl) h.sorted, hn⟩, ?_⟩
  intro heq
  have he := change_mem_replaceItem (fun it => { it with eligible }) hf
  rw [heq] at he
  have hs := h.eq_of_key he hm rfl
  exact hd (congrArg AttentionItem.eligible hs).symm

/-- A valid change of the broker keeps the items tidy once they are sorted again. -/
theorem apply_tidy {cha : ProjectionChange} (h : Tidy u xs)
    (hc : validateChange u cha = .ok ()) : Tidy u (sortItems (apply xs cha)) := by
  cases cha with
  | upsert a =>
    have hi := validateItem_item hc true
    rw [apply]
    split
    · obtain ⟨ha, hn⟩ := tidy_replaceItem a.key (fun _ => a.item true) h
        (fun _ _ _ => hi) (fun _ _ hold => hold.symm)
      exact tidy_sortItems ha hn
    · next ho =>
      have hb : ∀ it ∈ xs, it.key ≠ a.key := by simpa using ho
      exact tidy_append h hi hb
  | clear key =>
    have hk : Tidy u (xs.filter fun it => it.key != key) :=
      h.sublist filter_sublist
    exact tidy_sortItems hk.valid hk.distinct
  | clearSubject sk si =>
    have hk : Tidy u (xs.filter fun it =>
        it.subjectKind != sk || it.subjectId != si) :=
      h.sublist filter_sublist
    exact tidy_sortItems hk.valid hk.distinct

end Louiselm.Attention
