import Louiselm.Attention.Parks

/-!
# Which stored Attention states are accepted

`validate_state` of `capture-service/src/attention.rs` looks for a repeated key among the
neighbours of the sorted list, which is sorted by creation time first. A key that repeats with
another item created in between is not seen, and such a file is accepted.
-/

namespace Louiselm.Attention
open Base Canonical
open Base.Program AttentionItem

/-! ### Accepted states -/

section

variable {uuid : String → Option String} {sh2 : Sha256} {state : PersistedAttention}
  {items : List AttentionItem}

/-- Sorting leaves exactly the lists that are in order. -/
theorem sortItems_eq_self_iff : sortItems items = items ↔ items.Pairwise Upto := by
  constructor
  · intro h
    rw [← h]
    exact List.pairwise_insertionSort _ items
  · intro h
    exact h.insertionSort_eq

/-- What the check of a stored state says of it. -/
theorem validateState_eq_ok_iff : validateState uuid state = .ok () ↔
    (∀ c ∈ state.brokerProjection, c.validate = .ok ()) ∧ state.schemaVersion = 1 ∧
      (∀ x ∈ state.items, validateItem uuid x = .ok ()) ∧
      state.items.Pairwise Upto ∧ adjacentKeys state.items = false := by
  have ho : (adjacentKeys (sortItems state.items) = false ∧ sortItems state.items = state.items) ↔
      (state.items.Pairwise Upto ∧ adjacentKeys state.items = false) := by
    rw [← sortItems_eq_self_iff]
    constructor
    · rintro ⟨hk, hs⟩
      rw [hs] at hk
      exact ⟨hs, hk⟩
    · rintro ⟨hs, hk⟩
      rw [hs]
      exact ⟨hk, rfl⟩
  have hi : state.items.forM (validateItem uuid) = .ok () ↔
      ∀ x ∈ state.items, validateItem uuid x = .ok () := forM_ok
  rw [← ho, ← hi]
  unfold validateState
  cases state.brokerProjection with
  | none => simp [-bind_ok]
  | some c => simp [-bind_ok]

variable (uuid) in
/-- The items are valid and in order and repeat a key, but never in neighbours. -/
structure RepeatsApart (items : List AttentionItem) : Prop where
  valid : ∀ item ∈ items, validateItem uuid item = .ok ()
  sorted : items.Pairwise Upto
  apart : adjacentKeys items = false
  repeats : ¬ (items.map (·.key)).Nodup

/-- An accepted state is as it has to be, or it repeats a key where the check does not look. -/
theorem loadable_or_repeatsApart (h : validateState uuid state = .ok ()) :
    Loadable uuid state ∨ RepeatsApart uuid state.items := by
  obtain ⟨hc, he, hv, hs, ha⟩ := validateState_eq_ok_iff.mp h
  by_cases hd : (state.items.map (·.key)).Nodup
  · exact .inl ⟨hc, he, hv, hs, hd⟩
  · exact .inr ⟨hv, hs, ha, hd⟩

/-! ### Operations on accepted states -/

variable {look : Nat → Reading} {again : Reading} {key : AttentionKey} {draft : AttentionDraft}
  {keep : AttentionItem → Bool}

/-- Committing a state leaves its items. -/
theorem wp_commit_items {l : PersistedAttention} : Wp (commit l)
    ⟨fun _ s => s.items = l.items, fun _ _ => True, fun _ => True⟩ state := by
  unfold commit
  apply wp_bind
  refine wp_ofExcept (fun a ha => ?_) (fun _ _ => trivial)
  unfold advanceGeneration at ha
  split at ha
  · simp at ha
  obtain rfl := Except.ok.inj ha
  apply wp_bind
  exact wp_write (wp_pure.mpr rfl) trivial trivial trivial

/-- Whatever the file, retaining leaves only what the test keeps once it succeeded. -/
theorem wp_retain_items : Wp (retain uuid sh2 look keep)
    ⟨fun _ s => ∀ x ∈ s.items, keep x = true, fun _ _ => True, fun _ => True⟩ state := by
  unfold retain
  refine wp_withLock ?_ trivial trivial
  apply wp_bind
  refine wp_load.mono ?_ (fun _ _ _ => trivial) (fun _ _ => trivial)
  rintro l _ ⟨rfl, -⟩
  dsimp only
  split
  · refine wp_commit_items.mono ?_ (fun _ _ _ => trivial) (fun _ _ => trivial)
    intro sh s hi
    refine ⟨fun x hm => ?_, trivial, trivial⟩
    rw [hi] at hm
    exact (List.mem_filter.mp hm).2
  · next hl =>
    refine wp_pure.mpr ⟨fun x hm => ?_, trivial, trivial⟩
    have ha := List.filter_sublist.eq_of_length (not_not.mp hl)
    rw [← ha] at hm
    exact (List.mem_filter.mp hm).2

/-- Whatever the file, no item has the key once it was cleared. -/
theorem clear_leaves_none {fs : List Fault} {sh : AttentionSnapshot}
    (h : (clear uuid sh2 look key fs state).1 = .value sh) :
    ∀ x ∈ ((clear uuid sh2 look key).leaves fs state).items, x.key ≠ key := by
  have hc : Wp (clear uuid sh2 look key)
      ⟨fun _ s => ∀ x ∈ s.items, (x.key != key) = true, fun _ _ => True, fun _ => True⟩
      state := by
    unfold clear
    apply wp_bind
    exact wp_ofExcept (fun _ _ => wp_retain_items) (fun _ _ => trivial)
  intro x hm
  exact bne_iff_ne.mp (hc.value_of h x hm)

variable (again draft) in
/-- However a report ends, it leaves distinct keys on a file with distinct keys. -/
theorem upsert_leaves_distinct (h : Loadable uuid state) (fs : List Fault) :
    (((upsert uuid sh2 look again draft).leaves fs state).items.map (·.key)).Nodup := by
  have hs : ∀ s l a, Reconciled uuid sh2 look state l → Shows uuid s l a → Loadable uuid a := by
    rintro s l a hl ⟨-, rfl | ⟨hc, -⟩⟩
    · exact hl.loadable h
    · exact hc.loadable (hl.loadable h)
  have hu : Wp (upsert uuid sh2 look again draft)
      (.ends (Loadable uuid)) state := by
    refine (wp_upsert h).mono ?_ ?_ ?_
    · rintro s a ⟨l, hl, ha⟩
      exact hs s l a hl ha
    · rintro e a (rfl | ⟨l, hl, rfl | ⟨-, s, ha⟩⟩)
      · exact h
      · exact hl.loadable h
      · exact hs s l a hl ha
    · rintro a (rfl | ⟨l, hl, rfl | ⟨s, ha⟩⟩)
      · exact h
      · exact hl.loadable h
      · exact hs s l a hl ha
  exact (hu.leaves fs).items.distinct

end

/-! ### Canonical states -/

variable (uuid : String → Option String) (sha256 : Sha256)

/-- A state is accepted exactly when its items are valid, under distinct keys and in order; and
once it is accepted, no item has a key that was cleared, and no report leaves a key twice. -/
structure StoredCanonically (state : PersistedAttention) : Prop where
  accepted : validateState uuid state = .ok () ↔ Tidy uuid state.items
  cleared : validateState uuid state = .ok () →
    ∀ (look : Nat → Reading) (key : AttentionKey) (faults : List Fault) (shown : AttentionSnapshot),
      (clear uuid sha256 look key faults state).1 = .value shown →
      ∀ item ∈ ((clear uuid sha256 look key).leaves faults state).items, item.key ≠ key
  upserted : validateState uuid state = .ok () →
    ∀ (look : Nat → Reading) (again : Reading) (draft : AttentionDraft) (faults : List Fault),
      (((upsert uuid sha256 look again draft).leaves faults state).items.map (·.key)).Nodup

variable {uuid} in
/-- A stored state whose version and cursor are valid is accepted exactly when it is canonical,
unless it repeats a key with another item in between. -/
theorem storedCanonically_iff {state : PersistedAttention} (hversion : state.schemaVersion = 1)
    (hcursor : ∀ cursor ∈ state.brokerProjection, cursor.validate = .ok ()) :
    StoredCanonically uuid sha256 state ↔ ¬ RepeatsApart uuid state.items := by
  constructor
  · intro h hr
    have ha : validateState uuid state = .ok () := validateState_eq_ok_iff.mpr
      ⟨hcursor, hversion, hr.valid, hr.sorted, hr.apart⟩
    exact hr.repeats (h.accepted.mp ha).distinct
  · intro hn
    have hl : validateState uuid state = .ok () → Loadable uuid state := fun h =>
      (loadable_or_repeatsApart h).resolve_right hn
    constructor
    · constructor
      · intro h
        exact (hl h).items
      · intro h
        exact Loadable.validateState ⟨hcursor, hversion, h⟩
    · intro _ look key fs s hs
      exact clear_leaves_none hs
    · intro h look again draft fs
      exact upsert_leaves_distinct again draft (hl h) fs

/-! ### A key with another one in between -/

/-- The question of a Session for permission, asked at a time. -/
def askedAt (sessionId : String) (createdAtMs : UInt64) : AttentionItem where
  subjectKind := .session
  subjectId := sessionId
  kind := .permissionRequired
  sourceOperationId := sampleRunId
  createdAtMs := createdAtMs
  eligible := false
  reason := AttentionKind.permissionRequired.reason
  linkedRunId := none
  stage := none
  code := none
  withdrawal := none

/-- A stored state of these items. -/
def storedItems (items : List AttentionItem) : PersistedAttention := ⟨1, 1, items, none⟩

/-- Two Sessions that asked in turn are canonical. -/
theorem storedCanonically_two : StoredCanonically lowerUuid zeroHash
    (storedItems [askedAt "first" 1, askedAt "second" 2]) := by
  refine (storedCanonically_iff zeroHash rfl (by rintro c ⟨⟩)).mpr fun hr => ?_
  exact hr.repeats (by decide +kernel)

/-- A Session that is stored again after another one is accepted twice under one key. -/
theorem repeated_key_accepted : ¬ StoredCanonically lowerUuid zeroHash
    (storedItems [askedAt "first" 1, askedAt "second" 2, askedAt "first" 3]) := by
  intro h
  have ha : validateState lowerUuid
      (storedItems [askedAt "first" 1, askedAt "second" 2, askedAt "first" 3]) = .ok () := by
    decide +kernel
  have hd := (h.accepted.mp ha).distinct
  exact absurd hd (by decide +kernel)

end Louiselm.Attention
