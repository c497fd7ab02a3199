import Louiselm.Attention.Changes
import Louiselm.Base.Runs

/-!
# Attention snapshots

Whatever befalls the operations on the file of `capture-service/src/attention.rs` and whatever
their looks at the Run store see, the file can be loaded, its generation only grows, and a
generation stands for one list of items.
-/

namespace Louiselm.Attention
open Base Canonical List Except
open Base.Program

/-! ### Operations -/

/-- One request to the Attention store. -/
inductive Operation where
  | snapshot
  | upsert (draft : AttentionDraft)
  | setEligible (key : AttentionKey) (eligible : Bool)
  | clear (key : AttentionKey)
  | clearSessionKind (sessionId : String) (kind : AttentionKind)
  | clearSession (sessionId : String)
  | project (projection : BrokerProjection)
deriving DecidableEq, Repr

def Operation.isProject : Operation → Bool
  | .project _ => true
  | _ => false

/-- A request with what its looks at the Run store see and what befalls its file operations. -/
structure Event where
  operation : Operation
  look : Nat → Reading
  again : Reading
  faults : List Fault

section

variable (uuid : String → Option String) (sha256 : Sha256) (canonical : BrokerProjection → Bytes)

/-- Serve a request; all but a projection are answered with a snapshot. -/
def perform (look : Nat → Reading) (again : Reading) : Operation → Action (Option AttentionSnapshot)
  | .snapshot => do return some (← snapshot uuid sha256 look)
  | .upsert draft => do return some (← upsert uuid sha256 look again draft)
  | .setEligible key eligible => do return some (← setEligible uuid sha256 look key eligible)
  | .clear key => do return some (← clear uuid sha256 look key)
  | .clearSessionKind sessionId kind => do
    return some (← clearSessionKind uuid sha256 look sessionId kind)
  | .clearSession sessionId => do return some (← clearSession uuid sha256 look sessionId)
  | .project projection => do
    let _ ← project uuid sha256 canonical look projection
    return none

/-- How a request ends. -/
def ending (file : PersistedAttention) (event : Event) :
    Ending AttentionError (Option AttentionSnapshot) :=
  (perform uuid sha256 canonical event.look event.again event.operation event.faults file).1

/-- What a request leaves. -/
def step (file : PersistedAttention) (event : Event) : PersistedAttention :=
  (perform uuid sha256 canonical event.look event.again event.operation).leaves event.faults file

/-- The file after some requests to a store that was opened on nothing. -/
def fileAfter (events : List Event) : PersistedAttention :=
  events.foldl (step uuid sha256 canonical) .initial

end

/-! ### Reconciling -/

section

variable (uuid : String → Option String) (sha256 : Sha256)

/-- What loading makes of the file: the resolved local Parks are gone. -/
structure Reconciled (look : Nat → Reading) (before after : PersistedAttention) : Prop where
  items : unresolved uuid sha256 look 0 before.items = .ok after.items
  rest : after = before ∨ (after.items.length ≠ before.items.length ∧
    checkedAdd before.generation 1 = some after.generation ∧
    after = { before with items := after.items, generation := after.generation })

/-- Nothing changed, but that conditions went whose Park was seen to be resolved. -/
structure Spares (look : Nat → Reading) (before after : PersistedAttention) : Prop where
  kept : after.items.Sublist before.items
  dropped : ∀ item ∈ before.items, item ∉ after.items → isLocalPark sha256 item.key = true ∧
    ∃ place, localParkResolved uuid sha256 (look place) item.key = .ok true
  rest : after = before ∨ (after.items ≠ before.items ∧
    after = { before with items := after.items, generation := after.generation })

/-- A file replaced by one of the next generation. -/
structure Changed (before after : PersistedAttention) : Prop where
  generation : after.generation.toNat = before.generation.toNat + 1
  loadable : Loadable uuid before → Loadable uuid after

variable {uuid sha256} {look : Nat → Reading} {items re : List AttentionItem}

/-- Only a local Park can be resolved. -/
theorem isLocalPark_of_resolved {r : Reading} {key : AttentionKey}
    (h : localParkResolved uuid sha256 r key = .ok true) : isLocalPark sha256 key = true := by
  unfold localParkResolved at h
  split at h
  · simp at h
  split at h
  · simp at h
  · next hl => simpa using hl

variable {pl : Nat}

theorem unresolved_cons {x : AttentionItem} {xs : List AttentionItem} :
    unresolved uuid sha256 look pl (x :: xs) = .ok re ↔
      ∃ r, localParkResolved uuid sha256 (look pl) x.key = .ok r ∧
        ∃ k, unresolved uuid sha256 look (pl + 1) xs = .ok k ∧ re = if r then k else x :: k := by
  rw [unresolved, bind_ok]
  simp only [bind_ok, pure, Except.pure, ok.injEq, eq_comm (b := re)]

theorem unresolved_sublist (h : unresolved uuid sha256 look pl items = .ok re) :
    re.Sublist items := by
  induction items generalizing pl re with
  | nil =>
    obtain rfl := ok.inj h
    exact .slnil
  | cons x xs ih =>
    obtain ⟨r, -, k, hk, rfl⟩ := unresolved_cons.mp h
    cases r with
    | true => exact (ih hk).cons x
    | false => exact (ih hk).cons_cons x

/-- What loading drops was seen to be resolved. -/
theorem resolved_of_dropped (h : unresolved uuid sha256 look pl items = .ok re)
    {it : AttentionItem} (hm : it ∈ items) (hd : it ∉ re) :
    ∃ pl, localParkResolved uuid sha256 (look pl) it.key = .ok true := by
  induction items generalizing pl re with
  | nil => simp at hm
  | cons x xs ih =>
    obtain ⟨r, hr, k, hk, rfl⟩ := unresolved_cons.mp h
    cases r with
    | true =>
      rcases mem_cons.mp hm with rfl | hm
      · exact ⟨pl, hr⟩
      · exact ih hk hm hd
    | false =>
      rw [if_neg (by decide), mem_cons, not_or] at hd
      rcases mem_cons.mp hm with rfl | hm
      · exact absurd rfl hd.1
      · exact ih hk hm hd.2

variable {pre after : PersistedAttention}

theorem Reconciled.spares (h : Reconciled uuid sha256 look pre after) :
    Spares uuid sha256 look pre after where
  kept := unresolved_sublist h.items
  dropped := by
    intro x hm hd
    obtain ⟨pl, hp⟩ := resolved_of_dropped h.items hm hd
    exact ⟨isLocalPark_of_resolved hp, pl, hp⟩
  rest := by
    rcases h.rest with heq | ⟨hl, -, heq⟩
    · exact .inl heq
    · exact .inr ⟨fun hi => hl (congrArg List.length hi), heq⟩

theorem Spares.refl (file : PersistedAttention) : Spares uuid sha256 look file file :=
  ⟨.refl _, fun _ hm hn => absurd hm hn, .inl rfl⟩

/-- Loading leaves the file or changes it. -/
theorem Reconciled.changed (h : Reconciled uuid sha256 look pre after) :
    after = pre ∨ Changed uuid pre after := by
  rcases h.rest with heq | ⟨-, hg, heq⟩
  · exact .inl heq
  · refine .inr ⟨by simpa using checkedAdd_eq_some hg, fun hl => ?_⟩
    rw [heq]
    exact ⟨hl.cursor, hl.version, hl.items.sublist (unresolved_sublist h.items)⟩

theorem Reconciled.loadable (h : Reconciled uuid sha256 look pre after)
    (hb : Loadable uuid pre) : Loadable uuid after := by
  rcases h.changed with rfl | hc
  · exact hb
  · exact hc.loadable hb

end

/-! ### Answers -/

section

variable {uuid : String → Option String} {sha256 : Sha256} {canonical : BrokerProjection → Bytes}
  {look : Nat → Reading} {again : Reading} {file loaded : PersistedAttention} {α β : Type}

/-- An answer, and what it made of the file that was loaded. -/
abbrev Verdict (α : Type) := α → PersistedAttention → PersistedAttention → Prop

/-- How the part of an operation ends that starts on the loaded file. -/
def answers (verdict : Verdict α) (loaded : PersistedAttention) :
    Program.Post PersistedAttention AttentionError α where
  value a after := verdict a loaded after
  error error after := after = loaded ∨ error = .io ∧ ∃ a, verdict a loaded after
  crashed after := after = loaded ∨ ∃ a, verdict a loaded after

variable (uuid sha256 look) in
/-- How an operation ends that loads the file first. -/
def answersLoaded (verdict : Verdict α) (file : PersistedAttention) :
    Program.Post PersistedAttention AttentionError α where
  value a after := ∃ loaded, Reconciled uuid sha256 look file loaded ∧ verdict a loaded after
  error error after := after = file ∨ ∃ loaded, Reconciled uuid sha256 look file loaded ∧
    (after = loaded ∨ error = .io ∧ ∃ a, verdict a loaded after)
  crashed after := after = file ∨ ∃ loaded, Reconciled uuid sha256 look file loaded ∧
    (after = loaded ∨ ∃ a, verdict a loaded after)

/-- Loading ends with the file it leaves, and an error leaves what was found unless the last
write was not confirmed. -/
theorem wp_load : Wp (load uuid sha256 look)
    ⟨fun loaded after => after = loaded ∧ Reconciled uuid sha256 look file loaded,
      fun _ after => after = file ∨ Reconciled uuid sha256 look file after,
      fun after => after = file⟩ file := by
  unfold load
  apply wp_bind
  refine wp_query (fun state ht => ?_) (fun _ _ => .inl rfl) (.inl rfl) rfl
  obtain rfl := ok.inj ht
  apply wp_bind
  refine wp_ofExcept (fun _ _ => ?_) (fun _ _ => .inl rfl)
  unfold reconcileLocalParks
  apply wp_bind
  refine wp_ofExcept (fun retained hr => ?_) (fun _ _ => .inl rfl)
  dsimp only
  split
  · next hl =>
    apply wp_bind
    refine wp_ofExcept (fun advanced ha => ?_) (fun _ _ => .inl rfl)
    unfold advanceGeneration at ha
    split at ha
    · simp at ha
    next generation hg =>
    obtain rfl := ok.inj ha
    have hd : Reconciled uuid sha256 look file { file with items := retained, generation } :=
      ⟨hr, .inr ⟨hl, hg, rfl⟩⟩
    apply wp_bind
    exact wp_write (wp_pure.mpr ⟨rfl, hd⟩) (.inl rfl) (.inr hd) rfl
  · next hl =>
    refine wp_pure.mpr ⟨rfl, ?_, .inl rfl⟩
    have hs := (unresolved_sublist hr).eq_of_length (not_not.mp hl)
    rw [hs] at hr
    exact hr

theorem wp_withLock {op : Action α} {p : Program.Post PersistedAttention AttentionError α}
    (h : Wp op ⟨fun a s => p.value a s ∧ p.error .io s ∧ p.crashed s, p.error, p.crashed⟩ file)
      (he : p.error .io file) (hc : p.crashed file) : Wp (withLock op) p file := by
  unfold withLock
  apply wp_bind
  refine wp_probe ?_ he hc
  apply wp_bind
  refine h.mono ?_ (fun _ _ hs => hs) (fun _ hs => hs)
  rintro a s ⟨hv, he, hc⟩
  apply wp_bind
  exact wp_probe (wp_pure.mpr hv) he hc

variable {v : Verdict α}

/-- An operation under the lock that loads the file ends as its part on the loaded file does. -/
theorem wp_withLock_load {b : PersistedAttention → Action α} (hf : Loadable uuid file)
    (h : ∀ loaded, Loadable uuid loaded → Wp (b loaded) (answers v loaded) loaded) :
    Wp (withLock (load uuid sha256 look >>= b)) (answersLoaded uuid sha256 look v file) file := by
  refine wp_withLock ?_ (.inl rfl) (.inl rfl)
  apply wp_bind
  refine wp_load.mono ?_ ?_ (fun _ hs => .inl hs)
  · rintro loaded _ ⟨rfl, hl⟩
    refine (h _ (hl.loadable hf)).mono ?_ ?_ ?_
    · intro a s ha
      exact ⟨⟨_, hl, ha⟩, .inr ⟨_, hl, .inr ⟨rfl, a, ha⟩⟩, .inr ⟨_, hl, .inr ⟨a, ha⟩⟩⟩
    · exact fun e s hs => .inr ⟨_, hl, hs⟩
    · exact fun s hs => .inr ⟨_, hl, hs⟩
  · rintro e s (hs | hs)
    · exact .inl hs
    · exact .inr ⟨s, hs, .inl rfl⟩

/-- An operation that answers with something of what another one answers. -/
theorem wp_map {p : Action α} {v' : Verdict β} {f : α → β}
    (h : Wp p (answersLoaded uuid sha256 look v file) file)
    (hf : ∀ a loaded after, v a loaded after → v' (f a) loaded after) :
    Wp (do let a ← p; return f a) (answersLoaded uuid sha256 look v' file) file := by
  apply wp_bind
  refine h.mono ?_ ?_ ?_
  · rintro a s ⟨loaded, hl, ha⟩
    exact wp_pure.mpr ⟨loaded, hl, hf a loaded s ha⟩
  · rintro e s (hs | ⟨loaded, hl, hs | ⟨hi, a, ha⟩⟩)
    · exact .inl hs
    · exact .inr ⟨loaded, hl, .inl hs⟩
    · exact .inr ⟨loaded, hl, .inr ⟨hi, f a, hf a loaded s ha⟩⟩
  · rintro s (hs | ⟨loaded, hl, hs | ⟨a, ha⟩⟩)
    · exact .inl hs
    · exact .inr ⟨loaded, hl, .inl hs⟩
    · exact .inr ⟨loaded, hl, .inr ⟨f a, hf a loaded s ha⟩⟩

variable (uuid) in
/-- A snapshot of the file, which is as it was loaded or has other items. -/
def Shows : Verdict AttentionSnapshot := fun shown loaded after =>
  shown = snapshotOf after ∧
    (after = loaded ∨ Changed uuid loaded after ∧ after.items ≠ loaded.items)

/-- Persisting a file with other items. -/
theorem wp_commit {items : List AttentionItem}
    (h : Tidy uuid loaded.items → Tidy uuid items ∧ items ≠ loaded.items)
    (hl : Loadable uuid loaded) :
    Wp (commit { loaded with items }) (answers (Shows uuid) loaded) loaded := by
  unfold commit
  apply wp_bind
  refine wp_ofExcept (fun advanced ha => ?_) (fun _ _ => .inl rfl)
  unfold advanceGeneration at ha
  split at ha
  · simp at ha
  next generation hg =>
  obtain rfl := ok.inj ha
  obtain ⟨ht, hd⟩ := h hl.items
  have ho : Shows uuid (snapshotOf { loaded with items, generation }) loaded
      { loaded with items, generation } :=
    ⟨rfl, .inr ⟨⟨by simpa using checkedAdd_eq_some hg, fun _ => ⟨hl.cursor, hl.version, ht⟩⟩, hd⟩⟩
  apply wp_bind
  exact wp_write (wp_pure.mpr ho) (.inl rfl) (.inr ⟨rfl, _, ho⟩) (.inl rfl)

/-! ### The operations -/

theorem shows_loaded (loaded : PersistedAttention) : Shows uuid (snapshotOf loaded) loaded loaded :=
  ⟨rfl, .inl rfl⟩

/-- A part of an operation that leaves the loaded file. -/
theorem wp_answers_pure {a : α} (h : v a loaded loaded) :
    Wp (pure a : Action α) (answers v loaded) loaded :=
  wp_pure.mpr h

theorem wp_snapshot (h : Loadable uuid file) : Wp (snapshot uuid sha256 look)
    (answersLoaded uuid sha256 look (Shows uuid) file) file :=
  wp_withLock_load h fun loaded _ => wp_answers_pure (shows_loaded loaded)

theorem wp_upsert {d : AttentionDraft} (h : Loadable uuid file) :
    Wp (upsert uuid sha256 look again d)
      (answersLoaded uuid sha256 look (Shows uuid) file) file := by
  unfold upsert
  apply wp_bind
  refine wp_ofExcept (fun _ hd => ?_) (fun _ _ => .inl rfl)
  refine wp_withLock_load h fun loaded hl => ?_
  apply wp_bind
  refine wp_ofExcept (fun r _ => ?_) (fun _ _ => .inl rfl)
  dsimp only
  split
  · exact wp_answers_pure (shows_loaded loaded)
  · split
    · exact wp_answers_pure (shows_loaded loaded)
    · next c hc =>
      exact wp_commit (fun ht => upsertItems_tidy ht hd hc) hl

theorem wp_setEligible {key : AttentionKey} {e : Bool} (h : Loadable uuid file) :
    Wp (setEligible uuid sha256 look key e)
      (answersLoaded uuid sha256 look (Shows uuid) file) file := by
  unfold setEligible
  apply wp_bind
  refine wp_ofExcept (fun _ _ => ?_) (fun _ _ => .inl rfl)
  refine wp_withLock_load h fun loaded hl => ?_
  split
  · exact wp_fail.mpr (.inl rfl)
  next x hf =>
  split
  · exact wp_answers_pure (shows_loaded loaded)
  · next hd => exact wp_commit (fun ht => setEligible_tidy ht hf hd) hl

variable {keep : AttentionItem → Bool}

theorem wp_retain (h : Loadable uuid file) : Wp (retain uuid sha256 look keep)
      (answersLoaded uuid sha256 look (Shows uuid) file) file := by
  refine wp_withLock_load h fun loaded hl => ?_
  split
  · next he =>
    refine wp_commit (fun ht => ⟨ht.sublist filter_sublist, fun heq => ?_⟩) hl
    exact he (congrArg List.length heq)
  · exact wp_answers_pure (shows_loaded loaded)

/-- A retaining operation behind a check of its input. -/
theorem wp_check_retain {c : Except AttentionError Unit} (h : Loadable uuid file) :
    Wp (do ofExcept c; retain uuid sha256 look keep)
      (answersLoaded uuid sha256 look (Shows uuid) file) file := by
  apply wp_bind
  exact wp_ofExcept (fun _ _ => wp_retain h) (fun _ _ => .inl rfl)

/-- The sequence number of the last projection that was applied, 0 when none was. -/
def appliedSequence (file : PersistedAttention) : UInt64 :=
  (file.brokerProjection.map fun cursor => cursor.sequence).getD 0

variable (sha256 canonical) in
/-- A projection is applied as the next one, or was applied before and only acknowledged. -/
inductive Projects (projection : BrokerProjection) : Verdict ProjectionResult where
  | stale {loaded : PersistedAttention} {cursor : ProjectionCursor}
    (stored : loaded.brokerProjection = some cursor)
    (before : projection.sequence ≤ cursor.sequence)
    (same : projection.sequence = cursor.sequence →
      cursor.digest = projectionDigest sha256 canonical projection) :
    Projects projection ⟨projection.sequence, projectionDigest sha256 canonical projection, false⟩
      loaded loaded
  | applied {loaded : PersistedAttention} {generation : UInt64}
    (next : projection.sequence.toNat = (appliedSequence loaded).toNat + 1)
    (advanced : checkedAdd loaded.generation 1 = some generation) :
    Projects projection ⟨projection.sequence, projectionDigest sha256 canonical projection, true⟩
      loaded { loaded with
        generation
        items := sortItems (apply loaded.items projection.change)
        brokerProjection := some
          ⟨projection.sequence, projectionDigest sha256 canonical projection⟩ }

variable {pr : BrokerProjection}

theorem wp_project (h : Loadable uuid file) : Wp (project uuid sha256 canonical look pr)
      (answersLoaded uuid sha256 look (fun r loaded after =>
        validateProjection uuid pr = .ok () ∧
          Projects sha256 canonical pr r loaded after) file) file := by
  unfold project
  apply wp_bind
  refine wp_ofExcept (fun _ hv => ?_) (fun _ _ => .inl rfl)
  refine wp_withLock_load h fun loaded hl => ?_
  dsimp only
  split
  · next he =>
    split
    · exact wp_fail.mpr (.inl rfl)
    next hc =>
    have hp : pr.sequence ≠ 0 := by
      simp only [validateProjection, check_ok, require_ok, bne_iff_ne] at hv
      exact hv.1
    have hd : Projects sha256 canonical pr
        ⟨pr.sequence, projectionDigest sha256 canonical pr, false⟩ loaded loaded := by
      cases ht : loaded.brokerProjection with
      | none =>
        rw [ht] at he
        exact absurd (UInt64.le_zero_iff.mp he) hp
      | some c =>
        rw [ht] at he hc
        refine .stale ht he fun hs => ?_
        simpa [hs] using hc
    apply wp_bind
    exact wp_write (wp_pure.mpr ⟨hv, hd⟩) (.inl rfl) (.inr ⟨rfl, _, hv, hd⟩) (.inl rfl)
  split
  · exact wp_fail.mpr (.inl rfl)
  next hn =>
  apply wp_bind
  refine wp_ofExcept (fun a ha => ?_) (fun _ _ => .inl rfl)
  unfold advanceGeneration at ha
  split at ha
  · simp at ha
  next g hg =>
  obtain rfl := ok.inj ha
  have hq : pr.sequence.toNat = (appliedSequence loaded).toNat + 1 := by
    simpa [appliedSequence] using checkedAdd_eq_some (not_not.mp hn)
  have hd : Projects sha256 canonical pr _ loaded _ := .applied hq hg
  apply wp_bind
  exact wp_write (wp_pure.mpr ⟨hv, hd⟩) (.inl rfl) (.inr ⟨rfl, _, hv, hd⟩) (.inl rfl)

/-- The cursor of a projection that was applied passes its check. -/
theorem validate_cursor {n : UInt64} (h : n ≠ 0) (pr : BrokerProjection) :
    (ProjectionCursor.mk n (projectionDigest sha256 canonical pr)).validate = .ok () := by
  have hd := (Digest.of sha256 (canonical pr)).valid
  rw [validHex, Bool.and_eq_true] at hd
  simp only [ProjectionCursor.validate, projectionDigest, require_ok, Bool.and_eq_true]
  exact ⟨⟨by simpa using h, hd.1⟩, hd.2⟩

variable {after : PersistedAttention}

/-- A valid projection leaves the file or changes it. -/
theorem Projects.changed {r : ProjectionResult} (h : Projects sha256 canonical pr r loaded after)
    (hv : validateProjection uuid pr = .ok ()) : after = loaded ∨ Changed uuid loaded after := by
  simp only [validateProjection, check_ok, require_ok, bne_iff_ne] at hv
  obtain ⟨hp, hh⟩ := hv
  cases h with
  | stale => exact .inl rfl
  | applied _ ha =>
    refine .inr ⟨by simpa using checkedAdd_eq_some ha, fun hl => ⟨?_, ?_, ?_⟩⟩
    · rintro c hc
      obtain rfl := Option.some.inj hc
      exact validate_cursor hp pr
    · exact hl.version
    · exact apply_tidy hl.items hh

variable (uuid) in
/-- A request leaves the loaded file or changes it; one that is no projection changes it only
with its items, and its answer is a snapshot of the file. -/
def Serves (operation : Operation) : Verdict (Option AttentionSnapshot) := fun shown loaded after =>
  (∀ snapshot ∈ shown, snapshot = snapshotOf after) ∧ (after = loaded ∨
    Changed uuid loaded after ∧ (operation.isProject = false → after.items ≠ loaded.items))

variable (sha256 canonical look again) in
theorem wp_perform (op : Operation) (h : Loadable uuid file) :
    Wp (perform uuid sha256 canonical look again op)
      (answersLoaded uuid sha256 look (Serves uuid op) file) file := by
  have hs : ∀ s loaded after, Shows uuid s loaded after → Serves uuid op (some s) loaded after := by
    rintro s loaded after ⟨rfl, ha⟩
    refine ⟨by rintro snapshot ⟨⟩; rfl, ha.imp_right fun hc => ?_⟩
    exact ⟨hc.1, fun _ => hc.2⟩
  cases op with
  | snapshot => exact wp_map (wp_snapshot h) hs
  | upsert d => exact wp_map (wp_upsert h) hs
  | setEligible key e => exact wp_map (wp_setEligible h) hs
  | clear key => exact wp_map (wp_check_retain h) hs
  | clearSessionKind si k => exact wp_map (wp_check_retain h) hs
  | clearSession si => exact wp_map (wp_check_retain h) hs
  | project pr =>
    refine wp_map (wp_project h) ?_
    rintro r loaded after ⟨hv, hp⟩
    refine ⟨fun _ hn => by simp at hn, (hp.changed hv).imp_right ?_⟩
    exact fun hc => ⟨hc, fun hl => by simp [Operation.isProject] at hl⟩

/-! ### Runs -/

/-- A file that follows another one: it can be loaded when that one can, and it is the same
but for a later generation. -/
structure Succeeds (uuid : String → Option String) (before after : PersistedAttention) : Prop where
  loadable : Loadable uuid before → Loadable uuid after
  later : after = before ∨ before.generation.toNat < after.generation.toNat

theorem Succeeds.refl (file : PersistedAttention) : Succeeds uuid file file := ⟨id, .inl rfl⟩

variable {be : PersistedAttention}

theorem Succeeds.trans {m : PersistedAttention} (h : Succeeds uuid be m)
    (h' : Succeeds uuid m after) : Succeeds uuid be after := by
  refine ⟨h'.loadable ∘ h.loadable, ?_⟩
  rcases h.later with rfl | hl
  · exact h'.later
  · rcases h'.later with rfl | hl'
    · exact .inr hl
    · exact .inr (hl.trans hl')

theorem Changed.succeeds (h : Changed uuid be after) : Succeeds uuid be after :=
  ⟨h.loadable, .inr (by rw [h.generation]; exact Nat.lt_succ_self _)⟩

theorem Reconciled.succeeds (h : Reconciled uuid sha256 look be after) :
    Succeeds uuid be after := by
  rcases h.changed with rfl | hc
  · exact .refl _
  · exact hc.succeeds

theorem Serves.succeeds {op : Operation} {s : Option AttentionSnapshot}
    (h : Serves uuid op s loaded after) : Succeeds uuid loaded after := by
  rcases h.2 with rfl | hc
  · exact .refl _
  · exact hc.1.succeeds

variable (sha256 canonical) in
/-- Whatever befalls a request, the file it leaves follows the one it found. -/
theorem step_succeeds (h : Loadable uuid file) (e : Event) :
    Succeeds uuid file (step uuid sha256 canonical file e) := by
  obtain ⟨op, look, again, fs⟩ := e
  refine Wp.leaves ?_ fs
  refine (wp_perform sha256 canonical look again op h).mono ?_ ?_ ?_
  · rintro s after ⟨loaded, hl, hs⟩
    exact hl.succeeds.trans hs.succeeds
  · rintro er after (rfl | ⟨loaded, hl, rfl | ⟨-, s, hs⟩⟩)
    · exact .refl _
    · exact hl.succeeds
    · exact hl.succeeds.trans hs.succeeds
  · rintro after (rfl | ⟨loaded, hl, rfl | ⟨s, hs⟩⟩)
    · exact .refl _
    · exact hl.succeeds
    · exact hl.succeeds.trans hs.succeeds

variable (sha256 canonical) in
theorem run_succeeds (h : Loadable uuid file) (es : List Event) :
    Succeeds uuid file (es.foldl (step uuid sha256 canonical) file) := by
  induction es generalizing file with
  | nil => exact .refl file
  | cons e es ih =>
    have hs := step_succeeds sha256 canonical h e
    exact hs.trans (ih (hs.loadable h))

theorem loadable_initial : Loadable uuid .initial :=
  ⟨by rintro c ⟨⟩, rfl, by simp [PersistedAttention.initial], .nil, .nil⟩

variable (uuid sha256 canonical) in
theorem loadable_fileAfter (es : List Event) : Loadable uuid (fileAfter uuid sha256 canonical es) :=
  (run_succeeds sha256 canonical loadable_initial es).loadable loadable_initial

theorem fileAfter_append (e l : List Event) : fileAfter uuid sha256 canonical (e ++ l) =
      l.foldl (step uuid sha256 canonical) (fileAfter uuid sha256 canonical e) :=
  foldl_append

/-- The snapshot a request answers is one of the file it leaves. -/
theorem ending_value {e : Event} {s : AttentionSnapshot} (h : Loadable uuid file)
    (he : ending uuid sha256 canonical file e = .value (some s)) :
    s = snapshotOf (step uuid sha256 canonical file e) := by
  obtain ⟨loaded, -, hs, -⟩ := (wp_perform sha256 canonical e.look e.again e.operation
    h).value_of he
  exact hs s rfl

variable (uuid sha256 canonical) in
/-- A request is refused, or it is answered with nothing but the unresolved items it found. -/
def Idle (file : PersistedAttention) (event : Event) : Prop :=
  (∃ error, ending uuid sha256 canonical file event = .error error ∧ error ≠ .io) ∨
    ∃ shown, ending uuid sha256 canonical file event = .value (some shown) ∧
      unresolved uuid sha256 event.look 0 file.items = .ok shown.items

/-- A refused request and one without effect only drop resolved local Parks. -/
theorem step_spares {e : Event} (h : Loadable uuid file)
    (ho : e.operation.isProject = false) (hid : Idle uuid sha256 canonical file e) :
    Spares uuid sha256 e.look file (step uuid sha256 canonical file e) := by
  have hp := wp_perform sha256 canonical e.look e.again e.operation h
  rcases hid with ⟨er, he, hio⟩ | ⟨s, he, hi⟩
  · rcases hp.error_of he with hs | ⟨loaded, hl, hs | ⟨hf, -⟩⟩
    · rw [step, hs]
      exact .refl file
    · rw [step, hs]
      exact hl.spares
    · exact absurd hf hio
  · obtain ⟨loaded, hl, hsh, ha⟩ := hp.value_of he
    have hh := hsh s rfl
    have hli : loaded.items = s.items :=
      ok.inj (hl.items.symm.trans hi)
    rcases ha with hs | ⟨-, hd⟩
    · rw [step, hs]
      exact hl.spares
    · refine absurd ?_ (hd ho)
      rw [hli, hh]
      rfl

variable (uuid sha256 canonical)

end
end Louiselm.Attention
