import Mathlib.Data.List.Pairwise
import Louiselm.Session.Permissions

/-!
# The order of permission requests

What every step of `Session/Permissions` keeps: where the requests are, which of them are
answered and withdrawn, and that the active one comes after those that were published and before
those that wait. Working off the queue keeps it.
-/

namespace Louiselm.Session
open Permission List

/-! ### What holds throughout -/

/-- The request that a frame is to publish. -/
def Frame.announcing : Frame → Option PermissionEntry
  | .announce entry _ => some entry
  | _ => none

namespace Permissions

/-- The requests that are to be published. -/
def announcing (session : Permissions) : List PermissionEntry :=
  session.frames.filterMap Frame.announcing

/-- The numbers of the requests that are published, to be published or queued. -/
def tracked (session : Permissions) : List Nat :=
  (session.published ++ session.announcing ++ session.permissionQueue).map (·.number)

/-- When no request is open in a live Session, none waits. -/
def Drained (session : Permissions) : Prop :=
  session.ended = false → session.permissionActive = none → session.permissionQueue = []

/-- A request that is active was not answered, and is not withdrawn. -/
structure IsOpen (session : Permissions) (entry : PermissionEntry) : Prop where
  known : entry.number < session.arrived
  unanswered : entry.number ∉ session.answered
  unwritten : entry.number ∉ session.written.map Prod.fst
  held : entry.number ∉ session.withdrawn
  /-- Those behind it came later. -/
  first : ∀ other ∈ session.permissionQueue, entry.number < other.number
  /-- Those published before it came earlier. -/
  last : entry ∈ session.published ∨ ∀ other ∈ session.published, other.number < entry.number

/-- What every step keeps. -/
structure Kept (session : Permissions) : Prop where
  distinct : session.tracked.Nodup
  known : ∀ number ∈ session.tracked, number < session.arrived
  once : (session.written.map Prod.fst).Nodup
  writtenKnown : ∀ number ∈ session.written.map Prod.fst, number < session.arrived
  answeredKnown : ∀ number ∈ session.answered, number < session.arrived
  withdrawnKnown : ∀ number ∈ session.withdrawn, number < session.arrived
  written : ∀ number ∈ session.tracked, number ∈ session.written.map Prod.fst →
    number ∈ session.answered
  active : ∀ entry, session.permissionActive = some entry → session.IsOpen entry
  queued : ∀ entry ∈ session.permissionQueue,
    entry.number ∉ session.answered ∧ entry.number ∉ session.withdrawn
  single : ∀ entry ∈ session.published, entry.number ∉ session.answered →
    entry.number ∉ session.withdrawn → session.permissionActive = some entry
  announced : ∀ entry ∈ session.announcing,
    session.permissionActive = some entry ∨ entry.number ∈ session.withdrawn
  withdrawn : ∀ number ∈ session.withdrawn, number ∈ session.answered ∨ session.ended = true
  dead : session.status.isDead = true → session.ended = true
  ending : ∀ frame ∈ session.frames, frame = .failed ∨ frame = .disposed → session.ended = true
  ordered : ((session.published ++ session.permissionQueue).map (·.number)).Pairwise (· < ·)

/-- A step publishes at most one request, later than all others and not withdrawn. -/
def Announces (session next : Permissions) : Prop :=
  next.published = session.published ∨ ∃ entry, next.published = session.published ++ [entry] ∧
    entry.number ∉ next.withdrawn ∧ ∀ other ∈ session.published, other.number < entry.number

section

variable {session next : Permissions} {se : Setup} {lo : Look}

/-- Other fields change, and frames that publish nothing come and go. -/
theorem Kept.move (h : Kept session) (ha : next.arrived = session.arrived)
    (hc : next.permissionActive = session.permissionActive)
    (hq : next.permissionQueue = session.permissionQueue) (hn : next.answered = session.answered)
    (hw : next.written = session.written) (hp : next.published = session.published)
    (hwd : next.withdrawn = session.withdrawn) (han : next.announcing.Sublist session.announcing)
    (hend : session.ended = true → next.ended = true)
    (hd : next.status.isDead = true → next.ended = true)
    (hen : ∀ f ∈ next.frames, f = .failed ∨ f = .disposed → next.ended = true) :
    Kept next := by
  have ht : next.tracked.Sublist session.tracked := by
    rw [tracked, tracked, hp, hq]
    exact (((List.Sublist.refl _).append han).append (List.Sublist.refl _)).map _
  refine ⟨h.distinct.sublist ht, ?_, ?_, ?_, ?_, ?_, ?_, ?_, ?_, ?_, ?_, ?_, hd, hen, ?_⟩
  · intro n hu
    rw [ha]
    exact h.known n (ht.subset hu)
  · rw [hw]
    exact h.once
  · rw [hw, ha]
    exact h.writtenKnown
  · rw [hn, ha]
    exact h.answeredKnown
  · rw [hwd, ha]
    exact h.withdrawnKnown
  · intro n hu
    rw [hw, hn]
    exact h.written n (ht.subset hu)
  · intro en he
    rw [hc] at he
    obtain ⟨h1, h2, h3, h4, h5, h6⟩ := h.active en he
    refine ⟨?_, ?_, ?_, ?_, ?_, ?_⟩
    · rwa [ha]
    · rwa [hn]
    · rwa [hw]
    · rwa [hwd]
    · rwa [hq]
    · rwa [hp]
  · rw [hq, hn, hwd]
    exact h.queued
  · rw [hp, hn, hwd, hc]
    exact h.single
  · intro en he
    rw [hc, hwd]
    exact h.announced en (han.subset he)
  · intro n hu
    rw [hwd] at hu
    rw [hn]
    exact (h.withdrawn n hu).imp_right hend
  · rw [hp, hq]
    exact h.ordered

variable {e : PermissionEntry}

theorem tracked_queue (he : e ∈ session.permissionQueue) : e.number ∈ session.tracked :=
  mem_map_of_mem (mem_append_right _ he)

theorem tracked_published (he : e ∈ session.published) : e.number ∈ session.tracked :=
  mem_map_of_mem (mem_append_left _ (mem_append_left _ he))

/-- A request is answered, and is neither active nor queued any more. -/
theorem Kept.answer (h : Kept session) (r : Response) {n : Nat} (hn : n ∈ session.tracked)
    (hu : n ∉ session.answered) (ha : ∀ e ∈ session.announcing, e.number ≠ n)
    {q : List PermissionEntry} (hq : q.Sublist session.permissionQueue)
    (hqu : ∀ e ∈ q, e.number ≠ n) : Kept { session with
      permissionActive := session.permissionActive.filter (·.number != n)
      permissionQueue := q
      answered := session.answered ++ [n]
      written := session.written ++ [(n, r)] } := by
  have ht : ((session.published ++ session.announcing ++ q).map (·.number)).Sublist
      session.tracked :=
    ((List.Sublist.refl _).append hq).map _
  have hun : n ∉ session.written.map Prod.fst :=
    fun hm => hu (h.written n hn hm)
  constructor
  case distinct => exact h.distinct.sublist ht
  case known => exact fun o ho => h.known o (ht.subset ho)
  case once =>
    rw [map_append, nodup_append]
    refine ⟨h.once, nodup_singleton _, ?_⟩
    intro x hf s hs heq
    obtain rfl := mem_singleton.mp hs
    exact hun (heq ▸ hf)
  case writtenKnown =>
    intro o ho
    rw [map_append] at ho
    rcases mem_append.mp ho with ho | ho
    · exact h.writtenKnown o ho
    · rw [mem_singleton.mp ho]
      exact h.known n hn
  case answeredKnown =>
    intro o ho
    rcases mem_append.mp ho with ho | ho
    · exact h.answeredKnown o ho
    · rw [mem_singleton.mp ho]
      exact h.known n hn
  case withdrawnKnown => exact h.withdrawnKnown
  case written =>
    intro o ho hw
    rw [map_append] at hw
    rcases mem_append.mp hw with hw | hw
    · exact mem_append_left _ (h.written o (ht.subset ho) hw)
    · exact mem_append_right _ hw
  case active =>
    intro e he
    obtain ⟨he, hne⟩ := Option.filter_eq_some_iff.mp he
    rw [bne_iff_ne] at hne
    obtain ⟨h1, h2, h3, h4, h5, h6⟩ := h.active e he
    refine ⟨h1, ?_, ?_, h4, fun o ho => h5 o (hq.subset ho), h6⟩
    · intro hm
      rcases mem_append.mp hm with hm | hm
      · exact h2 hm
      · exact hne (mem_singleton.mp hm)
    · rw [map_append]
      intro hm
      rcases mem_append.mp hm with hm | hm
      · exact h3 hm
      · exact hne (mem_singleton.mp hm)
  case queued =>
    intro e he
    obtain ⟨h1, h2⟩ := h.queued e (hq.subset he)
    refine ⟨?_, h2⟩
    intro hm
    rcases mem_append.mp hm with hm | hm
    · exact h1 hm
    · exact hqu e he (mem_singleton.mp hm)
  case single =>
    intro e he hans hh
    rw [mem_append, not_or, mem_singleton] at hans
    exact Option.filter_eq_some_iff.mpr ⟨h.single e he hans.1 hh, bne_iff_ne.mpr hans.2⟩
  case announced =>
    intro e he
    refine (h.announced e he).imp_left fun hc => ?_
    exact Option.filter_eq_some_iff.mpr ⟨hc, bne_iff_ne.mpr (ha e he)⟩
  case withdrawn =>
    intro o ho
    exact (h.withdrawn o ho).imp_left (mem_append_left _)
  case dead => exact h.dead
  case ending => exact h.ending
  case ordered =>
    exact h.ordered.sublist (((List.Sublist.refl _).append hq).map _)

variable {head : PermissionEntry} {rest : List PermissionEntry}

/-- The head of the queue becomes active, and is published or to be published. -/
theorem Kept.offered (h : Kept session) {p a : List PermissionEntry}
    (hq : session.permissionQueue = head :: rest) (hac : session.permissionActive = none)
    (hn : e.number = head.number)
    (hc : p = session.published ++ [e] ∧ a = session.announcing ∨ p = session.published ∧ a =
    e :: session.announcing)
    (ha : next.arrived = session.arrived) (he : next.permissionActive = some e)
    (hr : next.permissionQueue = rest) (hans : next.answered = session.answered)
    (hw : next.written = session.written) (hwd : next.withdrawn = session.withdrawn)
    (hp : next.published = p) (han : next.announcing = a)
    (hend : next.ended = session.ended) (hde : next.status.isDead = true → next.ended = true)
    (hen : ∀ f ∈ next.frames, f = .failed ∨ f = .disposed → next.ended = true) :
    Kept next := by
  have ht : next.tracked.Perm session.tracked := by
    rw [tracked, tracked, hp, han, hr, hq]
    rcases hc with ⟨rfl, rfl⟩ | ⟨rfl, rfl⟩
    all_goals
      refine perm_iff_count.mpr fun number => ?_
      simp only [map_append, map_cons, map_nil, count_append, count_cons, count_nil, hn]
      omega
  have hm : head ∈ session.permissionQueue := by
    rw [hq]
    exact mem_cons_self
  have hqu := h.queued head hm
  have hor := h.ordered
  rw [hq, map_append, map_cons, pairwise_append, pairwise_cons] at hor
  obtain ⟨hpub, ⟨hf, hl⟩, hb⟩ := hor
  have hls : ∀ o ∈ session.published, o.number < e.number := by
    intro o ho
    rw [hn]
    exact hb _ (mem_map_of_mem ho) _ mem_cons_self
  constructor
  case distinct => exact ht.nodup_iff.mpr h.distinct
  case known =>
    intro number hm
    rw [ha]
    exact h.known number (ht.mem_iff.mp hm)
  case once =>
    rw [hw]
    exact h.once
  case writtenKnown =>
    rw [hw, ha]
    exact h.writtenKnown
  case answeredKnown =>
    rw [hans, ha]
    exact h.answeredKnown
  case withdrawnKnown =>
    rw [hwd, ha]
    exact h.withdrawnKnown
  case written =>
    intro number hm
    rw [hw, hans]
    exact h.written number (ht.mem_iff.mp hm)
  case active =>
    intro o ho
    rw [he] at ho
    obtain rfl := Option.some.inj ho
    refine ⟨?_, ?_, ?_, ?_, ?_, ?_⟩
    · rw [ha, hn]
      exact h.known _ (tracked_queue hm)
    · rw [hans, hn]
      exact hqu.1
    · rw [hw, hn]
      exact fun hwr => hqu.1 (h.written _ (tracked_queue hm) hwr)
    · rw [hwd, hn]
      exact hqu.2
    · intro l hla
      rw [hr] at hla
      rw [hn]
      exact hf _ (mem_map_of_mem hla)
    · rw [hp]
      rcases hc with ⟨rfl, -⟩ | ⟨rfl, -⟩
      · exact Or.inl (mem_append_right _ (mem_singleton_self _))
      · exact Or.inr hls
  case queued =>
    intro o ho
    rw [hr] at ho
    rw [hans, hwd]
    refine h.queued o ?_
    rw [hq]
    exact mem_cons_of_mem _ ho
  case single =>
    intro o ho hu hh
    rw [hans] at hu
    rw [hwd] at hh
    rw [hp] at ho
    have hold : o ∉ session.published := by
      intro hm
      have hop := h.single o hm hu hh
      rw [hac] at hop
      cases hop
    rcases hc with ⟨rfl, -⟩ | ⟨rfl, -⟩
    · rcases mem_append.mp ho with ho | ho
      · exact absurd ho hold
      · rw [mem_singleton.mp ho]
        exact he
    · exact absurd ho hold
  case announced =>
    intro o ho
    rw [han] at ho
    rw [hwd]
    have hold : o ∈ session.announcing → o.number ∈ session.withdrawn := by
      intro hm
      rcases h.announced o hm with hop | hd
      · rw [hac] at hop
        cases hop
      · exact hd
    rcases hc with ⟨-, rfl⟩ | ⟨-, rfl⟩
    · exact Or.inr (hold ho)
    · rcases mem_cons.mp ho with rfl | ho
      · exact Or.inl he
      · exact Or.inr (hold ho)
  case withdrawn =>
    intro number hm
    rw [hwd] at hm
    rw [hans, hend]
    exact h.withdrawn number hm
  case dead => exact hde
  case ending => exact hen
  case ordered =>
    rw [hp, hr, map_append, pairwise_append]
    rcases hc with ⟨rfl, -⟩ | ⟨rfl, -⟩
    · rw [map_append, map_singleton, pairwise_append, hn]
      refine ⟨⟨hpub, pairwise_singleton _ _, ?_⟩, hl, ?_⟩
      · intro x hm s hs
        rw [mem_singleton.mp hs]
        exact hb x hm _ mem_cons_self
      · intro x hm s hs
        rcases mem_append.mp hm with hm | hm
        · exact hb x hm s (mem_cons_of_mem _ hs)
        · rw [mem_singleton.mp hm]
          exact hf s hs
    · exact ⟨hpub, hl, fun x hm s hs =>
        hb x hm s (mem_cons_of_mem _ hs)⟩

/-- A request that gets its response at once, or whose response cannot be written. -/
theorem Kept.arrive (h : Kept session) {r : List (Nat × Response)}
    (hr : r = [] ∨ ∃ rsp, r = [(session.arrived, rsp)]) : Kept { session with
      arrived := session.arrived + 1
      written := session.written ++ r } := by
  have hn : ∀ n ∈ r.map Prod.fst, n = session.arrived := by
    rcases hr with rfl | ⟨rsp, rfl⟩
    · exact fun _ hm => absurd hm not_mem_nil
    · exact fun _ hm => mem_singleton.mp hm
  have ho : (r.map Prod.fst).Nodup := by
    rcases hr with rfl | ⟨rsp, rfl⟩
    · exact nodup_nil
    · exact nodup_singleton _
  constructor
  case distinct => exact h.distinct
  case known => exact fun n hm => Nat.lt_succ_of_lt (h.known n hm)
  case once =>
    rw [map_append, nodup_append]
    refine ⟨h.once, ho, ?_⟩
    intro x hf s hs heq
    have hl := h.writtenKnown x hf
    rw [heq, hn s hs] at hl
    exact Nat.lt_irrefl _ hl
  case writtenKnown =>
    intro n hm
    rw [map_append] at hm
    rcases mem_append.mp hm with hm | hm
    · exact Nat.lt_succ_of_lt (h.writtenKnown n hm)
    · rw [hn n hm]
      exact Nat.lt_succ_self _
  case answeredKnown => exact fun n hm => Nat.lt_succ_of_lt (h.answeredKnown n hm)
  case withdrawnKnown => exact fun n hm => Nat.lt_succ_of_lt (h.withdrawnKnown n hm)
  case written =>
    intro n hm hw
    rw [map_append] at hw
    rcases mem_append.mp hw with hw | hw
    · exact h.written n hm hw
    · have hl := h.known n hm
      rw [hn n hw] at hl
      exact absurd hl (Nat.lt_irrefl _)
  case active =>
    intro e he
    obtain ⟨h1, h2, h3, h4, h5, h6⟩ := h.active e he
    refine ⟨Nat.lt_succ_of_lt h1, h2, ?_, h4, h5, h6⟩
    rw [map_append]
    intro hm
    rcases mem_append.mp hm with hm | hm
    · exact h3 hm
    · rw [hn _ hm] at h1
      exact Nat.lt_irrefl _ h1
  case queued => exact h.queued
  case single => exact h.single
  case announced => exact h.announced
  case withdrawn => exact h.withdrawn
  case dead => exact h.dead
  case ending => exact h.ending
  case ordered => exact h.ordered

/-- A request that waits for a decision. -/
theorem Kept.queue (h : Kept session) (hn : e.number = session.arrived) : Kept { session with
      arrived := session.arrived + 1
      permissionQueue := session.permissionQueue ++ [e] } := by
  have ht : tracked { session with
      arrived := session.arrived + 1
      permissionQueue := session.permissionQueue ++ [e] } =
        session.tracked ++ [session.arrived] := by
    rw [tracked, ← append_assoc, map_append, map_singleton, hn]
    rfl
  constructor
  case distinct =>
    rw [ht, nodup_append]
    refine ⟨h.distinct, nodup_singleton _, ?_⟩
    intro x hf s hs heq
    have hlt := h.known x hf
    rw [heq, mem_singleton.mp hs] at hlt
    exact Nat.lt_irrefl _ hlt
  case known =>
    intro number hm
    rw [ht] at hm
    rcases mem_append.mp hm with hm | hm
    · exact Nat.lt_succ_of_lt (h.known number hm)
    · rw [mem_singleton.mp hm]
      exact Nat.lt_succ_self _
  case once => exact h.once
  case writtenKnown => exact fun number hm => Nat.lt_succ_of_lt (h.writtenKnown number hm)
  case answeredKnown => exact fun number hm => Nat.lt_succ_of_lt (h.answeredKnown number hm)
  case withdrawnKnown => exact fun number hm => Nat.lt_succ_of_lt (h.withdrawnKnown number hm)
  case written =>
    intro number hm hw
    rw [ht] at hm
    rcases mem_append.mp hm with hm | hm
    · exact h.written number hm hw
    · have hlt := h.writtenKnown number hw
      rw [mem_singleton.mp hm] at hlt
      exact absurd hlt (Nat.lt_irrefl _)
  case active =>
    intro o ho
    obtain ⟨h1, h2, h3, h4, h5, h6⟩ := h.active o ho
    refine ⟨Nat.lt_succ_of_lt h1, h2, h3, h4, ?_, h6⟩
    intro l hl
    rcases mem_append.mp hl with hl | hl
    · exact h5 l hl
    · rw [mem_singleton.mp hl, hn]
      exact h1
  case queued =>
    intro o ho
    rcases mem_append.mp ho with ho | ho
    · exact h.queued o ho
    · rw [mem_singleton.mp ho, hn]
      exact ⟨fun hm => Nat.lt_irrefl _ (h.answeredKnown _ hm),
        fun hm => Nat.lt_irrefl _ (h.withdrawnKnown _ hm)⟩
  case single => exact h.single
  case announced => exact h.announced
  case withdrawn => exact h.withdrawn
  case dead => exact h.dead
  case ending => exact h.ending
  case ordered =>
    rw [← append_assoc, map_append, pairwise_append]
    refine ⟨h.ordered, pairwise_singleton _ _, ?_⟩
    intro x hf s hs
    rw [mem_singleton.mp hs]
    show x < e.number
    rw [hn]
    obtain ⟨o, ho, rfl⟩ := mem_map.mp hf
    rcases mem_append.mp ho with ho | ho
    · exact h.known _ (tracked_published ho)
    · exact h.known _ (tracked_queue ho)

theorem Kept.outstanding_nodup (h : Kept session) : (session.outstanding.map (·.number)).Nodup := by
  have hq : (session.permissionQueue.map (·.number)).Nodup := by
    refine h.distinct.sublist ?_
    rw [tracked, map_append]
    exact sublist_append_right _ _
  rw [outstanding]
  cases ha : session.permissionActive with
  | none => exact hq
  | some e =>
    rw [Option.toList_some, singleton_append, map_cons, nodup_cons]
    refine ⟨?_, hq⟩
    intro hm
    obtain ⟨o, ho, heq⟩ := mem_map.mp hm
    have hl := (h.active e ha).first o ho
    rw [heq] at hl
    exact Nat.lt_irrefl _ hl

theorem Kept.of_outstanding (h : Kept session) {n : Nat}
    (hm : n ∈ session.outstanding.map (·.number)) : n < session.arrived ∧ n ∉ session.answered ∧
      n ∉ session.written.map Prod.fst := by
  obtain ⟨e, he, rfl⟩ := mem_map.mp hm
  rcases mem_append.mp he with he | he
  · have ho := h.active e (Option.mem_toList.mp he)
    exact ⟨ho.known, ho.unanswered, ho.unwritten⟩
  · have hu := (h.queued e he).1
    have ht := tracked_queue he
    exact ⟨h.known _ ht, hu, fun hw => hu (h.written _ ht hw)⟩

/-- All outstanding requests are withdrawn; some are answered, others when the Session ends. -/
theorem Kept.clear (h : Kept session) (answered : List Nat) (r : List (Nat × Response))
    (ha : ∀ n ∈ answered, n ∈ session.outstanding.map (·.number))
    (hen : ∀ n ∈ session.outstanding.map (·.number), n ∈ answered ∨ session.ended = true)
    (hs : (r.map Prod.fst).Sublist (session.outstanding.map (·.number)))
    (hr : ∀ n ∈ r.map Prod.fst, n ∈ answered) : Kept { session.clear with
      answered := session.answered ++ answered
      written := session.written ++ r } := by
  have ht : ((session.published ++ session.announcing ++ ([] : List PermissionEntry)).map
      (·.number)).Sublist session.tracked :=
    ((List.Sublist.refl _).append (nil_sublist _)).map _
  constructor
  case distinct => exact h.distinct.sublist ht
  case known => exact fun n hm => h.known n (ht.subset hm)
  case once =>
    rw [map_append, nodup_append]
    refine ⟨h.once, h.outstanding_nodup.sublist hs, ?_⟩
    intro x hf s hse heq
    exact (h.of_outstanding (hs.subset hse)).2.2 (heq ▸ hf)
  case writtenKnown =>
    intro n hm
    rw [map_append] at hm
    rcases mem_append.mp hm with hm | hm
    · exact h.writtenKnown n hm
    · exact (h.of_outstanding (hs.subset hm)).1
  case answeredKnown =>
    intro n hm
    rcases mem_append.mp hm with hm | hm
    · exact h.answeredKnown n hm
    · exact (h.of_outstanding (ha n hm)).1
  case withdrawnKnown =>
    intro n hm
    rcases mem_append.mp hm with hm | hm
    · exact h.withdrawnKnown n hm
    · exact (h.of_outstanding hm).1
  case written =>
    intro n hm hw
    rw [map_append] at hw
    rcases mem_append.mp hw with hw | hw
    · exact mem_append_left _ (h.written n (ht.subset hm) hw)
    · exact mem_append_right _ (hr n hw)
  case active => exact fun _ he => nomatch he
  case queued => exact fun _ he => absurd he not_mem_nil
  case single =>
    intro e he hu hh
    rw [mem_append, not_or] at hu
    have hn : e.number ∉ session.withdrawn ++ session.outstanding.map (·.number) := hh
    rw [mem_append, not_or] at hn
    have ho := h.single e he hu.1 hn.1
    refine absurd (mem_map_of_mem ?_) hn.2
    rw [outstanding, ho]
    exact mem_append_left _ (mem_singleton_self _)
  case announced =>
    intro e he
    refine Or.inr ?_
    rcases h.announced e he with ho | hd
    · refine mem_append_right _ (mem_map_of_mem ?_)
      rw [outstanding, ho]
      exact mem_append_left _ (mem_singleton_self _)
    · exact mem_append_left _ hd
  case withdrawn =>
    intro n hm
    rcases mem_append.mp hm with hm | hm
    · exact (h.withdrawn n hm).imp_left (mem_append_left _)
    · exact (hen n hm).imp_left (mem_append_right _)
  case dead => exact h.dead
  case ending => exact h.ending
  case ordered =>
    exact h.ordered.sublist (((List.Sublist.refl _).append (nil_sublist _)).map _)

/-- A request that is still active is published. -/
theorem Kept.publish (h : Kept session) {settles : Bool} {frames : List Frame}
    (hf : session.frames = .announce e settles :: frames) (hc : session.permissionActive = some e) :
    Kept ({ session with frames }.publish e settles) ∧
      ∀ other ∈ session.published, other.number < e.number := by
  have ha : session.announcing = e :: frames.filterMap Frame.announcing := by
    rw [announcing, hf]
    rfl
  have ht : ({ session with frames }.publish e settles).tracked.Perm session.tracked := by
    rw [tracked, tracked, ha]
    refine perm_iff_count.mpr fun number => ?_
    simp only [Permissions.publish, announcing, filterMap_cons, Frame.announcing,
      map_append, map_cons, map_nil, count_append, count_cons,
      count_nil]
    omega
  have hop := h.active e hc
  have hn : e ∉ session.published := by
    intro hm
    have hd := h.distinct
    rw [tracked, ha, map_append, map_append, append_assoc, nodup_append] at hd
    exact hd.2.2 _ (mem_map_of_mem hm) _ (mem_append_left _ mem_cons_self) rfl
  have hla : ∀ other ∈ session.published, other.number < e.number :=
    hop.last.resolve_left hn
  refine ⟨?_, hla⟩
  constructor
  case distinct => exact ht.nodup_iff.mpr h.distinct
  case known => exact fun number hm => h.known number (ht.mem_iff.mp hm)
  case once => exact h.once
  case writtenKnown => exact h.writtenKnown
  case answeredKnown => exact h.answeredKnown
  case withdrawnKnown => exact h.withdrawnKnown
  case written => exact fun number hm => h.written number (ht.mem_iff.mp hm)
  case active =>
    intro other ho
    obtain rfl := Option.some.inj (hc.symm.trans ho)
    exact ⟨hop.known, hop.unanswered, hop.unwritten, hop.held, hop.first,
      Or.inl (mem_append_right _ (mem_singleton_self _))⟩
  case queued => exact h.queued
  case single =>
    intro other ho hu hh
    rcases mem_append.mp ho with ho | ho
    · exact h.single other ho hu hh
    · rw [mem_singleton.mp ho]
      exact hc
  case announced =>
    intro other ho
    refine h.announced other ?_
    rw [ha]
    exact mem_cons_of_mem _ ho
  case withdrawn => exact h.withdrawn
  case dead => exact h.dead
  case ending =>
    intro frame hm he
    rcases mem_cons.mp hm with rfl | hm
    · rcases he with he | he <;> cases he
    · refine h.ending frame ?_ he
      rw [hf]
      exact mem_cons_of_mem _ hm
  case ordered =>
    have hr := h.ordered
    rw [map_append, pairwise_append] at hr
    show ((session.published ++ [e] ++ session.permissionQueue).map (·.number)).Pairwise _
    rw [append_assoc, map_append, pairwise_append]
    refine ⟨hr.1, ?_, ?_⟩
    · rw [singleton_append, map_cons, pairwise_cons]
      refine ⟨?_, hr.2.1⟩
      intro number hm
      obtain ⟨other, ho, rfl⟩ := mem_map.mp hm
      exact hop.first other ho
    · intro number hm later hl
      rcases mem_cons.mp hl with rfl | hl
      · obtain ⟨other, ho, rfl⟩ := mem_map.mp hm
        exact hla other ho
      · exact hr.2.2 number hm later hl

/-! ### The queue -/

/-- What working off the queue comes to. -/
structure Advances (session next : Permissions) : Prop where
  kept : Kept next
  drained : Drained next
  announces : Announces session next
  accepted : next.accepted = session.accepted
  remembered : next.remembered = session.remembered

theorem finish_advances (h : Kept session) (hd : Drained session) (s : Bool) :
    Advances session (session.finish lo s) := by
  unfold finish settle
  split
  · split
    · refine ⟨?_, hd, Or.inl rfl, rfl, rfl⟩
      refine h.move rfl rfl rfl rfl rfl rfl rfl (.refl _) id ?_ h.ending
      intro he
      have ha : (settledStatus lo).isDead = false := by
        unfold settledStatus
        split
        · split <;> rfl
        · rfl
      rw [show (settledStatus lo).isDead = true from he] at ha
      cases ha
    · exact ⟨h, hd, Or.inl rfl, rfl, rfl⟩
  · exact ⟨h, hd, Or.inl rfl, rfl, rfl⟩

theorem respond_cases (session : Permissions) (lo : Look) (n : Nat) (r : Response) :
    (session.respond lo n r = (false, session) ∧ (lo.writable n && !session.closed) = false) ∨
    (session.respond lo n r = (true, { session with written := session.written ++ [(n, r)] }) ∧
      (lo.writable n && !session.closed) = true) := by
  unfold respond
  split
  · rename_i hs
    exact Or.inr ⟨rfl, hs⟩
  · rename_i hs
    exact Or.inl ⟨rfl, Bool.not_eq_true _ ▸ hs⟩

/-- A queued request is annotated, or it is answered. -/
theorem applyRemembered_cases (se : Setup) (lo : Look) (e : PermissionEntry)
    (session : Permissions) : (∃ a, session.applyRemembered se lo e = (some a, session) ∧
      a.number = e.number) ∨ ∃ r, session.applyRemembered se lo e = (none, { session with
      answered := session.answered ++ [e.number]
      written := session.written ++ [(e.number, r)] }) := by
  unfold applyRemembered
  split
  · exact Or.inl ⟨_, rfl, rfl⟩
  · split
    · exact Or.inl ⟨_, rfl, rfl⟩
    · split
      · exact Or.inl ⟨_, rfl, rfl⟩
      · split
        · exact Or.inl ⟨_, rfl, rfl⟩
        · rename_i result he
          rcases respond_cases session lo e.number ⟨some result, none⟩ with ⟨hr, -⟩ | ⟨hr, -⟩
          · rw [hr]
            exact Or.inl ⟨_, rfl, rfl⟩
          · rw [hr]
            exact Or.inr ⟨_, rfl⟩

theorem offer_advances (h : Kept session) (hq : session.permissionQueue = head :: rest)
    (ha : session.permissionActive = none) (hu : e.number = head.number) (settles : Bool) :
    Advances session ({ session with permissionQueue := rest }.offer e settles) := by
  have hm : head ∈ session.permissionQueue := by
    rw [hq]
    exact mem_cons_self
  unfold offer
  dsimp only
  split
  · refine ⟨?_, fun _ hn => (nomatch hn), Or.inr ⟨e, rfl, ?_, ?_⟩, rfl, rfl⟩
    · refine h.offered hq ha hu (Or.inl ⟨rfl, rfl⟩) rfl rfl rfl rfl rfl rfl rfl
        rfl rfl h.dead ?_
      intro frame hf he
      rcases mem_cons.mp hf with rfl | hf
      · rcases he with he | he <;> cases he
      · exact h.ending frame hf he
    · rw [hu]
      exact (h.queued head hm).2
    · intro other ht
      have ho := h.ordered
      rw [map_append, pairwise_append] at ho
      rw [hu]
      exact ho.2.2 _ (mem_map_of_mem ht) _ (mem_map_of_mem hm)
  · refine ⟨?_, fun _ hn => (nomatch hn), Or.inl rfl, rfl, rfl⟩
    refine h.offered hq ha hu (Or.inr ⟨rfl, rfl⟩) rfl rfl rfl rfl rfl rfl rfl
      rfl rfl (fun hd => (nomatch hd)) ?_
    intro frame hf he
    rcases mem_cons.mp hf with rfl | hf
    · rcases he with he | he <;> cases he
    · exact h.ending frame hf he

theorem pumpQueue_advances (s : Bool) (q : List PermissionEntry) (h : Kept session)
    (hq : session.permissionQueue = q) (ha : session.permissionActive = none) :
    Advances session (pumpQueue se lo s q session) := by
  induction q generalizing session with
  | nil => exact finish_advances h (fun _ _ => hq) s
  | cons e rest ih =>
    rw [pumpQueue]
    rcases applyRemembered_cases se lo e { session with permissionQueue := rest } with
      ⟨annotated, han, hn⟩ | ⟨response, hs⟩
    · rw [han]
      exact offer_advances h hq ha hn s
    · rw [hs]
      have hm : e ∈ session.permissionQueue := by
        rw [hq]
        exact mem_cons_self
      have hi := h.distinct
      rw [tracked, hq, map_append, map_append, map_cons, nodup_append, nodup_cons] at hi
      have hk := h.answer response (tracked_queue hm) (h.queued e hm).1 (fun o ho heq => hi.2.2 _
          (mem_append_right _ (mem_map_of_mem ho)) _ mem_cons_self heq)
        (hq ▸ sublist_cons_self e rest) (fun o ho heq => hi.2.1.1 (heq ▸ mem_map_of_mem ho))
      have hf : session.permissionActive.filter (·.number != e.number) =
          session.permissionActive := by
        rw [ha]
        rfl
      rw [hf] at hk
      obtain ⟨hk', hd, hann, hc, hr⟩ := ih hk rfl ha
      exact ⟨hk', hd, hann, hc, hr⟩

/-- Publishing the next request keeps the order. -/
theorem pump_advances (h : Kept session) (se : Setup) (lo : Look) (s : Bool) :
    Advances session (session.pump se lo s) := by
  unfold pump
  split
  · rename_i hs
    refine finish_advances h ?_ s
    intro hl hn
    rw [hn, Option.isSome_none, Bool.false_or] at hs
    rw [h.dead hs] at hl
    cases hl
  · rename_i hg
    rw [Bool.or_eq_true, not_or] at hg
    refine pumpQueue_advances s _ h rfl ?_
    exact Option.not_isSome_iff_eq_none.mp hg.1

end

end Permissions

end Louiselm.Session
