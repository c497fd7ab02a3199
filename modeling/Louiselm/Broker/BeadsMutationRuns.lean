import Louiselm.Broker.BeadsMutations

/-!
# Beads mutations along every run

The attempts of `Broker/BeadsMutations` under calls in any order, each of which may stop at
any of its operations. A call leaves the store as it was, or adds the record of its request,
or runs the tracker behind that record. Files are never changed, so what was recorded before
a run stays the answer to every later request.
-/

namespace Louiselm.Broker.BeadsMutations
open Base Canonical List Option
open Base.Program
open Broker.Authorization (Records Stored)
open Directory

/-! ### What one call leaves -/

/-- How many attempts of a Session have a record. -/
def attempts (session : String) (records : Records Record) : Nat :=
  records.countP fun item =>
    match item.2 with
    | .whole record => record.binding.sessionId == session
    | .torn => false

/-- How many runs were for a Session. -/
def runsOf (session : String) (runs : List Run) : Nat :=
  runs.countP (·.binding.sessionId == session)

variable {format : Format} {binding : Binding} {request : BeadsMutationRequest}
  {permission : ApprovedBeadsMutations} {nowMs : UInt64} {tracker : TrackerConfig}
  {ambient : Ambient} {s s' : Store} {session : String} {limit : Nat}

/-- The loop passes only where one more attempt stays within the limit. -/
theorem checkBudget_ok {b : Record → Nat} {rs : Records Record} {t u : Nat}
    (h : checkBudget b session limit t u rs = .ok ()) (hu : u < limit) :
    u + attempts session rs < limit := by
  induction rs generalizing t u with
  | nil => exact hu
  | cons x rs ih =>
    obtain ⟨n, st⟩ := x
    unfold checkBudget at h
    obtain ⟨-, h⟩ := check_ok.mp h
    obtain ⟨r, hr, h⟩ := bind_ok.mp h
    obtain ⟨-, h⟩ := check_ok.mp h
    rw [stored_read_ok (mapError_ok.mp hr)]
    unfold attempts at ih ⊢
    rw [countP_cons]
    dsimp only
    by_cases hs : r.binding.sessionId = session
    · rw [if_pos hs] at h
      obtain ⟨ho, h⟩ := check_ok.mp h
      have := ih h (by simpa using ho)
      simp only [hs, beq_self_eq_true, if_true]
      omega
    · rw [if_neg hs] at h
      have := ih h hu
      simpa [hs] using this

/-- The record answers for a request of its Session. -/
structure Record.For (format : Format) (binding : Binding) (request : BeadsMutationRequest)
    (record : Record) : Prop where
  binding : record.binding = binding
  requestId : record.requestId = request.requestId
  digest : record.requestDigest = BeadsMutations.requestDigest format request

/-- Where a request's file is. -/
def pathOf (format : Format) (binding : Binding) (request : BeadsMutationRequest) : String :=
  requestPath format.sha256 binding.sessionId request.requestId

/-- The store with one more record and one more run behind it. -/
def Store.behind (s : Store) (path : String) (record : Record) (run : Run)
    (outcomes : Records BeadsMutationOutcome) : Store where
  requests := s.requests ++ [(path, .whole record)]
  outcomes := outcomes
  runs := s.runs ++ [run]

/-- What a call can leave: the store as it was, the record of a request that had none, or
behind such a record one run of the tracker. -/
inductive Leaves (format : Format) (binding : Binding) (request : BeadsMutationRequest)
    (permission : ApprovedBeadsMutations) (s : Store) : Store → Prop where
  | same : Leaves format binding request permission s s
  | recorded (stored : Stored Record)
      (habsent : s.requests.lookup (pathOf format binding request) = none)
      (hroom : attempts binding.sessionId s.requests < permission.maxMutations.toNat)
      (hstored : ∀ record, stored = .whole record → record.For format binding request) :
      Leaves format binding request permission s
        { s with requests := s.requests ++ [(pathOf format binding request, stored)] }
  | ran (record : Record) (run : Run) (outcomes : Records BeadsMutationOutcome)
      (habsent : s.requests.lookup (pathOf format binding request) = none)
      (hroom : attempts binding.sessionId s.requests < permission.maxMutations.toNat)
      (hrecord : record.For format binding request)
      (hrun : run.binding = binding ∧ run.request = request)
      (hpermits : permission.permits request run.atMs = true) (hgrows : Grows s.outcomes outcomes) :
      Leaves format binding request permission s
        (s.behind (pathOf format binding request) record run outcomes)

/-- What is reported of an operation: its outcome where it has one. -/
def Reported (s : Store) (operationId : String) (outcome : BeadsMutationOutcome) : Prop :=
  s.outcomes.lookup operationId = some (.whole outcome) ∨
    s.outcomes.lookup operationId = none ∧ outcome = .unknown

/-- What a reply says: the identity of the request's record, and what is known of it. -/
def Replies (format : Format) (binding : Binding) (request : BeadsMutationRequest) (s : Store)
    (status : BeadsMutationStatus) : Prop :=
  ∃ record, s.requests.lookup (pathOf format binding request) = some (.whole record) ∧
    record.For format binding request ∧ status.operationId = record.operationId ∧
    Reported s record.operationId status.outcome

/-- A request that has a record changes nothing, and has a reply only where it is the one the
record is for. -/
theorem replay_reports {r : Record}
    (hl : s.requests.lookup (pathOf format binding request) = some (.whole r)) :
    Reads (replay format binding request tracker r) s (Replies format binding request s) := by
  refine Reads.bind (reads_ofExcept fun _ h => require_ok.mp h) fun _ hs => ?_
  simp only [Bool.and_eq_true, beq_iff_eq] at hs
  obtain ⟨⟨⟨⟨-, hb⟩, hd⟩, hi⟩, -⟩ := hs
  have hf : r.For format binding request := ⟨hb, hi, hd⟩
  refine wp_bind (wp_read ?_ ?_ (fun _ => rfl) rfl)
  · intro hn
    exact wp_pure.mpr ⟨rfl, r, hl, hf, rfl, .inr ⟨hn, rfl⟩⟩
  · intro o ho
    exact wp_pure.mpr ⟨rfl, r, hl, hf, rfl, .inl ho⟩

variable (format binding request permission nowMs tracker ambient s) in
/-- However a call ends, what it leaves is one of the cases, and a reply is as the store
then has it. -/
theorem accept_leaves : Wp (accept format binding request permission nowMs tracker ambient)
      ⟨fun stt s' => Leaves format binding request permission s s' ∧
          Replies format binding request s' stt ∧
          ∀ st, s.requests.lookup (pathOf format binding request) = some st → s' = s,
        fun _ s' => Leaves format binding request permission s s' ∧
          ∀ st, s.requests.lookup (pathOf format binding request) = some st → s' = s,
        fun s' => Leaves format binding request permission s s' ∧
          ∀ st, s.requests.lookup (pathOf format binding request) = some st → s' = s⟩ s := by
  have hs : Leaves format binding request permission s s ∧
      ∀ st, s.requests.lookup (pathOf format binding request) = some st → s = s :=
    ⟨.same, fun _ _ => rfl⟩
  refine wp_bind (wp_ofExcept (fun _ hp => ?_) fun _ _ => hs)
  have hi : 0 < permission.maxMutations.toNat := by
    simp only [require_ok, ApprovedBeadsMutations.permits, ApprovedBeadsMutations.valid,
      Bool.and_eq_true, decide_eq_true_eq] at hp
    have hle : (1 : UInt32) ≤ permission.maxMutations := hp.1.1.1.1.1.1.1.1.2
    exact UInt32.le_iff_toNat_le.mp hle
  refine wp_bind (wp_read (fun ha => ?_) (fun r hl => ?_) (fun _ => hs) hs)
  · -- a request without a record
    have hn : ∀ {s' : Store} st,
        s.requests.lookup (pathOf format binding request) = some st → s' = s :=
      fun st ho => absurd (ha.symm.trans ho) (by simp)
    refine wp_bind (wp_query (fun _ hb => ?_) (fun _ _ => hs) hs hs)
    have hr : attempts binding.sessionId s.requests < permission.maxMutations.toNat := by
      simpa using checkBudget_ok hb hi
    refine wp_bind (wp_ofExcept (fun oi _ => ?_) fun _ _ => hs)
    refine wp_bind (wp_ofExcept (fun _ _ => ?_) fun _ _ => hs)
    refine wp_bind (wp_ofExcept (fun sc _ => ?_) fun _ _ => hs)
    refine wp_bind (wp_ofExcept (fun _ hc => ?_) fun _ _ => hs)
    have he : Record.For format binding request
        ⟨binding, request.requestId, requestDigest format request,
          tracker.projectDigest format.sha256, oi, nowMs⟩ := ⟨rfl, rfl, rfl⟩
    have hint : ∀ s', (requestFiles format.recordBytes).Interrupted
        (pathOf format binding request) ⟨binding, request.requestId, requestDigest format request,
          tracker.projectDigest format.sha256, oi, nowMs⟩ s s' →
        Leaves format binding request permission s s' ∧
          ∀ st, s.requests.lookup (pathOf format binding request) = some st → s' = s := by
      intro s' h
      cases h with
      | nothing => exact hs
      | torn ha => exact ⟨.recorded _ ha hr (fun _ h => by simp at h), hn⟩
      | whole ha =>
        refine ⟨.recorded _ ha hr fun r h => ?_, hn⟩
        obtain rfl := Stored.whole.inj h
        exact he
    refine wp_bind (wp_create (fun _ => ?_) (fun _ s' h => hint s' h) fun s' h => hint s' h)
    refine wp_bind (wp_effect ?_ (hint _ (.whole ha)))
    -- from here on the tracker has run
    have hran : ∀ o, Grows s.outcomes o → Leaves format binding request permission s
        (s.behind (pathOf format binding request) _ ⟨binding, request,
          later nowMs ambient.elapsedMs, buildInvocation request.kind binding tracker sc⟩
          o) := fun o hg =>
      .ran _ _ o ha hr he ⟨rfl, rfl⟩ (require_ok.mp hc) hg
    cases ambient.ran with
    | none => exact wp_fail.mpr ⟨hran _ (.refl _), hn⟩
    | some ec =>
      have ht : ∀ out s', (outcomeFiles format.outcomeBytes).Interrupted oi
          out (s.behind (pathOf format binding request) ⟨binding, request.requestId,
            requestDigest format request, tracker.projectDigest format.sha256, oi, nowMs⟩
            ⟨binding, request, later nowMs ambient.elapsedMs,
              buildInvocation request.kind binding tracker sc⟩ s.outcomes) s' →
          Leaves format binding request permission s s' ∧
            ∀ st, s.requests.lookup (pathOf format binding request) = some st → s' = s := by
        intro out s' h
        cases h with
        | nothing => exact ⟨hran _ (.refl _), hn⟩
        | torn _ => exact ⟨hran _ (grows_append _ _), hn⟩
        | whole _ => exact ⟨hran _ (grows_append _ _), hn⟩
      refine wp_bind (wp_create (fun hf => wp_pure.mpr ?_)
        (fun _ s' h => ht _ s' h) fun s' h => ht _ s' h)
      refine ⟨hran _ (grows_append _ _), ⟨_, lookup_append_new ha, he, rfl, .inl ?_⟩, hn⟩
      exact lookup_append_new hf
  · refine Wp.mono (replay_reports hl) ?_ ?_ ?_
    · rintro stt _ ⟨rfl, hre⟩
      exact ⟨.same, hre, fun _ _ => rfl⟩
    · rintro _ _ rfl
      exact hs
    · rintro _ rfl
      exact hs

/-! ### Any order of calls -/

/-- A call that had a reply. -/
structure Reply where
  binding : Binding
  request : BeadsMutationRequest
  status : BeadsMutationStatus

/-- The store, the contents that have got a file in it, and the replies so far. -/
structure System where
  store : Store
  recorded : List (Binding × BeadsMutationRequest)
  replies : List Reply

/-- One call with what it meets, and what befalls its operations. -/
structure Event where
  binding : Binding
  request : BeadsMutationRequest
  nowMs : UInt64
  tracker : TrackerConfig
  ambient : Ambient
  faults : List Fault

namespace System

/-- Nothing is stored, and nobody has called. -/
def empty : System := ⟨⟨[], [], []⟩, [], []⟩

/-- Continue from the store that a call leaves. -/
def after (s : System) (event : Event) (store : Store) (replies : List Reply) : System where
  store := store
  recorded := s.recorded ++
    if store.requests.length = s.store.requests.length then [] else [(event.binding, event.request)]
  replies := s.replies ++ replies

/-- A call, held against what is approved for its Session. -/
def step (format : Format) (approval : String → ApprovedBeadsMutations) (s : System)
    (event : Event) : System :=
  match accept format event.binding event.request (approval event.binding.sessionId) event.nowMs
    event.tracker event.ambient event.faults s.store with
  | (.value status, _, store) => s.after event store [⟨event.binding, event.request, status⟩]
  | (.error _, _, store) => s.after event store []
  | (.crashed, _, store) => s.after event store []

end System

/-- The Session and the request that a call names. -/
def keyOf (binding : Binding) (request : BeadsMutationRequest) : String × String :=
  (binding.sessionId, request.requestId)

/-- A later reply to the same request has the same identity, and an outcome that was known
is the outcome still. -/
def Follows (earlier later : Reply) : Prop :=
  keyOf later.binding later.request = keyOf earlier.binding earlier.request →
    later.status.operationId = earlier.status.operationId ∧
      (earlier.status.outcome = .unknown ∨ later.status.outcome = earlier.status.outcome)

/-- The tracker ran once for a request, within the budget of its Session and under its
approval, and the replies are consistent. -/
structure Once (approval : String → ApprovedBeadsMutations) (s : System) : Prop where
  once : (s.store.runs.map fun run => keyOf run.binding run.request).Nodup
  budget : ∀ session, runsOf session s.store.runs ≤ (approval session).maxMutations.toNat
  permitted : ∀ run ∈ s.store.runs,
    (approval run.binding.sessionId).permits run.request run.atMs = true
  backed : ∀ run ∈ s.store.runs, (run.binding, run.request) ∈ s.recorded
  answered : ∀ reply ∈ s.replies, ∃ item ∈ s.recorded,
    keyOf item.1 item.2 = keyOf reply.binding reply.request
  replies : s.replies.Pairwise Follows

/-- Two contents of a request that the digest does not tell apart. -/
def Collides (format : Format) (a b : BeadsMutationRequest) : Prop :=
  a ≠ b ∧ format.sha256 (format.json.toVec a) = format.sha256 (format.json.toVec b)

/-- A call under the name of a recorded request, but with another binding or content, has no
reply and changes nothing. -/
def Refuses (format : Format) (s : System) (event : Event) (next : System) : Prop :=
  ∀ item ∈ s.recorded, keyOf event.binding event.request = keyOf item.1 item.2 →
    (event.binding ≠ item.1 → next = s) ∧
      (event.request ≠ item.2 → next = s ∨ Collides format event.request item.2)

/-- The files are those of the recorded contents. -/
structure Filed (format : Format) (requests : Records Record)
    (recorded : List (Binding × BeadsMutationRequest)) : Prop where
  stored : ∀ item ∈ recorded, ∃ stored, requests.lookup (pathOf format item.1 item.2) =
      some stored ∧
    ∀ record, stored = .whole record → record.For format item.1 item.2
  known : ∀ name record, requests.lookup name = some (.whole record) →
    ∃ item ∈ recorded, record.For format item.1 item.2

/-- What the files say of the calls so far, and what follows from it. -/
structure Sound (format : Format) (approval : String → ApprovedBeadsMutations) (s : System) : Prop
    extends Once approval s where
  filed : Filed format s.store.requests s.recorded
  counted : ∀ session, runsOf session s.store.runs ≤ attempts session s.store.requests
  limited : ∀ session, attempts session s.store.requests ≤ (approval session).maxMutations.toNat
  replied : ∀ reply ∈ s.replies, ∃ record,
    s.store.requests.lookup (pathOf format reply.binding reply.request) = some (.whole record) ∧
      reply.status.operationId = record.operationId ∧ (reply.status.outcome = .unknown ∨
        s.store.outcomes.lookup record.operationId = some (.whole reply.status.outcome))

variable {approval : String → ApprovedBeadsMutations} {sys : System} {event : Event}

theorem sound_empty : Sound format approval .empty where
  once := nodup_nil
  budget := fun _ => Nat.zero_le _
  permitted := forall_mem_nil _
  backed := forall_mem_nil _
  answered := forall_mem_nil _
  replies := List.Pairwise.nil
  filed := ⟨forall_mem_nil _, fun _ _ h => by simp [System.empty] at h⟩
  counted := fun _ => Nat.zero_le _
  limited := fun _ => Nat.zero_le _
  replied := forall_mem_nil _

theorem Leaves.requests (h : Leaves format binding request permission s s') :
    Grows s.requests s'.requests := by
  cases h with
  | same => exact .refl _
  | recorded _ _ _ _ => exact grows_append _ _
  | ran _ _ _ _ _ _ _ _ _ => exact grows_append _ _

theorem Leaves.outcomes (h : Leaves format binding request permission s s') :
    Grows s.outcomes s'.outcomes := by
  cases h with
  | same => exact .refl _
  | recorded _ _ _ _ => exact .refl _
  | ran _ _ _ _ _ _ _ _ hg => exact hg

/-- A whole record is an attempt of its Session. -/
theorem attempts_whole (session p : String) (rs : Records Record) (r : Record) :
    attempts session (rs ++ [(p, .whole r)]) = attempts session rs +
      if r.binding.sessionId = session then 1 else 0 := by
  simp only [attempts, countP_append, countP_singleton, beq_iff_eq]

variable {sto : Stored Record}

/-- What is stored for a request is an attempt of its Session or of none. -/
theorem attempts_stored (session p : String) (rs : Records Record)
    (hs : ∀ r, sto = .whole r → r.For format binding request) :
    attempts session rs ≤ attempts session (rs ++ [(p, sto)]) ∧
      attempts session (rs ++ [(p, sto)]) ≤ attempts session rs +
        if binding.sessionId = session then 1 else 0 := by
  cases sto with
  | torn => simp [attempts]
  | whole r =>
    rw [attempts_whole, (hs r rfl).binding]
    exact ⟨Nat.le_add_right _ _, le_rfl⟩

theorem runsOf_append (session : String) (r : List Run) (run : Run) : runsOf session (r ++ [run]) =
      runsOf session r + if run.binding.sessionId = session then 1 else 0 := by
  simp only [runsOf, countP_append, countP_singleton, beq_iff_eq]

/-- A request that gets a file stays within what is approved for its Session. -/
theorem limited_append
    (hl : ∀ session, attempts session s.requests ≤ (approval session).maxMutations.toNat)
    (hr : attempts binding.sessionId s.requests < (approval binding.sessionId).maxMutations.toNat)
    (hs : ∀ r, sto = .whole r → r.For format binding request) (p session : String) :
    attempts session (s.requests ++ [(p, sto)]) ≤ (approval session).maxMutations.toNat := by
  have he := (attempts_stored session p s.requests hs).2
  have hb := hl session
  by_cases h : binding.sessionId = session
  · subst h
    rw [if_pos rfl] at he
    omega
  · rw [if_neg h] at he
    omega

/-- The directory with the file of a request that had none. -/
theorem Filed.append {r : Records Record} {rd : List (Binding × BeadsMutationRequest)}
    (h : Filed format r rd) (ha : r.lookup (pathOf format binding request) = none)
    (hs : ∀ re, sto = .whole re → re.For format binding request) :
    Filed format (r ++ [(pathOf format binding request, sto)]) (rd ++ [(binding, request)]) where
  stored := by
    intro x hi
    rcases mem_append.mp hi with hi | hi
    · obtain ⟨held, hl, hf⟩ := h.stored x hi
      exact ⟨held, grows_append _ _ _ _ hl, hf⟩
    · obtain rfl := mem_singleton.mp hi
      exact ⟨sto, lookup_append_new ha, hs⟩
  known := by
    intro n re hl
    rw [lookup_append] at hl
    cases hb : r.lookup n with
    | some held =>
      rw [hb] at hl
      obtain rfl := some.inj hl
      obtain ⟨x, hi, hf⟩ := h.known n re hb
      exact ⟨x, mem_append_left _ hi, hf⟩
    | none =>
      rw [hb, none_or, lookup_cons] at hl
      split at hl
      · exact ⟨_, mem_append_right _ (mem_singleton_self _), hs re (some.inj hl)⟩
      · simp at hl

/-- What a call leaves is sound, whoever gets a reply. -/
theorem Sound.leaves (h : Sound format approval sys) {st : Store}
    (hle : Leaves format event.binding event.request (approval event.binding.sessionId)
      sys.store st) : Sound format approval (sys.after event st []) := by
  have hr : ∀ r ∈ sys.replies ++ [], ∃ re,
      st.requests.lookup (pathOf format r.binding r.request) = some (.whole re) ∧
        r.status.operationId = re.operationId ∧ (r.status.outcome = .unknown ∨
          st.outcomes.lookup re.operationId = some (.whole r.status.outcome)) := by
    intro r hre
    obtain ⟨re, hl, hd, hout⟩ := h.replied r (by simpa using hre)
    exact ⟨re, hle.requests _ _ hl, hd, hout.imp_right (hle.outcomes _ _)⟩
  have hn : ∀ m, ∀ r ∈ sys.replies ++ [], ∃ x ∈ sys.recorded ++ m,
      keyOf x.1 x.2 = keyOf r.binding r.request := by
    intro m r hre
    obtain ⟨x, hi, hk⟩ := h.answered r (by simpa using hre)
    exact ⟨x, mem_append_left _ hi, hk⟩
  cases hle with
  | same =>
    have hsa : sys.after event sys.store [] = sys := by simp [System.after]
    rw [hsa]
    exact h
  | recorded sto ha hro ht =>
    simp only [System.after, length_append, length_singleton, Nat.add_eq_left,
      one_ne_zero, if_false] at hr ⊢
    exact {
      once := h.once
      budget := h.budget
      permitted := h.permitted
      backed := fun run hu => mem_append_left _ (h.backed run hu)
      answered := hn _
      replies := by simpa using h.replies
      filed := h.filed.append ha ht
      counted := fun session =>
        (h.counted session).trans (attempts_stored session _ _ ht).1
      limited := limited_append h.limited hro ht _
      replied := hr }
  | ran re run ou ha hro hc hu hp hg =>
    obtain ⟨hb, hq⟩ := hu
    have ht : ∀ o, Stored.whole re = .whole o → o.For format event.binding event.request := by
      rintro _ ⟨⟩
      exact hc
    have hf : keyOf run.binding run.request ∉
        sys.store.runs.map fun run => keyOf run.binding run.request := by
      intro hm
      obtain ⟨e, he, hk⟩ := mem_map.mp hm
      obtain ⟨held, hl, -⟩ := h.filed.stored _ (h.backed e he)
      rw [hb, hq] at hk
      obtain ⟨hs, hd⟩ := Prod.mk.inj hk
      unfold pathOf at hl ha
      rw [hs, hd, ha] at hl
      simp at hl
    have hcnt : ∀ session, runsOf session (sys.store.runs ++ [run]) ≤ attempts session
        (sys.store.requests ++ [(pathOf format event.binding event.request, .whole re)]) := by
      intro session
      rw [runsOf_append, attempts_whole, hb, hc.binding]
      exact Nat.add_le_add_right (h.counted session) _
    have hli := limited_append h.limited hro ht (pathOf format event.binding event.request)
    simp only [System.after, Store.behind, length_append, length_singleton,
      Nat.add_eq_left, one_ne_zero, if_false] at hr ⊢
    refine {
      once := ?_
      budget := fun session => (hcnt session).trans (hli session)
      permitted := forall_mem_append.mpr ⟨h.permitted, ?_⟩
      backed := forall_mem_append.mpr ⟨fun run hu => mem_append_left _ (h.backed run hu), ?_⟩
      answered := hn _
      replies := by simpa using h.replies
      filed := h.filed.append ha ht
      counted := hcnt
      limited := hli
      replied := hr }
    · rw [map_append, map_singleton]
      refine nodup_append.mpr ⟨h.once, nodup_singleton _, fun key hk o ho => ?_⟩
      rw [mem_singleton.mp ho]
      rintro rfl
      exact hf hk
    · simpa [hb, hq] using hp
    · simp [hb, hq]

/-- The records of a request give it one identity. -/
theorem keyOf_eq {r : Record} {o : Binding} {c : BeadsMutationRequest}
    (h : r.For format binding request) (ho : r.For format o c) :
    keyOf o c = keyOf binding request := by
  unfold keyOf
  rw [← h.binding, ← ho.binding, ← h.requestId, ← ho.requestId]

/-- A reply agrees with all earlier ones. -/
theorem Sound.reply (h : Sound format approval sys) {stt : BeadsMutationStatus}
    (hre : Replies format binding request sys.store stt) :
    Sound format approval { sys with replies := sys.replies ++ [⟨binding, request, stt⟩] } := by
  obtain ⟨r, hl, hf, hd, hr⟩ := hre
  refine { h with
    answered := forall_mem_append.mpr ⟨h.answered, ?_⟩
    replies := pairwise_append.mpr ⟨h.replies, pairwise_singleton _ _, ?_⟩
    replied := forall_mem_append.mpr ⟨h.replied, ?_⟩ }
  · simp only [mem_singleton, forall_eq]
    obtain ⟨x, hi, hif⟩ := h.filed.known _ _ hl
    exact ⟨x, hi, keyOf_eq hf hif⟩
  · simp only [mem_singleton, forall_eq]
    intro e he hk
    obtain ⟨held, hh, hei, ho⟩ := h.replied e he
    obtain ⟨hs, hq⟩ := Prod.mk.inj hk
    unfold pathOf at hh hl
    dsimp only at hs hq
    rw [← hs, ← hq, hl] at hh
    obtain rfl := Stored.whole.inj (some.inj hh)
    refine ⟨hd.trans hei.symm, ho.imp_right fun ho => ?_⟩
    rcases hr with hr | ⟨hn, -⟩
    · exact Stored.whole.inj (some.inj (hr.symm.trans ho))
    · simp [hn] at ho
  · simp only [mem_singleton, forall_eq]
    exact ⟨r, hl, hd, hr.elim .inr fun hu => .inl hu.2⟩

/-- Each call keeps what the files say. -/
theorem Sound.step (h : Sound format approval sys) (event : Event) :
    Sound format approval (sys.step format approval event) := by
  have hc := accept_leaves format event.binding event.request (approval event.binding.sessionId)
    event.nowMs event.tracker event.ambient sys.store event.faults
  unfold System.step
  rcases he : accept format event.binding event.request (approval event.binding.sessionId)
    event.nowMs event.tracker event.ambient event.faults sys.store with ⟨ending, rest, store⟩
  rw [he] at hc
  cases ending with
  | value stt =>
    have hr := (h.leaves hc.1).reply hc.2.1
    simpa [System.after] using hr
  | error error => exact h.leaves hc.1
  | crashed => exact h.leaves hc.1

/-- A call under a name that has a file changes nothing, and has a reply only where the file
is the record of what it asks. -/
theorem step_of_stored (hl : sys.store.requests.lookup
      (pathOf format event.binding event.request) = some sto) :
    sys.step format approval event = sys ∨
      ∃ r, sto = .whole r ∧ r.For format event.binding event.request := by
  have hc := accept_leaves format event.binding event.request (approval event.binding.sessionId)
    event.nowMs event.tracker event.ambient sys.store event.faults
  have hs : sys.after event sys.store [] = sys := by simp [System.after]
  unfold System.step
  rcases he : accept format event.binding event.request (approval event.binding.sessionId)
    event.nowMs event.tracker event.ambient event.faults sys.store with ⟨ending, rest, store⟩
  rw [he] at hc
  cases ending with
  | value stt =>
    obtain ⟨-, ⟨r, hr, hf, -⟩, ht⟩ := hc
    rw [ht sto hl, hl] at hr
    exact .inr ⟨r, some.inj hr, hf⟩
  | error error =>
    rw [hc.2 sto hl]
    exact .inl hs
  | crashed =>
    rw [hc.2 sto hl]
    exact .inl hs

/-- A recorded name is that of one binding and one digest. -/
theorem Sound.refuses (h : Sound format approval sys) (event : Event) :
    Refuses format sys event (sys.step format approval event) := by
  intro x hi hk
  obtain ⟨sto, hl, ht⟩ := h.filed.stored x hi
  obtain ⟨hs, hr⟩ := Prod.mk.inj hk
  unfold pathOf at hl
  rw [← hs, ← hr] at hl
  rcases step_of_stored hl with ha | ⟨r, rfl, hf⟩
  · exact ⟨fun _ => ha, fun _ => .inl ha⟩
  · have hif := ht r rfl
    refine ⟨fun hn => absurd (hf.binding.symm.trans hif.binding) hn, fun hn => .inr ⟨hn, ?_⟩⟩
    have hd := Digest.toString_inj.mp (hf.digest.symm.trans hif.digest)
    exact Digest.fromRaw_inj.mp hd

/-- However calls of any Sessions are ordered, repeated and interrupted, the tracker runs at
most once for a request, within the approval of its Session, and replies never disagree. A
call under a recorded name with another binding or content does nothing. -/
theorem mutation_runs_once (format : Format) (approval : String → ApprovedBeadsMutations)
    (events : List Event) : Always (System.step format approval) (Once approval) .empty events ∧
      Throughout (System.step format approval)
        (fun s event => Refuses format s event (s.step format approval event)) .empty events := by
  have hs : Always (System.step format approval) (Sound format approval) .empty events :=
    always_of_throughout (fun _ event h _ => h.step event) sound_empty
      (throughout_of_forall (fun _ _ => trivial) _ events)
  exact ⟨hs.mono fun _ h => h.toOnce, hs.throughout fun _ event h => h.refuses event⟩

end Louiselm.Broker.BeadsMutations
