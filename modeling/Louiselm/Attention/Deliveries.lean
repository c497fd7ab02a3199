import Louiselm.Attention.Snapshots
import Louiselm.Attention.Wire

/-!
# Deliveries of the outbox

The broker's outbox (`skills-core/src/broker/attention.rs`, `attention_transport.rs`) and the
Attention store (`capture-service/src/attention.rs`) as one system: requests and replies can be
lost, late or repeated, and either end can stop at any of its writes.
-/

namespace Louiselm.Attention
open Base Canonical List
open Base.Program
open Broker.Authorization (WriteFault)

/-! ### Both ends -/

/-- Both ends, the requests that were sent and the replies to them, each of which may arrive at any
time and any number of times, and what the store was told by the requests that it applied. -/
structure Link where
  outbox : Broker.Outbox
  file : PersistedAttention
  requests : List Broker.Projection
  replies : List (Broker.Projection × ProjectionResult)
  applied : List BrokerProjection

def Link.opened : Link := ⟨.empty, .initial, [], [], []⟩

/-- One step of either end, and what befalls its writes. -/
inductive Transfer where
  | enqueue (mutationId : String) (change : Broker.ProjectionChange)
    (synced : Except Broker.BrokerError Unit) (fault : WriteFault)
  | send
  | deliver (entry : Broker.Projection) (look : Nat → Reading) (faults : List Fault)
  | acknowledge (entry : Broker.Projection) (result : ProjectionResult) (fault : WriteFault)
  | serve (event : Event)

section

variable (uuid : String → Option String) (sha256 : Sha256) (fmt : JsonFormat)
  (recordBytes : Broker.Projection → Nat)

/-- A reply is the one that ends the delivery of an entry. -/
def answersEntry (entry : Broker.Projection) (result : ProjectionResult) : Bool :=
  result.sequence == entry.sequence && result.digest == entry.digest sha256 fmt

/-- The store serves a request, and replies unless it fails or stops. -/
def Link.served (link : Link) (entry : Broker.Projection) (projection : BrokerProjection)
    (look : Nat → Reading) (faults : List Fault) : Link :=
  let action := project uuid sha256 (canonicalProjection fmt) look projection
  let file := action.leaves faults link.file
  { link with
    file
    replies := match (action faults link.file).1 with
      | .value result => (entry, result) :: link.replies
      | _ => link.replies
    applied := if file.brokerProjection = link.file.brokerProjection then link.applied
      else link.applied ++ [projection] }

/-- A step; a request that was not sent and a reply that was not given do not arrive. -/
def Link.step (link : Link) : Transfer → Link
  | .enqueue mutationId change synced fault =>
    { link with outbox := (link.outbox.enqueue recordBytes mutationId change synced fault).2 }
  | .send =>
    match link.outbox.pending sha256 fmt recordBytes with
    | .ok (some entry) => { link with requests := entry :: link.requests }
    | _ => link
  | .deliver entry look faults =>
    if entry ∈ link.requests then
      match BrokerProjection.fromText fmt (fmt.print entry.wire) with
      | none => link
      | some projection => link.served uuid sha256 fmt entry projection look faults
    else link
  | .acknowledge entry result fault =>
    if (entry, result) ∈ link.replies ∧ answersEntry sha256 fmt entry result = true then
      { link with outbox := (link.outbox.acknowledge sha256 fmt recordBytes entry.sequence
        (entry.digest sha256 fmt) fault).2 }
    else link
  | .serve event =>
    if event.operation.isProject then link
    else { link with file := Attention.step uuid sha256 (canonicalProjection fmt) link.file event }

/-- What the store applied are the first entries of the outbox, each once and in order; only what
it applied is acknowledged, and nothing is left to apply where nothing is pending. -/
def Link.InOrder (link : Link) : Prop :=
  ∃ entries, link.outbox.Holds entries ∧
    link.applied = (entries.take link.applied.length).map received ∧
    (∀ number ∈ link.outbox.acks, number ≤ link.applied.length) ∧
    (link.outbox.pending sha256 fmt recordBytes = .ok none → link.applied = entries.map received)

/-- A step applies one change to the conditions that were left when it was served, or none. -/
def AppliesOnce (link : Link) (transfer : Transfer) : Prop :=
  let next := link.step uuid sha256 fmt recordBytes transfer
  (∃ event, transfer = .serve event) ∧ next.applied = link.applied ∨
    next.applied = link.applied ∧ next.file.items.Sublist link.file.items ∨
    ∃ projection loaded, next.applied = link.applied ++ [projection] ∧
      loaded.Sublist link.file.items ∧ next.file.items = sortItems (apply loaded projection.change)

end

/-! ### The store -/

section

variable {uuid : String → Option String} {sha256 : Sha256} {canonical : BrokerProjection → Bytes}
  {look : Nat → Reading} {file loaded after : PersistedAttention} {α β : Type}
  {c : Option ProjectionCursor} {p : BrokerProjection}

/-- However an operation ends, the cursor is as it was. -/
def fixes (cursor : Option ProjectionCursor) : Post PersistedAttention AttentionError α :=
  .ends fun file => file.brokerProjection = cursor

theorem Reconciled.cursor (h : Reconciled uuid sha256 look file loaded) :
    loaded.brokerProjection = file.brokerProjection := by
  rcases h.rest with rfl | ⟨-, -, h⟩
  · rfl
  · rw [h]

theorem fixes_withLock {f : PersistedAttention → Action α} (h : file.brokerProjection = c)
    (hf : ∀ loaded, loaded.brokerProjection = c → Wp (f loaded) (fixes c) loaded) :
    Wp (withLock (load uuid sha256 look >>= f)) (fixes c) file := by
  refine wp_withLock ?_ h h
  apply wp_bind
  refine wp_load.mono ?_ ?_ ?_
  · rintro loaded _ ⟨rfl, hr⟩
    have hl := hf _ (hr.cursor.trans h)
    exact hl.mono (fun _ _ hs => ⟨hs, hs, hs⟩) (fun _ _ hs => hs) fun _ hs => hs
  · rintro - s (rfl | hr)
    · exact h
    · exact hr.cursor.trans h
  · rintro s rfl
    exact h

theorem fixes_commit {state : PersistedAttention} (hs : state.brokerProjection = c)
    (h : file.brokerProjection = c) : Wp (commit state) (fixes c) file := by
  unfold commit
  apply wp_bind
  refine wp_ofExcept (fun a ha => ?_) fun _ _ => h
  unfold advanceGeneration at ha
  split at ha
  · simp at ha
  obtain rfl := Except.ok.inj ha
  apply wp_bind
  exact wp_write (wp_pure.mpr hs) h hs h

theorem fixes_retain {keep : AttentionItem → Bool} (h : file.brokerProjection = c) :
    Wp (retain uuid sha256 look keep) (fixes c) file := by
  refine fixes_withLock h fun loaded hl => ?_
  split
  · exact fixes_commit hl hl
  · exact wp_pure.mpr hl

theorem fixes_map {q : Action α} {f : α → β} (h : Wp q (fixes c) file) :
    Wp (do let a ← q; return f a) (fixes c) file := by
  apply wp_bind
  exact h.mono (fun _ _ hs => wp_pure.mpr hs) (fun _ _ hs => hs) fun _ hs => hs

/-- A request that is no projection leaves the cursor. -/
theorem cursor_step {event : Event} (hp : event.operation.isProject = false) :
    (step uuid sha256 canonical file event).brokerProjection = file.brokerProjection := by
  obtain ⟨op, look, again, fs⟩ := event
  have hc {e : Except AttentionError Unit} {q : Action AttentionSnapshot}
      (hq : Wp q (fixes file.brokerProjection) file) :
      Wp (do ofExcept e; q) (fixes file.brokerProjection) file := by
    apply wp_bind
    exact wp_ofExcept (fun _ _ => hq) fun _ _ => rfl
  refine Wp.leaves (?_ : Wp _ (fixes file.brokerProjection) file) fs
  cases op with
  | snapshot => exact fixes_map (fixes_withLock rfl fun _ hl => wp_pure.mpr hl)
  | upsert d =>
    refine fixes_map (hc (fixes_withLock rfl fun loaded hl => ?_))
    apply wp_bind
    refine wp_ofExcept (fun r _ => ?_) fun _ _ => hl
    dsimp only
    split
    · exact wp_pure.mpr hl
    · split
      · exact wp_pure.mpr hl
      · exact fixes_commit hl hl
  | setEligible key e =>
    refine fixes_map (hc (fixes_withLock rfl fun loaded hl => ?_))
    split
    · exact wp_fail.mpr hl
    · split
      · exact wp_pure.mpr hl
      · exact fixes_commit hl hl
  | clear key => exact fixes_map (hc (fixes_retain rfl))
  | clearSessionKind id kind => exact fixes_map (hc (fixes_retain rfl))
  | clearSession id => exact fixes_map (hc (fixes_retain rfl))
  | project p => cases hp

variable (uuid sha256 canonical look p) in
/-- A projection is applied as the next one to what was loaded, or leaves the cursor. -/
inductive Serviced (file after : PersistedAttention) : Prop where
  | same (cursor : after.brokerProjection = file.brokerProjection)
    (items : after.items.Sublist file.items)
  | next (loaded : PersistedAttention) (reconciled : Reconciled uuid sha256 look file loaded)
    (next : p.sequence.toNat = (appliedSequence file).toNat + 1)
    (cursor : after.brokerProjection = some ⟨p.sequence, projectionDigest sha256 canonical p⟩)
    (items : after.items = sortItems (apply loaded.items p.change))

theorem Projects.serviced {r : ProjectionResult} (hl : Reconciled uuid sha256 look file loaded)
    (h : Projects sha256 canonical p r loaded after) :
    Serviced uuid sha256 canonical look p file after := by
  cases h with
  | stale => exact .same hl.cursor (unresolved_sublist hl.items)
  | applied hn =>
    rw [appliedSequence, hl.cursor] at hn
    exact .next loaded hl hn rfl rfl

/-- What a delivery leaves can be loaded. -/
theorem project_serviced (h : Loadable uuid file) (fs : List Fault) :
    let after := (project uuid sha256 canonical look p).leaves fs file
    Loadable uuid after ∧ Serviced uuid sha256 canonical look p file after := by
  have hv : ∀ {loaded after r}, Reconciled uuid sha256 look file loaded →
      validateProjection uuid p = .ok () → Projects sha256 canonical p r loaded after →
        Loadable uuid after ∧ Serviced uuid sha256 canonical look p file after := by
    intro loaded after r hl ha hp
    refine ⟨?_, hp.serviced hl⟩
    rcases hp.changed ha with rfl | hc
    · exact hl.loadable h
    · exact hc.loadable (hl.loadable h)
  have hl : ∀ {loaded}, Reconciled uuid sha256 look file loaded →
      Loadable uuid loaded ∧ Serviced uuid sha256 canonical look p file loaded :=
    fun hl => ⟨hl.loadable h, .same hl.cursor (unresolved_sublist hl.items)⟩
  refine Wp.leaves (Q := fun after => _ ∧ Serviced _ _ _ _ _ _ after)
    ((wp_project h).mono ?_ ?_ ?_) fs
  · rintro r after ⟨loaded, hr, ha, hp⟩
    exact hv hr ha hp
  · rintro _ after (rfl | ⟨loaded, hr, rfl | ⟨-, r, ha, hp⟩⟩)
    · exact ⟨h, .same rfl (.refl _)⟩
    · exact hl hr
    · exact hv hr ha hp
  · rintro after (rfl | ⟨loaded, hr, rfl | ⟨r, ha, hp⟩⟩)
    · exact ⟨h, .same rfl (.refl _)⟩
    · exact hl hr
    · exact hv hr ha hp

/-- What is replied to has been applied. -/
theorem le_of_project {r : ProjectionResult} {fs : List Fault} (h : Loadable uuid file)
    (hr : (project uuid sha256 canonical look p fs file).1 = .value r) :
    p.sequence ≤ appliedSequence ((project uuid sha256 canonical look p).leaves fs file) := by
  obtain ⟨loaded, -, -, hp⟩ := (wp_project h).value_of hr
  generalize (project uuid sha256 canonical look p).leaves fs file = after at hp
  cases hp with
  | stale hs hl =>
    rw [appliedSequence, hs]
    exact hl
  | applied => exact UInt64.le_refl _

end

/-! ### The outbox -/

section

variable {sha256 : Sha256} {fmt : JsonFormat} {recordBytes : Broker.Projection → Nat}
  {outbox after : Broker.Outbox} {es : List Broker.Projection} {e : Broker.Projection}

theorem holds_congr (h : outbox.Holds es) (ha : after.entries = outbox.entries) :
    after.Holds es := by
  obtain ⟨_, _⟩ := after
  subst ha
  exact ⟨h.stored, h.sequence, h.valid, h.rest⟩

variable (recordBytes outbox) in
theorem acks_enqueue (mid : String) (c : Broker.ProjectionChange)
    (s : Except Broker.BrokerError Unit) (f : WriteFault) :
    (outbox.enqueue recordBytes mid c s f).2.acks = outbox.acks := by
  unfold Broker.Outbox.enqueue
  split
  · rfl
  split
  · split <;> rfl
  · split <;> rfl

variable (sha256 fmt recordBytes outbox) in
/-- An acknowledgement leaves the entries, and acknowledges one at most. -/
theorem acknowledge_result (n : UInt64) (d : String) (f : WriteFault) :
    (outbox.acknowledge sha256 fmt recordBytes n d f).2.entries = outbox.entries ∧
      ∀ k ∈ (outbox.acknowledge sha256 fmt recordBytes n d f).2.acks,
        k ∈ outbox.acks ∨ k = n.toNat := by
  unfold Broker.Outbox.acknowledge
  split
  · exact ⟨rfl, fun _ => .inl⟩
  · refine ⟨rfl, fun k hk => ?_⟩
    dsimp only [Broker.createNumbered] at hk
    split at hk
    · exact .inl hk
    · cases f with
      | refused => exact .inl hk
      | _ => exact (AList.mem_insert _ |>.mp hk).symm

/-- The oldest entry that is pending is an entry. -/
theorem mem_of_firstPending {x : Broker.Projection}
    (h : outbox.firstPending sha256 fmt es = .ok (some x)) : x ∈ es := by
  induction es with
  | nil => simp [Broker.Outbox.firstPending] at h
  | cons e es ih =>
    unfold Broker.Outbox.firstPending at h
    split at h
    · rw [← Option.some.inj (Except.ok.inj h)]
      exact mem_cons_self
    · obtain ⟨_, _, h⟩ := bind_ok.mp h
      exact mem_cons_of_mem _ (ih (check_ok.mp h).2)

/-- Where nothing is pending each entry has its acknowledgement. -/
theorem acks_of_firstPending (h : outbox.firstPending sha256 fmt es = .ok none) :
    ∀ e ∈ es, e.sequence.toNat ∈ outbox.acks := by
  induction es with
  | nil => exact forall_mem_nil _
  | cons e es ih =>
    unfold Broker.Outbox.firstPending at h
    split at h
    · simp at h
    · next stored hs =>
      obtain ⟨_, _, h⟩ := bind_ok.mp h
      refine forall_mem_cons.mpr ⟨AList.lookup_isSome.mp ?_, ih (check_ok.mp h).2⟩
      rw [hs]
      rfl

theorem fromText_wire (e : Broker.Projection) :
    BrokerProjection.fromText fmt (fmt.print e.wire) = some (received e) := by
  rw [BrokerProjection.fromText, ← members_received, fmt.read_print _ (fits_projection _).normalize]
  exact ofJson_normalize_projection (received e)

end

/-! ### Runs -/

section

variable {uuid : String → Option String} {sha256 : Sha256} {fmt : JsonFormat}
  {recordBytes : Broker.Projection → Nat} {link : Link} {es : List Broker.Projection}

/-- The entries that the outbox holds, of which the first ones were applied. -/
structure Delivered (uuid : String → Option String) (link : Link)
    (entries : List Broker.Projection) : Prop where
  holds : link.outbox.Holds entries
  loadable : Loadable uuid link.file
  requests : ∀ entry ∈ link.requests, entry ∈ entries
  applied : link.applied = (entries.take link.applied.length).map received
  cursor : (appliedSequence link.file).toNat = link.applied.length
  replies : ∀ reply ∈ link.replies, reply.1.sequence.toNat ≤ link.applied.length
  acks : ∀ number ∈ link.outbox.acks, number ≤ link.applied.length

theorem Delivered.length_le (h : Delivered uuid link es) : link.applied.length ≤ es.length := by
  have hl := congrArg length h.applied
  rw [length_map, length_take] at hl
  omega

theorem Delivered.inOrder (h : Delivered uuid link es) :
    link.InOrder sha256 fmt recordBytes := by
  refine ⟨es, h.holds, h.applied, h.acks, fun hn => ?_⟩
  obtain ⟨l, hr, hf⟩ := bind_ok.mp hn
  obtain ⟨rfl, -⟩ := h.holds.readEntries hr
  have hl : l.length ≤ link.applied.length := by
    cases he : l.length with
    | zero => exact Nat.zero_le _
    | succ n =>
      have hi := getElem?_eq_getElem (l := l) (i := n) (by omega)
      have hm := acks_of_firstPending hf _ (mem_of_getElem? hi)
      rw [h.holds.sequence n _ hi] at hm
      exact h.acks _ hm
  have ha := h.applied
  rwa [take_of_length_le hl] at ha

/-- An entry that is the next to be applied is the next one. -/
theorem Delivered.next (h : Delivered uuid link es) {e : Broker.Projection} (he : e ∈ es)
    (hn : e.sequence.toNat = link.applied.length + 1) :
    es.take (link.applied.length + 1) = es.take link.applied.length ++ [e] := by
  obtain ⟨i, hi⟩ := mem_iff_getElem?.mp he
  have hs := h.holds.sequence i e hi
  obtain rfl : i = link.applied.length := by omega
  rw [take_add_one, hi]
  rfl

variable (look : Nat → Reading) (fs : List Fault)

variable (sha256 fmt) in
/-- What is replied to is among what was applied. -/
theorem replies_served (h : Loadable uuid link.file) {e : Broker.Projection}
    {reply : Broker.Projection × ProjectionResult}
    (hr : reply ∈ (link.served uuid sha256 fmt e (received e) look fs).replies) :
    reply ∈ link.replies ∨ reply.1.sequence ≤
      appliedSequence (link.served uuid sha256 fmt e (received e) look fs).file := by
  dsimp only [Link.served] at hr
  split at hr
  · next r hv =>
    rcases mem_cons.mp hr with rfl | hold
    · exact .inr (le_of_project (p := received e) h hv)
    · exact .inl hold
  · exact .inl hr

variable (sha256 fmt) in
theorem Delivered.served (h : Delivered uuid link es) {e : Broker.Projection}
    (he : e ∈ link.requests) : let next := link.served uuid sha256 fmt e (received e) look fs
    Delivered uuid next es ∧ (next.applied = link.applied ∧
        next.file.items.Sublist link.file.items ∨
      ∃ projection loaded, next.applied = link.applied ++ [projection] ∧
        loaded.Sublist link.file.items ∧
        next.file.items = sortItems (apply loaded projection.change)) := by
  intro next
  obtain ⟨hl, hs⟩ : Loadable uuid next.file ∧ Serviced uuid sha256 (canonicalProjection fmt) look
      (received e) link.file next.file := project_serviced h.loadable fs
  have hp : ∀ {n : Nat}, (appliedSequence next.file).toNat = n → link.applied.length ≤ n →
      ∀ reply ∈ next.replies, reply.1.sequence.toNat ≤ n := by
    intro n hn hle reply hr
    rcases replies_served sha256 fmt look fs h.loadable hr with hold | hw
    · exact (h.replies reply hold).trans hle
    · exact hn ▸ UInt64.le_iff_toNat_le.mp hw
  have ha : next.applied = if next.file.brokerProjection = link.file.brokerProjection then
      link.applied else link.applied ++ [received e] := rfl
  cases hs with
  | same hc hi =>
    rw [if_pos hc] at ha
    have hn : (appliedSequence next.file).toNat = link.applied.length := by
      rw [appliedSequence, hc]
      exact h.cursor
    refine ⟨⟨h.holds, hl, h.requests, ?_, ?_, ?_, ?_⟩, .inl ⟨ha, hi⟩⟩
    · rw [ha]
      exact h.applied
    · rw [ha]
      exact hn
    · rw [ha]
      exact hp hn (Nat.le_refl _)
    · rw [ha]
      exact h.acks
  | next loaded hr hx hc hi =>
    rw [h.cursor] at hx
    have hn : (appliedSequence next.file).toNat = link.applied.length + 1 := by
      rw [appliedSequence, hc]
      exact hx
    rw [if_neg fun hsame => ?_] at ha
    swap
    · rw [appliedSequence, hsame] at hn
      exact absurd (hn.symm.trans h.cursor) (Nat.succ_ne_self _)
    have hlen : next.applied.length = link.applied.length + 1 := by
      rw [ha, length_append, length_singleton]
    refine ⟨⟨h.holds, hl, h.requests, ?_, ?_, ?_, ?_⟩, .inr ⟨received e, loaded.items, ha, ?_, hi⟩⟩
    · rw [hlen, h.next (h.requests e he) hx, map_append, ← h.applied, ha]
      rfl
    · rw [hlen]
      exact hn
    · rw [hlen]
      exact hp hn (Nat.le_succ _)
    · rw [hlen]
      exact fun number hm => (h.acks number hm).trans (Nat.le_succ _)
    · exact unresolved_sublist hr.items

/-- What a step keeps. -/
theorem Delivered.step (h : Delivered uuid link es) (transfer : Transfer) :
    (∃ l, Delivered uuid (link.step uuid sha256 fmt recordBytes transfer) l) ∧
      AppliesOnce uuid sha256 fmt recordBytes link transfer := by
  unfold AppliesOnce
  cases transfer with
  | enqueue mid c s f =>
    refine ⟨?_, .inr (.inl ⟨rfl, .refl _⟩)⟩
    have hs := acks_enqueue recordBytes link.outbox mid c s f
    rcases h.holds.enqueue_result recordBytes mid c s f with ⟨hh, -⟩ | ⟨-, -, e, hh, -⟩
    · exact ⟨es, hh, h.loadable, h.requests, h.applied, h.cursor, h.replies, hs ▸ h.acks⟩
    · refine ⟨es ++ [e], hh, h.loadable, fun x hx => mem_append_left _ (h.requests x hx), ?_,
        h.cursor, h.replies, hs ▸ h.acks⟩
      refine h.applied.trans (congrArg (map received) ?_)
      exact (take_append_of_le_length h.length_le).symm
  | send =>
    dsimp only [Link.step]
    split
    · next e hp =>
      refine ⟨⟨es, h.holds, h.loadable, ?_, h.applied, h.cursor, h.replies, h.acks⟩,
        .inr (.inl ⟨rfl, .refl _⟩)⟩
      obtain ⟨l, hr, hf⟩ := bind_ok.mp hp
      obtain ⟨rfl, -⟩ := h.holds.readEntries hr
      exact forall_mem_cons.mpr ⟨mem_of_firstPending hf, h.requests⟩
    · exact ⟨⟨es, h⟩, .inr (.inl ⟨rfl, .refl _⟩)⟩
  | deliver e look fs =>
    dsimp only [Link.step]
    rw [fromText_wire]
    split
    · next he =>
      obtain ⟨hd, ha⟩ := h.served sha256 fmt look fs he
      exact ⟨⟨es, hd⟩, .inr ha⟩
    · exact ⟨⟨es, h⟩, .inr (.inl ⟨rfl, .refl _⟩)⟩
  | acknowledge e r f =>
    dsimp only [Link.step]
    split
    · next hr =>
      obtain ⟨hn, hs⟩ := acknowledge_result sha256 fmt recordBytes link.outbox
        e.sequence (e.digest sha256 fmt) f
      refine ⟨⟨es, holds_congr h.holds hn, h.loadable, h.requests, h.applied, h.cursor,
        h.replies, fun k hk => ?_⟩, .inr (.inl ⟨rfl, .refl _⟩)⟩
      rcases hs k hk with hold | rfl
      · exact h.acks k hold
      · exact h.replies _ hr.1
    · exact ⟨⟨es, h⟩, .inr (.inl ⟨rfl, .refl _⟩)⟩
  | serve event =>
    refine ⟨?_, .inl ⟨⟨event, rfl⟩, ?_⟩⟩
    · dsimp only [Link.step]
      split
      · exact ⟨es, h⟩
      · next hp =>
        have hc : (Attention.step uuid sha256 (canonicalProjection fmt) link.file
          event).brokerProjection = _ := cursor_step (Bool.eq_false_iff.mpr hp)
        refine ⟨es, h.holds, (step_succeeds sha256 _ h.loadable event).loadable h.loadable,
          h.requests, h.applied, ?_, h.replies, h.acks⟩
        rw [appliedSequence, hc]
        exact h.cursor
    · dsimp only [Link.step]
      split <;> rfl

theorem delivered_opened : Delivered uuid .opened [] where
  holds := Broker.Outbox.holds_empty
  loadable := loadable_initial
  requests := forall_mem_nil _
  applied := rfl
  cursor := rfl
  replies := forall_mem_nil _
  acks _ h := absurd h (AList.notMem_empty _)

variable (uuid sha256 fmt recordBytes) in
/-- Whatever is lost, late or repeated between the two ends, wherever either of them stops and
whatever else the store is asked: it applies the changes of the outbox in their order and each of
them once, what is acknowledged was applied, and once nothing is pending everything was. -/
theorem delivered_in_order (transfers : List Transfer) :
    Always (Link.step uuid sha256 fmt recordBytes) (Link.InOrder sha256 fmt recordBytes) .opened
        transfers ∧ Throughout (Link.step uuid sha256 fmt recordBytes)
      (AppliesOnce uuid sha256 fmt recordBytes) .opened transfers := by
  have hd : Always (Link.step uuid sha256 fmt recordBytes)
      (fun link => ∃ es, Delivered uuid link es) .opened transfers :=
    always_of_throughout (fun _ _ ⟨_, h⟩ _ => (h.step _).1) ⟨[], delivered_opened⟩
      (throughout_of_forall (C := fun _ _ => True) (fun _ _ => trivial) _ _)
  exact ⟨hd.mono fun _ ⟨_, h⟩ => h.inOrder, hd.throughout fun _ _ ⟨_, h⟩ => (h.step _).2⟩

end

end Louiselm.Attention
