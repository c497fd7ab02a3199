import Louiselm.Base.Runs
import Louiselm.Broker.Authorizations

/-!
# Authorizations across crashes and restarts

Whatever of an operation reaches the disk, an authorization is a pending record, a consumed
record, or neither, and whoever holds a slot is one record. A slot is assigned after every
record was read, so it is the lowest that none of them holds, and an expired record is one
that no later call consumes.
-/

namespace Louiselm.Broker.Authorization
open Base Canonical Launch List
open Launch.Protocol (LaunchAuthorization)
open AuthorizationStore Stored
open Except (ok.inj)

variable {A : Approvals} {rules : Rules A}

/-! ### Files -/

section

variable {α β : Type} {rs : Records α} {name : String} {record : α}

/-- A write leaves the directory as it was or with one more file, a record where it is
reported written. -/
theorem writeNewRecord_cases {fault : WriteFault} {r : Except BrokerError Unit} {after : Records α}
    (h : writeNewRecord rs name record fault = (r, after)) : (after = rs ∧ ∃ e, r = .error e) ∨
      rs.lookup name = none ∧ ∃ st, after = rs ++ [(name, st)] ∧
        (st = .torn ∧ (∃ e, r = .error e) ∨ st = .whole record) := by
  unfold writeNewRecord at h
  split at h
  · obtain ⟨rfl, rfl⟩ := h
    exact .inl ⟨rfl, _, rfl⟩
  · next ha =>
    have hn := Option.not_isSome_iff_eq_none.mp ha
    cases fault <;> obtain ⟨rfl, rfl⟩ := h
    · exact .inr ⟨hn, _, rfl, .inr rfl⟩
    · exact .inl ⟨rfl, _, rfl⟩
    · exact .inr ⟨hn, _, rfl, .inl ⟨rfl, _, rfl⟩⟩
    · exact .inr ⟨hn, _, rfl, .inr rfl⟩

/-- A scan reads every file, and what it leaves out it was told to skip. -/
theorem scan_ok {r : Stored α → Except BrokerError β} {skip : β → Except BrokerError Bool}
    {held : List β} (h : scan r skip rs = .ok held) :
    (∀ x ∈ rs, ∃ v, r x.2 = .ok v ∧ (v ∈ held ∨ skip v = .ok true)) ∧
    ∀ v ∈ held, ∃ x ∈ rs, r x.2 = .ok v ∧ skip v = .ok false := by
  induction rs generalizing held with
  | nil =>
    obtain rfl := ok.inj h
    simp
  | cons x rs ih =>
    simp only [scan, bind_ok] at h
    obtain ⟨v, he, sk, hs, xs, hr, h⟩ := h
    obtain rfl := ok.inj h
    obtain ⟨ha, hh⟩ := ih hr
    constructor
    · rintro o ho
      rcases mem_cons.mp ho with rfl | ho
      · refine ⟨v, he, ?_⟩
        cases sk with
        | true => exact .inr hs
        | false => exact .inl (by simp)
      · obtain ⟨f, hf, hc⟩ := ha o ho
        refine ⟨f, hf, hc.imp (fun hm => ?_) id⟩
        split
        · exact hm
        · exact mem_cons_of_mem _ hm
    · intro f hm
      cases sk with
      | true =>
        obtain ⟨x, hi, hr⟩ := hh f hm
        exact ⟨x, mem_cons_of_mem _ hi, hr⟩
      | false =>
        rcases mem_cons.mp hm with rfl | hm
        · exact ⟨x, mem_cons_self .., he, hs⟩
        · obtain ⟨x, hi, hr⟩ := hh f hm
          exact ⟨x, mem_cons_of_mem _ hi, hr⟩

theorem Stored.read_ok {si : α → Nat} {st : Stored α} {v : α}
    (h : st.read si = .ok v) : st = .whole v := by
  cases st with
  | torn => contradiction
  | whole record =>
    simp only [read] at h
    split at h
    · rw [ok.inj h]
    · contradiction

end

/-! ### Who holds a slot -/

def Stored.whole? {α : Type} : Stored α → Option α
  | .torn => none
  | .whole record => some record

/-- A pending record that has not expired. -/
def liveRecord (nowMs : UInt64) (item : String × Stored (PendingAuthorization A)) :
    Option (PendingAuthorization A) :=
  item.2.whole?.filter fun held => decide (nowMs < held.expiresAtMs)

/-- A consumed record whose Session is not disposed. -/
def heldRecord (disposed : List String) (item : String × Stored (ConsumedAuthorization A)) :
    Option (PendingAuthorization A) :=
  (item.2.whole?.map (·.authorization)).filter fun held => !disposed.contains held.authorizationId

/-- The records that hold a slot: unexpired and pending, or consumed and not terminal. -/
def AuthorizationStore.holders (store : AuthorizationStore A) (nowMs : UInt64)
    (disposed : List String) : List (PendingAuthorization A) :=
  store.pending.filterMap (liveRecord nowMs) ++ store.consumed.filterMap (heldRecord disposed)

/-- Whether a record holds a slot for one call, as its receipts show it. -/
def AuthorizationStore.Occupies (store : AuthorizationStore A) (nowMs : UInt64)
    (terminal : Terminal A) (held : PendingAuthorization A) : Prop :=
  (∃ name, (name, .whole held) ∈ store.pending ∧ nowMs < held.expiresAtMs) ∨
    ∃ name consumed, (name, .whole consumed) ∈ store.consumed ∧ consumed.authorization = held ∧
      terminal held ≠ .ok true

variable {store : AuthorizationStore A} {nowMs : UInt64} {terminal : Terminal A}

/-- A slot is occupied where some record read from the directories occupies it. -/
theorem mem_occupants {o : List OccupiedSessionIdentity}
    (h : store.occupants rules nowMs terminal = .ok o) (sl : UInt32) : (∃ oc ∈ o, oc.slot = sl) ↔
      ∃ held, store.Occupies nowMs terminal held ∧ held.identity.slot = sl := by
  simp only [occupants, bind_ok] at h
  obtain ⟨p, hp, c, hco, h⟩ := h
  obtain rfl := ok.inj h
  obtain ⟨hpa, hh⟩ := scan_ok hp
  obtain ⟨hca, hch⟩ := scan_ok hco
  have hr : ∀ {st : Stored (ConsumedAuthorization A)} {held : PendingAuthorization A},
      readConsumed rules st = .ok held →
      ∃ record, st = .whole record ∧ record.authorization = held := by
    intro st held ht
    unfold readConsumed at ht
    cases he : st.read rules.consumedBytes with
    | error error => simp [he, Except.map] at ht
    | ok record =>
      rw [he] at ht
      exact ⟨record, read_ok he, ok.inj ht⟩
  simp only [mem_map, mem_append, exists_exists_and_eq_and]
  constructor
  · rintro ⟨held, hm | hm, rfl⟩
    · obtain ⟨⟨name, st⟩, hi, ht, hs⟩ := hh held hm
      obtain rfl := read_ok ht
      refine ⟨held, .inl ⟨name, hi, ?_⟩, rfl⟩
      simpa using hs
    · obtain ⟨⟨name, st⟩, hi, ht, hs⟩ := hch held hm
      obtain ⟨record, rfl, he⟩ := hr ht
      exact ⟨held, .inr ⟨name, record, hi, he, by simp [hs]⟩, rfl⟩
  · rintro ⟨held, ⟨name, hi, hl⟩ | ⟨name, record, hi, he, hl⟩, rfl⟩
    · obtain ⟨f, hf, hc⟩ := hpa _ hi
      obtain rfl : held = f := whole.inj (read_ok hf)
      refine ⟨held, .inl (hc.resolve_right ?_), rfl⟩
      simpa using hl
    · obtain ⟨f, hf, hc⟩ := hca _ hi
      obtain ⟨x, ho, ha⟩ := hr hf
      obtain rfl := whole.inj ho
      rw [he] at ha
      obtain rfl := ha
      exact ⟨held, .inr (hc.resolve_right hl), rfl⟩

/-- The lowest slot that no record occupies. -/
def AuthorizationStore.Lowest (store : AuthorizationStore A) (nowMs : UInt64)
    (terminal : Terminal A) (slot : UInt32) : Prop :=
  (¬ ∃ held, store.Occupies nowMs terminal held ∧ held.identity.slot = slot) ∧
    ∀ lower < slot, ∃ held, store.Occupies nowMs terminal held ∧ held.identity.slot = lower

theorem assignIdentity_lowest {i : Identity}
    (h : store.assignIdentity rules nowMs terminal = .ok i) :
    store.Lowest nowMs terminal i.slot := by
  simp only [assignIdentity, bind_ok] at h
  obtain ⟨o, ho, h⟩ := h
  have ha : ∀ slot : UInt32, (o.any fun oc => oc.slot.toNat == slot.toNat) =
      true ↔ ∃ held, store.Occupies nowMs terminal held ∧ held.identity.slot = slot := by
    intro slot
    rw [← mem_occupants ho slot]
    simp [UInt32.toNat_inj]
  split at h
  · next slot hf =>
    simp only [IdentityPool.identity, check_ok] at h
    obtain ⟨_, h⟩ := h
    obtain rfl := ok.inj h
    obtain ⟨hfr, hr, hl⟩ := List.find?_range_eq_some.mp hf
    have hs : (UInt32.ofNat slot).toNat = slot :=
      UInt32.toNat_ofNat_of_lt' ((mem_range.mp hr).trans store.pool.slots.toNat_lt)
    refine ⟨fun hh => ?_, fun l ht => ?_⟩
    · rw [← ha, hs] at hh
      rw [hh] at hfr
      contradiction
    · rw [← ha]
      have hl' : l.toNat < slot := hs ▸ UInt32.lt_iff_toNat_lt.mp ht
      simpa using hl l.toNat hl'
  · contradiction

/-! ### What an operation leaves -/

variable {grant : GrantRequest A}

/-- A valid grant has not expired. -/
theorem GrantRequest.validate_live {u : Unit} (h : grant.validate rules nowMs = .ok u) :
    nowMs < grant.expiresAtMs := by
  simp only [GrantRequest.validate, bind_ok, require_ok] at h
  obtain ⟨_, _, _, _, _, he, _⟩ := h
  simp only [Bool.not_eq_true', Bool.or_eq_false_iff, decide_eq_false_iff_not] at he
  exact UInt64.not_le.mp he.1

variable {record : PendingAuthorization A}

/-- A record that is about to be written: its name is free, it has not expired, and its slot
is the lowest. -/
theorem prepare_ok (h : store.prepare rules grant nowMs terminal = .ok record) :
    record.authorizationId = grant.request.authorizationId ∧ nowMs < record.expiresAtMs ∧
      store.Lowest nowMs terminal record.identity.slot ∧
      store.pending.lookup grant.request.authorizationId = none ∧
      store.consumed.lookup grant.request.authorizationId = none := by
  simp only [prepare, bind_ok, require_ok] at h
  obtain ⟨_, hv, _, _, _, _, _, hf, identity, hi, _, _, h⟩ := h
  obtain rfl := ok.inj h
  simp only [Bool.not_eq_true', Bool.or_eq_false_iff, Option.isSome_eq_false_iff,
    Option.isNone_iff_eq_none] at hf
  exact ⟨rfl, GrantRequest.validate_live hv, assignIdentity_lowest hi, hf⟩

variable {after : AuthorizationStore A} {retained : Except BrokerError Unit} {fault : WriteFault}

/-- An authorization leaves the store as it was, or one file more, which is the record
where it is reported. -/
theorem authorizeInner_cases {r : Except BrokerError (PendingAuthorization A)}
    (h : store.authorizeInner rules grant nowMs terminal retained fault = (r, after)) :
    (after = store ∧ ∃ error, r = .error error) ∨ ∃ record st,
      store.prepare rules grant nowMs terminal = .ok record ∧ after = { store with pending :=
        store.pending ++ [(grant.request.authorizationId, st)] } ∧
      (st = .torn ∧ (∃ error, r = .error error) ∨ st = .whole record) ∧
      ∀ a, r = .ok a → a = record := by
  unfold authorizeInner at h
  cases hp : store.prepare rules grant nowMs terminal with
  | error error =>
    rw [hp] at h
    obtain ⟨rfl, rfl⟩ := h
    exact .inl ⟨rfl, _, rfl⟩
  | ok record =>
    rw [hp] at h
    cases retained with
    | error error =>
      obtain ⟨rfl, rfl⟩ := h
      exact .inl ⟨rfl, _, rfl⟩
    | ok _ =>
      dsimp only at h
      rcases hw : writeNewRecord store.pending grant.request.authorizationId record fault with
        ⟨w, pending⟩
      rw [hw] at h
      obtain ⟨rfl, rfl⟩ := h
      rcases writeNewRecord_cases hw with ⟨rfl, error, rfl⟩ | ⟨_, st, rfl, hs⟩
      · exact .inl ⟨rfl, error, rfl⟩
      · refine .inr ⟨record, st, rfl, rfl, ?_, ?_⟩
        · refine hs.imp (fun ⟨ht, error, he⟩ => ⟨ht, error, ?_⟩) id
          rw [he]
          rfl
        · intro a ha
          cases w with
          | error error => contradiction
          | ok _ => exact (ok.inj ha).symm

variable {request : LaunchRequest A} {controllerUid : UInt32}
  {decision : LaunchAuthorization → Except BrokerError LaunchAuthorization}

/-- A record that a request may spend: it is pending under its name but for the conformance
decided for it, and has not expired. -/
theorem checkConsume_ok {spent : PendingAuthorization A}
    (h : store.checkConsume rules request controllerUid nowMs decision = .ok spent) :
    ∃ pending conformance, store.pending.lookup request.authorizationId = some (.whole pending) ∧
      nowMs < pending.expiresAtMs ∧ spent = { pending with conformance } := by
  simp only [checkConsume, bind_ok] at h
  obtain ⟨_, _, _, _, found, hf, h⟩ := h
  cases found with
  | none => contradiction
  | some pending =>
    simp only [bind_ok, require_ok, decide_eq_true_eq] at h
    obtain ⟨_, _, _, _, _, hi, authorization, _, _, _, h⟩ := h
    obtain rfl := ok.inj h
    refine ⟨pending, _, ?_, hi, rfl⟩
    unfold readRecord at hf
    split at hf
    · simp at hf
    · next stored hl =>
      cases hr : stored.read rules.pendingBytes with
      | error error => simp [hr, Except.map] at hf
      | ok record =>
        rw [hr] at hf
        obtain rfl := Option.some.inj (ok.inj hf)
        rw [hl, read_ok hr]

variable {removal : RemovalFault}

/-- A consumption leaves the store as it was, or without the pending record it spends, with
or without a file for the consumed one; where it is reported, that is the record. -/
theorem consumeWith_cases {result : Except BrokerError LaunchAuthorization}
    (h : store.consumeWith rules request controllerUid nowMs decision removal fault =
      (result, after)) : (after = store ∧ ∃ error, result = .error error) ∨ ∃ spent consumed,
      store.checkConsume rules request controllerUid nowMs decision = .ok spent ∧
      after = { store.remove request.authorizationId with consumed } ∧
      ((consumed = store.consumed ∧ ∃ error, result = .error error) ∨
        ∃ stored, consumed = store.consumed ++ [(request.authorizationId, stored)] ∧
          (stored = .torn ∧ (∃ error, result = .error error) ∨
            stored = .whole ⟨spent, nowMs⟩)) := by
  unfold consumeWith at h
  cases hc : store.checkConsume rules request controllerUid nowMs decision with
  | error error =>
    rw [hc] at h
    obtain ⟨rfl, rfl⟩ := h
    exact .inl ⟨rfl, _, rfl⟩
  | ok spent =>
    rw [hc] at h
    cases removal with
    | refused =>
      obtain ⟨rfl, rfl⟩ := h
      exact .inl ⟨rfl, _, rfl⟩
    | unconfirmed =>
      obtain ⟨rfl, rfl⟩ := h
      exact .inr ⟨spent, store.consumed, rfl, rfl, .inl ⟨rfl, _, rfl⟩⟩
    | none =>
      dsimp only at h
      rcases hr : writeNewRecord store.consumed request.authorizationId ⟨spent, nowMs⟩ fault with
        ⟨written, consumed⟩
      rw [hr] at h
      have ha : after = { store.remove request.authorizationId with consumed } := by
        cases written <;> exact (Prod.mk.inj h).2.symm
      have he : ∀ error, written = .error error → ∃ error, result = .error error := by
        rintro error rfl
        exact ⟨error, (Prod.mk.inj h).1.symm⟩
      refine .inr ⟨spent, consumed, rfl, ha, ?_⟩
      rcases writeNewRecord_cases hr with ⟨rfl, error, hw⟩ | ⟨_, stored, rfl, hs⟩
      · exact .inl ⟨rfl, he error hw⟩
      · exact .inr ⟨stored, rfl, hs.imp (fun ⟨ht, error, hw⟩ => ⟨ht, he error hw⟩) id⟩

/-! ### Runs -/

/-- The store on disk, the authorizations whose Sessions are terminal, the time of the last
call, and the authorizations that a consumption was answered for. -/
structure System (A : Approvals) where
  store : AuthorizationStore A
  disposed : List String
  clock : UInt64
  spent : List String

/-- A call with what befalls it, the terminal disposal of a Session, or a restart of the
broker with its installed pool. -/
inductive Event (A : Approvals) where
  | authorize (grant : GrantRequest A) (nowMs : UInt64) (terminal : Terminal A)
      (retained : Except BrokerError Unit) (fault : WriteFault)
  | consume (request : LaunchRequest A) (controllerUid : UInt32) (nowMs : UInt64)
      (decision : LaunchAuthorization → Except BrokerError LaunchAuthorization)
      (removal : RemovalFault) (fault : WriteFault)
  | dispose (authorizationId : String)
  | restart (pool : IdentityPool)

namespace System

/-- The system after a consumption that was called for an authorization. -/
def called (s : System A) (authorizationId : String) (nowMs : UInt64)
    (result : Except BrokerError LaunchAuthorization × AuthorizationStore A) : System A :=
  { s with
    store := result.2
    clock := nowMs
    spent := if result.1.isOk then s.spent ++ [authorizationId] else s.spent }

def step (rules : Rules A) (s : System A) : Event A → System A
  | .authorize grant nowMs terminal retained fault =>
    { s with
      store := (s.store.authorizeInner rules grant nowMs terminal retained fault).2
      clock := nowMs }
  | .consume request controllerUid nowMs decision removal fault =>
    s.called request.authorizationId nowMs
      (s.store.consumeWith rules request controllerUid nowMs decision removal fault)
  | .dispose authorizationId => { s with disposed := authorizationId :: s.disposed }
  | .restart pool => { s with store := { s.store with pool } }

/-- The clock does not go back, and receipts prove no disposal that did not happen. -/
def Fair (s : System A) : Event A → Prop
  | .authorize _ nowMs terminal _ _ => s.clock ≤ nowMs ∧
      ∀ name consumed, (name, .whole consumed) ∈ s.store.consumed →
        terminal consumed.authorization = .ok true →
          consumed.authorization.authorizationId ∈ s.disposed
  | .consume _ _ nowMs _ _ _ => s.clock ≤ nowMs
  | .dispose _ => True
  | .restart _ => True

/-- Who holds a slot at the time of the last call. -/
def holders (s : System A) : List (PendingAuthorization A) := s.store.holders s.clock s.disposed

/-- An opened store without records. -/
def opened (pool : IdentityPool) (clock : UInt64) : System A := ⟨⟨pool, [], []⟩, [], clock, []⟩

end System

/-! ### Holders -/

section

variable {α β : Type} {recs : Records α}

theorem filterMap_sublist {f g : α → Option β} (h : ∀ x v, f x = some v →
    g x = some v) (xs : List α) : (xs.filterMap f).Sublist (xs.filterMap g) := by
  induction xs with
  | nil => exact List.Sublist.refl _
  | cons x xs ih =>
    rw [filterMap_cons, filterMap_cons]
    cases hf : f x with
    | none =>
      cases g x with
      | none => exact ih
      | some v => exact ih.cons v
    | some v =>
      rw [h x v hf]
      exact ih.cons_cons v

variable {name : String}

theorem mem_keys_of_lookup {st : Stored α} (h : recs.lookup name = some st) :
    name ∈ recs.map Prod.fst := by
  obtain ⟨x, xs, rfl, _⟩ := lookup_eq_some_iff.mp h
  simp

theorem not_mem_keys_of_lookup (h : recs.lookup name = none) : name ∉ recs.map Prod.fst := by
  rw [lookup_eq_none_iff] at h
  intro hm
  obtain ⟨x, hi, rfl⟩ := mem_map.mp hm
  simpa using h x hi

/-- Removing the file of a name removes the one that is read under it. -/
theorem eraseP_of_lookup {st : Stored α} (h : recs.lookup name = some st) : ∃ x xs,
      recs = x ++ (name, st) :: xs ∧ recs.eraseP (·.1 == name) = x ++ xs := by
  obtain ⟨x, xs, rfl, hf⟩ := lookup_eq_some_iff.mp h
  have ho : ∀ it ∈ x, ¬ (it.1 == name) = true := fun it hi heq =>
    absurd (beq_iff_eq.mp heq).symm (bne_iff_ne.mp (hf it hi))
  refine ⟨x, xs, rfl, ?_⟩
  rw [eraseP_append_right _ ho]
  simp

end

variable {held : PendingAuthorization A}

theorem liveRecord_eq_some {x : String × Stored (PendingAuthorization A)} :
    liveRecord nowMs x = some held ↔ x.2 = .whole held ∧ nowMs < held.expiresAtMs := by
  obtain ⟨name, st⟩ := x
  cases st with
  | torn => simp [liveRecord, whole?]
  | whole record =>
    simp only [liveRecord, whole?, Option.filter_eq_some_iff, Option.some.injEq,
      decide_eq_true_eq, whole.injEq]

variable {disposed : List String}

theorem heldRecord_eq_some {x : String × Stored (ConsumedAuthorization A)} :
    heldRecord disposed x = some held ↔ ∃ c, x.2 = .whole c ∧
      c.authorization = held ∧ held.authorizationId ∉ disposed := by
  obtain ⟨name, st⟩ := x
  cases st with
  | torn => simp [heldRecord, whole?]
  | whole record =>
    simp only [heldRecord, whole?, Option.map_some, Option.filter_eq_some_iff,
      Option.some.injEq, Bool.not_eq_true', contains_eq_mem, decide_eq_false_iff_not,
      whole.injEq, exists_eq_left']

/-- Time and disposals only release slots. -/
theorem AuthorizationStore.holders_mono {l : UInt64} {m : List String} (ht : nowMs ≤ l)
    (hm : disposed ⊆ m) : (store.holders l m).Sublist (store.holders nowMs disposed) := by
  refine (filterMap_sublist ?_ _).append (filterMap_sublist ?_ _)
  · intro x held hl
    rw [liveRecord_eq_some] at hl ⊢
    exact ⟨hl.1, UInt64.lt_of_le_of_lt ht hl.2⟩
  · intro x held hh
    rw [heldRecord_eq_some] at hh ⊢
    obtain ⟨c, hi, hs, hl⟩ := hh
    exact ⟨c, hi, hs, fun he => hl (hm he)⟩

/-- A record that holds a slot occupies it for any call whose receipts prove no disposal that
did not happen. -/
theorem AuthorizationStore.occupies_of_mem_holders
    (hf : ∀ name c, (name, .whole c) ∈ store.consumed → terminal c.authorization = .ok true →
    c.authorization.authorizationId ∈ disposed)
    (h : held ∈ store.holders nowMs disposed) : store.Occupies nowMs terminal held := by
  rcases mem_append.mp h with h | h
  · obtain ⟨⟨name, st⟩, hi, hl⟩ := mem_filterMap.mp h
    obtain ⟨rfl, hu⟩ := liveRecord_eq_some.mp hl
    exact .inl ⟨name, hi, hu⟩
  · obtain ⟨⟨name, st⟩, hi, hh⟩ := mem_filterMap.mp h
    obtain ⟨c, rfl, rfl, hl⟩ := heldRecord_eq_some.mp hh
    exact .inr ⟨name, c, hi, rfl, fun ht =>
      hl (hf name c hi ht)⟩

/-- The slots of the records that hold one. -/
def AuthorizationStore.slots (store : AuthorizationStore A) (nowMs : UInt64)
    (disposed : List String) : List UInt32 :=
  (store.holders nowMs disposed).map (·.identity.slot)

variable {name : String}

/-- One more pending file takes at most its own record's slot. -/
theorem AuthorizationStore.slots_authorize {st : Stored (PendingAuthorization A)}
    (h : (store.slots nowMs disposed).Nodup) (hs : st = .torn ∨ st = .whole record)
    (hf : record.identity.slot ∉ store.slots nowMs disposed) :
    (slots { store with pending := store.pending ++ [(name, st)] } nowMs disposed).Nodup := by
  have hp : (slots { store with pending := store.pending ++ [(name, st)] }
      nowMs disposed).Perm (([(name, st)].filterMap (liveRecord nowMs)).map (·.identity.slot) ++
        store.slots nowMs disposed) := by
    simp only [slots, holders, filterMap_append, map_append]
    rw [← append_assoc]
    exact (perm_append_comm).append_right _
  rw [hp.nodup_iff]
  cases hl : liveRecord nowMs (name, st) with
  | none => simpa [hl] using h
  | some held =>
    obtain ⟨hw, _⟩ := liveRecord_eq_some.mp hl
    rcases hs with rfl | rfl
    · contradiction
    · obtain rfl := whole.inj hw
      simpa [hl] using ⟨hf, h⟩

/-- A consumption moves its record's slot from the pending to the consumed records, or
releases it. -/
theorem AuthorizationStore.slots_consume {m : Records (ConsumedAuthorization A)}
    (h : (store.slots nowMs disposed).Nodup) (hl : store.pending.lookup name = some (.whole held))
    (hli : nowMs < held.expiresAtMs)
    (hm : m = [] ∨ m = [(name, .torn)] ∨ ∃ consumed, m = [(name, .whole consumed)] ∧
      consumed.authorization.identity = held.identity) :
    (slots { store.remove name with consumed := store.consumed ++ m } nowMs disposed).Nodup := by
  obtain ⟨x, xs, hpe, he⟩ := eraseP_of_lookup hl
  have hr : store.remove name = { store with pending := x ++ xs } := by
    rw [remove, he]
  rw [hr]
  have hh : liveRecord nowMs (name, .whole held) = some held :=
    liveRecord_eq_some.mpr ⟨rfl, hli⟩
  have hp : (store.slots nowMs disposed).Perm (held.identity.slot ::
      slots { store with pending := x ++ xs } nowMs disposed) := by
    simp only [slots, holders, hpe, filterMap_append, filterMap_cons, hh,
      map_append, map_cons, append_assoc, cons_append]
    exact perm_middle
  rw [hp.nodup_iff, nodup_cons] at h
  have hs : slots
      { store with pending := x ++ xs, consumed := store.consumed ++ m } nowMs disposed =
        slots { store with pending := x ++ xs } nowMs disposed ++
          (m.filterMap (heldRecord disposed)).map (·.identity.slot) := by
    simp only [slots, holders, filterMap_append, map_append, append_assoc]
  rw [hs]
  rcases hm with rfl | rfl | ⟨consumed, rfl, hi⟩
  · simpa using h.2
  · simpa [heldRecord, whole?] using h.2
  · cases hc : heldRecord disposed (name, .whole consumed) with
    | none => simpa [hc] using h.2
    | some record =>
      obtain ⟨o, ho, rfl, _⟩ := heldRecord_eq_some.mp hc
      obtain rfl := whole.inj ho
      simp only [filterMap_cons, hc, filterMap_nil, map_cons, map_nil, hi]
      rw [(perm_append_singleton _ _).nodup_iff, nodup_cons]
      exact h

/-! ### What every state keeps -/

/-- Records lie under their own names, an authorization has one record, no slot two holders,
and every answered consumption has its file. -/
structure Consistent (s : System A) : Prop where
  pendingKeyed : ∀ name held, (name, .whole held) ∈ s.store.pending → held.authorizationId = name
  pendingOnce : (s.store.pending.map Prod.fst).Nodup
  apart : ∀ name ∈ s.store.pending.map Prod.fst, name ∉ s.store.consumed.map Prod.fst
  exclusive : (s.store.slots s.clock s.disposed).Nodup
  recorded : ∀ name ∈ s.spent, name ∈ s.store.consumed.map Prod.fst
  once : s.spent.Nodup

theorem Consistent.opened (p : IdentityPool) (c : UInt64) :
    Consistent (.opened p c : System A) where
  pendingKeyed := by simp [System.opened]
  pendingOnce := nodup_nil
  apart := by simp [System.opened]
  exclusive := nodup_nil
  recorded := by simp [System.opened]
  once := nodup_nil

variable {s : System A}

/-- Time and disposals keep a state consistent. -/
theorem Consistent.later (h : Consistent s) {clock : UInt64} (ht : s.clock ≤ clock)
    (hm : s.disposed ⊆ disposed) : Consistent { s with clock, disposed } where
  pendingKeyed := h.pendingKeyed
  pendingOnce := h.pendingOnce
  apart := h.apart
  exclusive := h.exclusive.sublist ((holders_mono ht hm).map _)
  recorded := h.recorded
  once := h.once

/-- An authorization keeps a state consistent. -/
theorem Consistent.authorize (h : Consistent s)
    (hf : s.Fair (.authorize grant nowMs terminal retained fault)) :
    Consistent (s.step rules (.authorize grant nowMs terminal retained fault)) := by
  obtain ⟨ht, he⟩ := hf
  have hl := h.later ht (List.Subset.refl s.disposed)
  rcases ha : s.store.authorizeInner rules grant nowMs terminal retained fault with
    ⟨result, after⟩
  simp only [System.step, ha]
  rcases authorizeInner_cases ha with ⟨rfl, _⟩ | ⟨record, stored, hp, rfl, hst, _⟩
  · exact hl
  · obtain ⟨hn, hi, ho, hpe, hc⟩ := prepare_ok hp
    have hs' : stored = .torn ∨ stored = .whole record := hst.imp And.left id
    exact {
      pendingKeyed := by
        intro name held hm
        rcases mem_append.mp hm with hm | hm
        · exact h.pendingKeyed name held hm
        · obtain ⟨rfl, rfl⟩ := Prod.mk.inj (mem_singleton.mp hm)
          rcases hs' with hto | hw
          · contradiction
          · rw [whole.inj hw, hn]
      pendingOnce := by
        simp only [map_append, map_cons, map_nil]
        rw [(perm_append_singleton _ _).nodup_iff, nodup_cons]
        exact ⟨not_mem_keys_of_lookup hpe, h.pendingOnce⟩
      apart := by
        intro name hn
        simp only [map_append, map_cons, map_nil, mem_append, mem_singleton] at hn
        rcases hn with hn | rfl
        · exact h.apart name hn
        · exact not_mem_keys_of_lookup hc
      exclusive := by
        refine slots_authorize hl.exclusive hs' fun hm => ?_
        obtain ⟨held, hh, hs⟩ := mem_map.mp hm
        exact ho.1 ⟨held, occupies_of_mem_holders he hh, hs⟩
      recorded := h.recorded
      once := h.once }

/-- A consumption keeps a state consistent. -/
theorem Consistent.consume (h : Consistent s) (ht : s.clock ≤ nowMs) :
    Consistent (s.step rules (.consume request controllerUid nowMs decision removal fault)) := by
  have ha := h.later ht (List.Subset.refl s.disposed)
  rcases hc : s.store.consumeWith rules request controllerUid nowMs decision removal fault with
    ⟨result, after⟩
  simp only [System.step, hc]
  rcases consumeWith_cases hc with ⟨rfl, error, rfl⟩ | ⟨spent, consumed, hh, rfl, hr⟩
  · exact ha
  · obtain ⟨held, conformance, hl, hli, hs⟩ := checkConsume_ok hh
    have hi : spent.identity = held.identity := congrArg (·.identity) hs
    have hsa : spent.authorizationId = held.authorizationId := congrArg (·.authorizationId) hs
    obtain ⟨first, rest, hp, he⟩ := eraseP_of_lookup hl
    have hu : (first ++ rest).Sublist s.store.pending := by
      rw [hp]
      exact (sublist_cons_self _ _).append_left first
    have hn : request.authorizationId ∉ (first ++ rest).map Prod.fst := by
      have ho := h.pendingOnce
      rw [hp, map_append, map_cons, perm_middle.nodup_iff, nodup_cons, ← map_append] at ho
      exact ho.1
    have hf : request.authorizationId ∉ s.store.consumed.map Prod.fst :=
      h.apart _ (mem_keys_of_lookup hl)
    obtain ⟨more, rfl, hm, hk⟩ : ∃ more, consumed = s.store.consumed ++ more ∧
        (more = [] ∧ (∃ error, result = .error error) ∨
          more = [(request.authorizationId, .torn)] ∧ (∃ error, result = .error error) ∨
          more = [(request.authorizationId, .whole ⟨spent, nowMs⟩)]) ∧
        ∀ name ∈ more.map Prod.fst, name = request.authorizationId := by
      rcases hr with ⟨rfl, herr⟩ | ⟨stored, rfl, ⟨rfl, herr⟩ | rfl⟩
      · exact ⟨[], by simp, .inl ⟨rfl, herr⟩, by simp⟩
      · exact ⟨_, rfl, .inr (.inl ⟨rfl, herr⟩), by simp⟩
      · exact ⟨_, rfl, .inr (.inr rfl), by simp⟩
    have hst : Consistent { s with
        store := { s.store.remove request.authorizationId with consumed :=
            s.store.consumed ++ more }
        clock := nowMs } := {
      pendingKeyed := by
        intro name held hmem
        simp only [remove, he] at hmem
        exact h.pendingKeyed name held (hu.subset hmem)
      pendingOnce := by
        simp only [remove, he]
        exact h.pendingOnce.sublist (hu.map _)
      apart := by
        intro name hmem
        simp only [remove, he] at hmem
        rw [map_append, mem_append, not_or]
        refine ⟨h.apart name ((hu.map _).subset hmem), fun hot => ?_⟩
        rw [hk name hot] at hmem
        exact hn hmem
      exclusive := by
        refine slots_consume ha.exclusive hl hli ?_
        rcases hm with ⟨rfl, _⟩ | ⟨rfl, _⟩ | rfl
        · exact .inl rfl
        · exact .inr (.inl rfl)
        · exact .inr (.inr ⟨_, rfl, hi⟩)
      recorded := by
        intro name hs
        rw [map_append]
        exact mem_append_left _ (h.recorded name hs)
      once := h.once }
    cases result with
    | error error => exact hst
    | ok authorization =>
      have hw : more = [(request.authorizationId, .whole ⟨spent, nowMs⟩)] := by
        simpa using hm
      exact { hst with
        recorded := by
          intro name hs
          rcases mem_append.mp hs with hs | hs
          · exact hst.recorded name hs
          · rw [mem_singleton.mp hs]
            simp [System.called, hw]
        once := by
          change (s.spent ++ [request.authorizationId]).Nodup
          rw [(perm_append_singleton _ _).nodup_iff, nodup_cons]
          exact ⟨fun hs => hf (h.recorded _ hs), h.once⟩ }

/-- Every fair step keeps a state consistent. -/
theorem Consistent.step (h : Consistent s) {e : Event A} (hf : s.Fair e) :
    Consistent (s.step rules e) := by
  cases e with
  | authorize => exact h.authorize hf
  | consume => exact h.consume hf
  | dispose ai =>
    exact h.later (UInt64.le_refl _) (subset_cons_self _ _)
  | restart p => exact { h with }

/-! ### Expired records -/

/-- A pending record stays where it is once it has expired, and no later call spends it. -/
theorem expired_kept {event : Event A} (hf : s.Fair event)
    (hm : (name, .whole held) ∈ s.store.pending) (he : held.expiresAtMs ≤ s.clock) :
    (name, .whole held) ∈ (s.step rules event).store.pending ∧
      held.expiresAtMs ≤ (s.step rules event).clock := by
  cases event with
  | authorize grant nowMs terminal retained fault =>
    rcases hc : s.store.authorizeInner rules grant nowMs terminal retained fault with
      ⟨result, after⟩
    simp only [System.step, hc]
    refine ⟨?_, UInt64.le_trans he hf.1⟩
    rcases authorizeInner_cases hc with ⟨rfl, _⟩ | ⟨record, stored, _, rfl, _⟩
    · exact hm
    · exact mem_append_left _ hm
  | consume request controllerUid nowMs decision removal fault =>
    rcases hc : s.store.consumeWith rules request controllerUid nowMs decision removal fault with
      ⟨result, after⟩
    have hl : held.expiresAtMs ≤ nowMs := UInt64.le_trans he hf
    have ha : (name, .whole held) ∈ after.pending := by
      rcases consumeWith_cases hc with ⟨rfl, _⟩ | ⟨spent, consumed, hh, rfl, _⟩
      · exact hm
      · obtain ⟨other, _, ho, hi, _⟩ := checkConsume_ok hh
        obtain ⟨first, rest, hp, hr⟩ := eraseP_of_lookup ho
        simp only [remove, hr]
        rw [hp, mem_append, mem_cons] at hm
        rcases hm with hm | heq | hm
        · exact mem_append_left _ hm
        · obtain ⟨_, hw⟩ := Prod.mk.inj heq
          obtain rfl := whole.inj hw
          exact absurd hl (UInt64.not_le.mpr hi)
        · exact mem_append_right _ hm
    simp only [System.step, hc]
    exact ⟨ha, hl⟩
  | dispose authorizationId => exact ⟨hm, he⟩
  | restart pool => exact ⟨hm, he⟩

/-- A pending record is one that no consumption was answered for. -/
theorem Consistent.not_spent (h : Consistent s) (hm : (name, .whole held) ∈ s.store.pending) :
    held.authorizationId ∉ s.spent := by
  intro hs
  rw [h.pendingKeyed name held hm] at hs
  exact h.apart name (mem_map.mpr ⟨_, hm, rfl⟩) (h.recorded name hs)

/-- No run spends a record that has expired. -/
theorem expired_not_spent (h : Consistent s) {es : List (Event A)}
    (hf : Throughout (System.step rules) System.Fair s es)
    (hm : (name, .whole held) ∈ s.store.pending) (he : held.expiresAtMs ≤ s.clock) :
    held.authorizationId ∉ (es.foldl (System.step rules) s).spent := by
  induction es generalizing s with
  | nil => exact h.not_spent hm
  | cons e es ih =>
    obtain ⟨hk, hs⟩ := expired_kept hf.1 hm he
    exact ih (h.step hf.1) hf.2 hk hs

/-- Whatever record an authorization writes has the lowest slot that was free. -/
def AssignsLowest (rules : Rules A) (s : System A) : Event A → Prop
  | .authorize grant nowMs terminal retained fault => ∀ name held, (name, .whole held) ∈
        (s.step rules (.authorize grant nowMs terminal retained fault)).store.pending →
      (name, .whole held) ∉ s.store.pending → s.store.Lowest nowMs terminal held.identity.slot
  | _ => True

theorem step_assignsLowest (s : System A) (e : Event A) : AssignsLowest rules s e := by
  cases e with
  | authorize grant nowMs terminal retained fault =>
    intro name held hm hn
    rcases hc : s.store.authorizeInner rules grant nowMs terminal retained fault with
      ⟨r, after⟩
    simp only [System.step, hc] at hm
    rcases authorizeInner_cases hc with ⟨rfl, _⟩ | ⟨record, st, hp, rfl, hs, _⟩
    · exact absurd hm hn
    · rcases mem_append.mp hm with hm | hm
      · exact absurd hm hn
      · obtain ⟨_, rfl⟩ := Prod.mk.inj (mem_singleton.mp hm)
        rcases hs with ⟨ht, _⟩ | hw
        · contradiction
        · rw [whole.inj hw]
          exact (prepare_ok hp).2.2.1
  | _ => trivial

/-- Across crashes and restarts under a clock that does not go back, an authorization is
consumed at most once, no two records hold one slot, every record is written with the lowest
free slot, and a pending record that has expired is never consumed. -/
theorem authorizations_exclusive (rules : Rules A) (pool : IdentityPool) (clock : UInt64)
    (events : List (Event A))
    (hfair : Throughout (System.step rules) System.Fair (.opened pool clock) events) :
    Always (System.step rules) (fun s => s.spent.Nodup ∧ (s.holders.map (·.identity.slot)).Nodup)
        (.opened pool clock) events ∧ Throughout (System.step rules) (AssignsLowest rules)
      (.opened pool clock) events ∧ ∀ before after, events = before ++ after → ∀ name held,
        (name, .whole held) ∈ (before.foldl (System.step rules)
            (.opened pool clock)).store.pending →
        held.expiresAtMs ≤ (before.foldl (System.step rules) (.opened pool clock)).clock →
        held.authorizationId ∉ (events.foldl (System.step rules) (.opened pool clock)).spent := by
  have hc : Always (System.step rules) Consistent (.opened pool clock) events :=
    always_of_throughout (fun s e h hfair => h.step hfair) (.opened pool clock) hfair
  refine ⟨hc.mono fun s h => ⟨h.once, h.exclusive⟩, throughout_of_forall step_assignsLowest _ _, ?_⟩
  rintro before after rfl name held hm he
  have hs := always_append.mp hc
  rw [foldl_append]
  exact expired_not_spent hs.2.first (throughout_append.mp hfair).2 hm he

/-- Approvals that carry nothing. -/
def noApprovals : Approvals := ⟨Unit, Unit, Unit, Unit, Unit⟩

/-- Rules that approve nothing more than a request itself. -/
def plainRules : Rules noApprovals where
  sha256 := fun _ => Vector.replicate 32 0
  canonicalBytes := fun _ => []
  skills := fun _ => true
  dependencies := fun _ _ => .ok ()
  inputManifestDigest := fun _ => ""
  skillRequests := fun _ _ => true
  beadsMutations := fun _ _ => true
  providerRequests := fun _ _ => true
  providerExpiresAtMs := fun _ => 0
  pendingBytes := fun _ => 0
  consumedBytes := fun _ => 0

def plainGrant : GrantRequest noApprovals where
  role := .agent
  dependencies := none
  conformance := ⟨.interactive, none⟩
  requireColdRecovery := false
  request := ⟨requestSchema, 1, "q", "a", "s", "r", "g", "e", 1, (),
    (Digest.fromRaw (Vector.replicate 32 0)).toString⟩
  controllerUid := 1000
  expiresAtMs := 10
  brokerLossGraceMs := 500
  commands := none
  skillRequests := none
  beadsMutations := none
  providerRequests := none

theorem authorizations_exclusive_plain :
    let events : List (Event noApprovals) :=
      [.authorize plainGrant 5 (fun _ => .ok false) (.ok ()) .none, .restart ⟨2000, 2000, 4⟩,
        .consume plainGrant.request 1000 6 .ok .none .none]
    let start : System noApprovals := .opened ⟨2000, 2000, 4⟩ 1
    Always (System.step plainRules)
        (fun s => s.spent.Nodup ∧ (s.holders.map (·.identity.slot)).Nodup) start events ∧
      Throughout (System.step plainRules) (AssignsLowest plainRules) start events ∧
      ∀ pre after, events = pre ++ after → ∀ name held,
        (name, .whole held) ∈ (pre.foldl (System.step plainRules) start).store.pending →
        held.expiresAtMs ≤ (pre.foldl (System.step plainRules) start).clock →
        held.authorizationId ∉ (events.foldl (System.step plainRules) start).spent := by
  refine authorizations_exclusive plainRules _ _ _ ⟨⟨by decide, ?_⟩, trivial, ?_, trivial⟩
  · simp [System.opened]
  · exact (by decide : (5 : UInt64) ≤ 6)

end Louiselm.Broker.Authorization
