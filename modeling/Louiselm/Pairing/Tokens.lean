import Louiselm.Base.Runs
import Louiselm.Pairing.Registry

/-!
# Pairing tokens over whole runs

What `issue`, `consume`, `revoke` and `authenticate_device` of `capture-service/src/pairing.rs`
answer, from what was answered before.
-/

namespace Louiselm.Pairing
open Base Canonical List
open Base.Program PendingOffer PairingError

/-! ### Operations that nothing interrupts -/

/-- The registry file passes the checks of every read. -/
def Loadable (state : RegistryState) : Prop :=
  state.schemaVersion = 3 ∧ validateState state = .ok ()

theorem returns_load {w : World} (h : Loadable w.file) : Returns load w w.file w := by
  unfold load
  refine returns_bind (returns_query _ _ rfl) ?_
  have hv : require (w.file.schemaVersion == 3)
      (rejected "pairing registry version is unsupported") = .ok () := by
    simp [require, h.1]
  refine returns_bind (returns_ofExcept hv _) ?_
  exact returns_bind (returns_ofExcept h.2 _) (returns_pure _ _)

/-- An operation that decides answers with its decision and saves it. -/
theorem withState_decided {α : Type} {s : Bool} {world : World} (h : Loadable world.file)
    (d : RegistryState → Except PairingError (α × RegistryState)) :
    withState s (decided d) [] world =
      match d world.file with
      | .ok (result, state) => (.value result, [],
            if s then { world with file := state } else world)
      | .error error => (.error error, [], world) := by
  cases hd : d world.file with
  | ok dec =>
    obtain ⟨result, state⟩ := dec
    unfold withState
    refine returns_bind (returns_probe _ _) ?_
    refine returns_bind (returns_load h) ?_
    refine returns_bind (returns_ofExcept hd _) ?_
    cases s with
    | true =>
      refine returns_bind (returns_write _ _ _) ?_
      exact returns_bind (returns_probe _ _) (returns_pure _ _)
    | false => exact returns_bind (returns_probe _ _) (returns_pure _ _)
  | error error =>
    unfold withState
    rw [(returns_probe io world).bind_eq, (returns_load h).bind_eq]
    change Program.bind (decided d world.file) _ [] world = _
    rw [Program.bind, decided, hd]
    rfl

/-! ### Requests and what was answered -/

/-- One request, with what it draws. -/
inductive Request where
  | issue (receiverUrl identity : String) (nowMs ttlMs : UInt64) (token : String)
  | consume (token deviceName : String) (nowMs : UInt64) (deviceId credential : String)
  | revoke (deviceId : String)
deriving DecidableEq, Repr

/-- What a request that was not refused was answered. -/
inductive Answer where
  | issued (offer : PairingOffer)
  | paired (token : String) (device : DeviceCredential)
  | revoked (deviceId : String)
deriving DecidableEq, Repr

/-- The registry, the latest time of a request, and all answers so far. -/
structure History where
  world : World
  clock : UInt64
  answers : List Answer
deriving DecidableEq, Repr

/-- A new registry. -/
def History.start : History := ⟨⟨.initial, []⟩, 0, []⟩

/-- The answer in how a request ended. -/
def answerOf {α : Type} (answer : α → Answer) : Ending PairingError α → List Answer
  | .value a => [answer a]
  | _ => []

/-- The history after a request that ended. -/
def History.after {α : Type} (history : History) (clock : UInt64) (answer : α → Answer)
    (result : Ending PairingError α × List Fault × World) : History :=
  ⟨result.2.2, clock, history.answers ++ answerOf answer result.1⟩

section

variable (parseUrl : String → Option ReceiverUrl) (sha256 : Sha256)

/-- A request that nothing interrupts. -/
def advance (history : History) : Request → History
  | .issue receiverUrl identity nowMs ttlMs token =>
    history.after nowMs .issued
      (issue parseUrl sha256 receiverUrl identity nowMs ttlMs token [] history.world)
  | .consume token deviceName nowMs deviceId credential =>
    history.after nowMs (.paired token)
      (consume sha256 token deviceName nowMs deviceId credential [] history.world)
  | .revoke deviceId =>
    history.after history.clock (fun _ => .revoked deviceId) (revoke deviceId [] history.world)

/-- The clock does not go back, the presented secrets are among `secrets`, and what is drawn
was not drawn before. -/
def Regular (secrets : Set String) (history : History) : Request → Prop
  | .issue _ _ nowMs _ token => history.clock ≤ nowMs ∧ token ∈ secrets ∧
    ∀ offer, .issued offer ∈ history.answers → offer.token ≠ token
  | .consume token _ nowMs deviceId credential => history.clock ≤ nowMs ∧ token ∈ secrets ∧
    credential ∈ secrets ∧ ∀ token' device, .paired token' device ∈ history.answers →
      device.credential ≠ credential ∧ device.deviceId ≠ deviceId
  | .revoke _ => True

/-- No offer is issued at the very instant in which a pending one expires. -/
def OffBoundary (history : History) : Request → Prop
  | .issue _ _ nowMs _ _ => ∀ offer ∈ history.world.file.pending, offer.expiresAtMs ≠ nowMs
  | _ => True

/-- An offer was issued and its token was not consumed. -/
def Open (history : History) (offer : PairingOffer) : Prop :=
  .issued offer ∈ history.answers ∧ ∀ device, .paired offer.token device ∉ history.answers

/-- A device was paired and not revoked. -/
def Paired (history : History) (device : DeviceCredential) : Prop :=
  (∃ token, .paired token device ∈ history.answers) ∧ .revoked device.deviceId ∉ history.answers

/-- An offer as the registry keeps it. -/
def PairingOffer.toPending (offer : PairingOffer) : PendingOffer :=
  ⟨hash sha256 offer.token, offer.expiresAtMs⟩

/-- A device record is one of a paired device. -/
def DeviceRecord.IsOf (record : DeviceRecord) (device : DeviceCredential) : Prop :=
  record.status.deviceId = device.deviceId ∧ record.credentialSha256 = hash sha256 device.credential

/-- The registry agrees with what was answered. -/
structure Agrees (secrets : Set String) (history : History) : Prop where
  version : history.world.file.schemaVersion = 3
  unregistered : ∀ record ∈ history.world.file.devices, record.notification = none
  secretTokens : ∀ offer, .issued offer ∈ history.answers → offer.token ∈ secrets
  secretCredentials : ∀ token device, .paired token device ∈ history.answers →
    device.credential ∈ secrets
  oneOffer : ∀ offer other, .issued offer ∈ history.answers → .issued other ∈ history.answers →
    offer.token = other.token → offer = other
  wasIssued : ∀ token device, .paired token device ∈ history.answers →
    ∃ offer, .issued offer ∈ history.answers ∧ offer.token = token
  oneDevice : ∀ token device token' device', .paired token device ∈ history.answers →
    .paired token' device' ∈ history.answers →
    device.credential = device'.credential ∨ device.deviceId = device'.deviceId → device = device'
  wasPaired : ∀ deviceId, .revoked deviceId ∈ history.answers →
    ∃ token device, .paired token device ∈ history.answers ∧ device.deviceId = deviceId
  distinct : (history.world.file.pending.map (·.tokenSha256)).Nodup
  isOpen : ∀ pending ∈ history.world.file.pending, ∃ offer, Open history offer ∧
    pending = offer.toPending sha256
  kept : ∀ offer, Open history offer → history.clock ≤ offer.expiresAtMs →
    offer.toPending sha256 ∈ history.world.file.pending
  isPaired : ∀ record ∈ history.world.file.devices, ∃ device, Paired history device ∧
    record.IsOf sha256 device
  listed : ∀ device, Paired history device → ∃ record ∈ history.world.file.devices,
    record.IsOf sha256 device

variable {parseUrl sha256} {secrets : Set String} {history : History}

/-- Without push registrations the registry can be read. -/
theorem Agrees.loadable (h : Agrees sha256 secrets history) : Loadable history.world.file := by
  have hn : history.world.file.registrations = [] := by
    rw [RegistryState.registrations, filterMap_eq_nil_iff]
    exact h.unregistered
  exact ⟨h.version, by simp [validateState, hn, require]⟩

variable (parseUrl) in
/-- What comes of a request to issue an offer. -/
theorem advance_issue (h : Loadable history.world.file) (ru i : String) (nowMs tm : UInt64)
    (t : String) : advance parseUrl sha256 history (.issue ru i nowMs tm t) =
        { history with clock := nowMs } ∨ ∃ o : PairingOffer, o.token = t ∧
        advance parseUrl sha256 history (.issue ru i nowMs tm t) = ⟨{ history.world with
            file := { history.world.file with
              pending := (history.world.file.pending.filter fun pending =>
                decide (pending.expiresAtMs > nowMs)) ++ [o.toPending sha256] } },
            nowMs, history.answers ++ [.issued o]⟩ := by
  cases hc : checkIssue parseUrl ru i nowMs tm with
  | error error =>
    refine .inl ?_
    rw [advance, issue, hc]
    change History.after history nowMs .issued (.error error, [], history.world) = _
    simp [History.after, answerOf]
  | ok c =>
    refine .inr ⟨⟨2, ru, i.map Char.toLower, t, saturatingAdd nowMs tm⟩,
      rfl, ?_⟩
    rw [advance, issue, (returns_ofExcept hc _).bind_eq, withState_decided h]
    rfl

variable (parseUrl) in
/-- What comes of a request to consume an offer. -/
theorem advance_consume (h : Loadable history.world.file) (t dn : String) (nowMs : UInt64)
    (di c : String) : advance parseUrl sha256 history (.consume t dn nowMs di c) =
        { history with clock := nowMs } ∨ ∃ m, history.world.file.pending.findIdx?
          (accepts (hash sha256 t) nowMs) = some m ∧
        advance parseUrl sha256 history (.consume t dn nowMs di c) = ⟨{ history.world with
            file := { history.world.file with
              pending := (history.world.file.pending.eraseIdx m).filter fun pending =>
                decide (pending.expiresAtMs ≥ nowMs)
              devices := history.world.file.devices ++
                [⟨⟨di, trim dn, nowMs, none⟩, hash sha256 c, none⟩] } },
            nowMs, history.answers ++ [.paired t ⟨di, trim dn, c⟩]⟩ := by
  cases hn : require (validDeviceName (trim dn)) (rejected "device name is invalid") with
  | error error =>
    refine .inl ?_
    rw [advance, consume, hn]
    change History.after history nowMs (.paired t) (.error error, [], history.world) = _
    simp [History.after, answerOf]
  | ok ch =>
    rw [advance, consume, (returns_ofExcept hn _).bind_eq, withState_decided h, consumeOffer]
    cases history.world.file.pending.findIdx? (accepts (hash sha256 t) nowMs) with
    | none =>
      refine .inl ?_
      simp [History.after, answerOf]
    | some m => exact .inr ⟨m, rfl, rfl⟩

variable (parseUrl) in
/-- What comes of a request to revoke a device. -/
theorem advance_revoke (h : Loadable history.world.file) (di : String) :
    advance parseUrl sha256 history (.revoke di) = history ∨
      (∃ r ∈ history.world.file.devices, r.status.deviceId = di) ∧
        advance parseUrl sha256 history (.revoke di) = ⟨{ history.world with
            file := { history.world.file with
              devices := history.world.file.devices.filter (·.status.deviceId != di) } },
            history.clock, history.answers ++ [.revoked di]⟩ := by
  rw [advance, revoke, withState_decided h]
  dsimp only
  by_cases hl : history.world.file.devices.length =
      (history.world.file.devices.filter (·.status.deviceId != di)).length
  · refine .inl ?_
    rw [← hl]
    simp [require, bind, Except.bind, History.after, answerOf]
  · refine .inr ⟨?_, ?_⟩
    · by_contra hn
      push Not at hn
      refine hl (congrArg List.length (filter_eq_self.mpr ?_).symm)
      intro r he
      simpa using hn r he
    · have hr : require (history.world.file.devices.length !=
          (history.world.file.devices.filter (·.status.deviceId != di)).length)
          (rejected "device is unknown") = .ok () := by
        rw [require_ok]
        simpa using hl
      rw [hr]
      rfl

/-! ### One request -/

variable {nowMs : UInt64}

theorem Agrees.withClock (h : Agrees sha256 secrets history) (he : history.clock ≤ nowMs) :
    Agrees sha256 secrets { history with clock := nowMs } :=
  { h with kept := fun o ho hl => h.kept o ho (UInt64.le_trans he hl) }

/-- An offer of a new token joins the open ones, and the expired ones are dropped. -/
theorem Agrees.issued (hn : Set.InjOn (hash sha256) secrets) (h : Agrees sha256 secrets history)
    {offer : PairingOffer} (hle : history.clock ≤ nowMs) (hse : offer.token ∈ secrets)
    (hfr : ∀ o, .issued o ∈ history.answers → o.token ≠ offer.token)
    (hb : ∀ pending ∈ history.world.file.pending, pending.expiresAtMs ≠ nowMs) :
    Agrees sha256 secrets ⟨{ history.world with
        file := { history.world.file with
          pending := (history.world.file.pending.filter fun pending =>
            decide (pending.expiresAtMs > nowMs)) ++ [offer.toPending sha256] } },
        nowMs, history.answers ++ [.issued offer]⟩ := by
  have hu : ∀ d, .paired offer.token d ∉ history.answers := by
    intro d hp
    obtain ⟨o, ho, ht⟩ := h.wasIssued offer.token d hp
    exact hfr o ho ht
  refine ⟨h.version, h.unregistered, ?_, ?_, ?_, ?_, ?_, ?_, ?_, ?_, ?_, ?_, ?_⟩
  · intro o ho
    rcases mem_append.mp ho with ho | ho
    · exact h.secretTokens o ho
    · obtain ⟨rfl⟩ := by simpa using ho
      exact hse
  · intro token d hp
    exact h.secretCredentials token d (by simpa using hp)
  · intro x s hf hs ht
    simp only [mem_append, mem_singleton, Answer.issued.injEq] at hf hs
    rcases hf with hf | rfl
    · rcases hs with hs | rfl
      · exact h.oneOffer x s hf hs ht
      · exact absurd ht (hfr x hf)
    · rcases hs with hs | rfl
      · exact absurd ht.symm (hfr s hs)
      · rfl
  · intro token d hp
    obtain ⟨o, ho, ht⟩ := h.wasIssued token d (by simpa using hp)
    exact ⟨o, mem_append_left _ ho, ht⟩
  · intro token d t' d' hp hp'
    exact h.oneDevice token d t' d' (by simpa using hp) (by simpa using hp')
  · intro di hr
    obtain ⟨token, d, hp, hd⟩ := h.wasPaired di (by simpa using hr)
    exact ⟨token, d, mem_append_left _ hp, hd⟩
  · rw [map_append, nodup_append]
    refine ⟨(h.distinct.sublist (filter_sublist.map _)), by simp, ?_⟩
    intro t hte o ho heq
    obtain ⟨pending, he, rfl⟩ := mem_map.mp hte
    obtain ⟨k, hop, rfl⟩ := h.isOpen pending (mem_of_mem_filter he)
    obtain rfl := mem_singleton.mp ho
    exact hfr k hop.1 (hn (h.secretTokens k hop.1) hse heq)
  · intro pending he
    rcases mem_append.mp he with he | he
    · obtain ⟨k, hop, heq⟩ := h.isOpen pending (mem_of_mem_filter he)
      exact ⟨k, ⟨mem_append_left _ hop.1, by simpa using hop.2⟩, heq⟩
    · exact ⟨offer, ⟨by simp, by simpa using hu⟩, mem_singleton.mp he⟩
  · rintro k ⟨hi, hk⟩ hl
    simp only [mem_append, mem_singleton, Answer.issued.injEq] at hi
    rcases hi with hi | rfl
    · have he := h.kept k ⟨hi, by simpa using hk⟩ (UInt64.le_trans hle hl)
      refine mem_append_left _ (mem_filter.mpr ⟨he, ?_⟩)
      have hne := hb _ he
      exact decide_eq_true (UInt64.lt_of_le_of_ne hl hne.symm)
    · simp
  · intro r hc
    obtain ⟨d, ⟨⟨token, hp⟩, hl⟩, his⟩ := h.isPaired r hc
    exact ⟨d, ⟨⟨token, mem_append_left _ hp⟩, by simpa using hl⟩, his⟩
  · rintro d ⟨⟨token, hp⟩, hl⟩
    exact h.listed d ⟨⟨token, by simpa using hp⟩, by simpa using hl⟩

/-- What is left when one entry of a list with distinct keys is removed. -/
private theorem mem_eraseIdx_iff {α β : Type} {key : α → β} {xs : List α} (hd : (xs.map key).Nodup)
    {i : Nat} (hx : i < xs.length) {x : α} : x ∈ xs.eraseIdx i ↔ x ∈ xs ∧ key x ≠ key xs[i] := by
  rw [mem_eraseIdx_iff_getElem]
  constructor
  · rintro ⟨o, ho, hn, rfl⟩
    refine ⟨getElem_mem ho, fun heq => hn ?_⟩
    have hs := inj_on_of_nodup_map hd (getElem_mem ho) (getElem_mem hx) heq
    exact (List.Nodup.of_map key hd).getElem_inj_iff.mp hs
  · rintro ⟨hi, hn⟩
    obtain ⟨o, ho, rfl⟩ := getElem_of_mem hi
    exact ⟨o, ho, fun heq => hn (by subst heq; rfl), rfl⟩

/-- The consumed offer is no longer open, the expired ones are dropped and a device joins. -/
theorem Agrees.paired (hn : Set.InjOn (hash sha256) secrets) (h : Agrees sha256 secrets history)
    {t : String} (d : DeviceCredential) {m : Nat} (hle : history.clock ≤ nowMs) (ht : t ∈ secrets)
    (hse : d.credential ∈ secrets) (hfr : ∀ t' o, .paired t' o ∈ history.answers →
      o.credential ≠ d.credential ∧ o.deviceId ≠ d.deviceId)
    (hm : history.world.file.pending.findIdx?
      (accepts (hash sha256 t) nowMs) = some m) : Agrees sha256 secrets ⟨{ history.world with
        file := { history.world.file with
          pending := (history.world.file.pending.eraseIdx m).filter fun pending =>
            decide (pending.expiresAtMs ≥ nowMs)
          devices := history.world.file.devices ++ [⟨⟨d.deviceId, d.deviceName, nowMs,
            none⟩, hash sha256 d.credential, none⟩] } },
        nowMs, history.answers ++ [.paired t d]⟩ := by
  obtain ⟨hx, ha, -⟩ := List.findIdx?_eq_some_iff_getElem.mp hm
  rw [accepts, Bool.and_eq_true, beq_iff_eq] at ha
  have hlf : ∀ pending, pending ∈ history.world.file.pending.eraseIdx m ↔
      pending ∈ history.world.file.pending ∧ pending.tokenSha256 ≠ hash sha256 t := by
    intro pending
    rw [mem_eraseIdx_iff h.distinct hx, ha.1]
  obtain ⟨u, hus, hue⟩ := h.isOpen _ (getElem_mem hx)
  have hut : u.token = t := by
    refine hn (h.secretTokens u hus.1) ht ?_
    rw [← ha.1, hue, PairingOffer.toPending]
  have hun : .revoked d.deviceId ∉ history.answers := by
    intro hr
    obtain ⟨t', o, ho, hd⟩ := h.wasPaired _ hr
    exact (hfr t' o ho).2 hd
  refine ⟨h.version, ?_, ?_, ?_, ?_, ?_, ?_, ?_, ?_, ?_, ?_, ?_, ?_⟩
  · intro r he
    rcases mem_append.mp he with he | he
    · exact h.unregistered r he
    · obtain rfl := mem_singleton.mp he
      rfl
  · intro offer hi
    exact h.secretTokens offer (by simpa using hi)
  · intro t' o hp
    simp only [mem_append, mem_singleton, Answer.paired.injEq] at hp
    rcases hp with hp | ⟨rfl, rfl⟩
    · exact h.secretCredentials t' o hp
    · exact hse
  · intro offer o hi hi' heq
    exact h.oneOffer offer o (by simpa using hi) (by simpa using hi') heq
  · intro t' o hp
    simp only [mem_append, mem_singleton, Answer.paired.injEq] at hp
    rcases hp with hp | ⟨rfl, rfl⟩
    · obtain ⟨offer, hi, heq⟩ := h.wasIssued t' o hp
      exact ⟨offer, mem_append_left _ hi, heq⟩
    · exact ⟨u, mem_append_left _ hus.1, hut⟩
  · intro tok x token₂ s hf hs hsa
    simp only [mem_append, mem_singleton, Answer.paired.injEq] at hf hs
    rcases hf with hf | ⟨rfl, rfl⟩
    · rcases hs with hs | ⟨rfl, rfl⟩
      · exact h.oneDevice tok x token₂ s hf hs hsa
      · obtain ⟨hc, hd⟩ := hfr tok x hf
        exact (hsa.elim hc hd).elim
    · rcases hs with hs | ⟨rfl, rfl⟩
      · obtain ⟨hc, hd⟩ := hfr token₂ s hs
        exact (hsa.elim (fun heq => hc heq.symm) fun heq => hd heq.symm).elim
      · rfl
  · intro deviceId hr
    obtain ⟨t', o, hp, hd⟩ := h.wasPaired deviceId (by simpa using hr)
    exact ⟨t', o, mem_append_left _ hp, hd⟩
  · refine h.distinct.sublist (List.Sublist.map _ ?_)
    exact filter_sublist.trans (eraseIdx_sublist _ _)
  · intro pending hpe
    obtain ⟨hmem, hne⟩ := (hlf pending).mp (mem_of_mem_filter hpe)
    obtain ⟨offer, ⟨hi, hu⟩, rfl⟩ := h.isOpen pending hmem
    refine ⟨offer, ⟨mem_append_left _ hi, fun o hp => ?_⟩, rfl⟩
    simp only [mem_append, mem_singleton, Answer.paired.injEq] at hp
    rcases hp with hp | ⟨heq, -⟩
    · exact hu o hp
    · exact hne (congrArg (hash sha256) heq)
  · rintro offer ⟨hi, hu⟩ hl
    have hi' : .issued offer ∈ history.answers := by simpa using hi
    have ho : ∀ o, .paired offer.token o ∉ history.answers :=
      fun o hp => hu o (mem_append_left _ hp)
    have hpe := h.kept offer ⟨hi', ho⟩ (UInt64.le_trans hle hl)
    refine mem_filter.mpr ⟨(hlf _).mpr ⟨hpe, fun heq => ?_⟩, decide_eq_true hl⟩
    have ht' := hn (h.secretTokens offer hi') ht heq
    exact hu d (by simp [ht'])
  · intro r he
    rcases mem_append.mp he with he | he
    · obtain ⟨o, ⟨⟨t', hp⟩, hl⟩, his⟩ := h.isPaired r he
      exact ⟨o, ⟨⟨t', mem_append_left _ hp⟩, by simpa using hl⟩, his⟩
    · obtain rfl := mem_singleton.mp he
      exact ⟨d, ⟨⟨t, by simp⟩, by simpa using hun⟩, rfl, rfl⟩
  · rintro o ⟨⟨t', hp⟩, hl⟩
    simp only [mem_append, mem_singleton, Answer.paired.injEq] at hp
    rcases hp with hp | ⟨rfl, rfl⟩
    · obtain ⟨r, he, his⟩ := h.listed o ⟨⟨t', hp⟩, by simpa using hl⟩
      exact ⟨r, mem_append_left _ he, his⟩
    · exact ⟨_, mem_append_right _ (mem_singleton_self _), rfl, rfl⟩

/-- The revoked device leaves. -/
theorem Agrees.revoked (h : Agrees sha256 secrets history) {di : String}
    (hk : ∃ r ∈ history.world.file.devices, r.status.deviceId = di) : Agrees sha256 secrets
      ⟨{ history.world with
        file := { history.world.file with
          devices := history.world.file.devices.filter (·.status.deviceId != di) } },
        history.clock, history.answers ++ [.revoked di]⟩ := by
  refine ⟨h.version, ?_, ?_, ?_, ?_, ?_, ?_, ?_, h.distinct, ?_, ?_, ?_, ?_⟩
  · exact fun r he => h.unregistered r (mem_of_mem_filter he)
  · exact fun o hi => h.secretTokens o (by simpa using hi)
  · exact fun t d hp => h.secretCredentials t d (by simpa using hp)
  · intro o x hi hi' heq
    exact h.oneOffer o x (by simpa using hi) (by simpa using hi') heq
  · intro t d hp
    obtain ⟨o, hi, heq⟩ := h.wasIssued t d (by simpa using hp)
    exact ⟨o, mem_append_left _ hi, heq⟩
  · intro t d t' d' hp hp'
    exact h.oneDevice t d t' d' (by simpa using hp) (by simpa using hp')
  · intro x hr
    simp only [mem_append, mem_singleton, Answer.revoked.injEq] at hr
    rcases hr with hr | rfl
    · obtain ⟨t, d, hp, hd⟩ := h.wasPaired x hr
      exact ⟨t, d, mem_append_left _ hp, hd⟩
    · obtain ⟨r, he, hd⟩ := hk
      obtain ⟨d, ⟨⟨t, hp⟩, -⟩, hs⟩ := h.isPaired r he
      exact ⟨t, d, mem_append_left _ hp, hs.1.symm.trans hd⟩
  · intro p hpe
    obtain ⟨o, ⟨hi, hu⟩, heq⟩ := h.isOpen p hpe
    exact ⟨o, ⟨mem_append_left _ hi, by simpa using hu⟩, heq⟩
  · rintro o ⟨hi, hu⟩ hl
    exact h.kept o ⟨by simpa using hi, by simpa using hu⟩ hl
  · intro r he
    obtain ⟨hm, hn⟩ := mem_filter.mp he
    obtain ⟨d, ⟨⟨t, hp⟩, hl⟩, hs⟩ := h.isPaired r hm
    refine ⟨d, ⟨⟨t, mem_append_left _ hp⟩, ?_⟩, hs⟩
    rw [bne_iff_ne, hs.1] at hn
    simpa using ⟨hl, hn⟩
  · rintro d ⟨⟨t, hp⟩, hl⟩
    simp only [mem_append, mem_singleton, Answer.revoked.injEq, not_or] at hl
    obtain ⟨r, he, hs⟩ := h.listed d ⟨⟨t, by simpa using hp⟩, hl.1⟩
    refine ⟨r, mem_filter.mpr ⟨he, ?_⟩, hs⟩
    rw [bne_iff_ne, hs.1]
    exact hl.2

/-! ### Runs -/

theorem agrees_start : Agrees sha256 secrets .start := by
  constructor <;> simp [History.start, RegistryState.initial, Open, Paired]

/-- One regular request off the boundary keeps the registry in agreement with the answers. -/
theorem advance_agrees (hi : Set.InjOn (hash sha256) secrets) (h : Agrees sha256 secrets history)
    {req : Request} (hr : Regular secrets history req) (hb : OffBoundary history req) :
    Agrees sha256 secrets (advance parseUrl sha256 history req) := by
  cases req with
  | issue ru i nowMs tm t =>
    obtain ⟨hl, hs, hf⟩ := hr
    rcases advance_issue parseUrl h.loadable ru i nowMs tm t with heq | ⟨o, rfl, heq⟩
    · rw [heq]
      exact h.withClock hl
    · rw [heq]
      exact h.issued hi hl hs hf hb
  | consume t dn nowMs di c =>
    obtain ⟨hl, ht, hs, hf⟩ := hr
    rcases advance_consume parseUrl h.loadable t dn nowMs di c with heq | ⟨m, hm, heq⟩
    · rw [heq]
      exact h.withClock hl
    · rw [heq]
      exact h.paired hi ⟨di, trim dn, c⟩ hl ht hs hf hm
  | revoke di =>
    rcases advance_revoke parseUrl h.loadable di with heq | ⟨hk, heq⟩
    · rw [heq]
      exact h
    · rw [heq]
      exact h.revoked hk

/-- A token is accepted when its offer is open and has not expired. -/
theorem Agrees.consume_iff (hi : Set.InjOn (hash sha256) secrets)
    (h : Agrees sha256 secrets history) {t dn : String} (di c : String) (ht : t ∈ secrets)
    (hn : validDeviceName (trim dn)) (he : history.clock ≤ nowMs) :
    (∃ d, (consume sha256 t dn nowMs di c [] history.world).1 = .value d) ↔
      ∃ o, Open history o ∧ o.token = t ∧ nowMs ≤ o.expiresAtMs := by
  have hc : require (validDeviceName (trim dn))
      (rejected "device name is invalid") = .ok () := require_ok.mpr hn
  rw [consume, (returns_ofExcept hc _).bind_eq, withState_decided h.loadable, consumeOffer]
  cases hf : history.world.file.pending.findIdx? (accepts (hash sha256 t) nowMs) with
  | none =>
    refine iff_of_false (by simp) ?_
    rintro ⟨o, ho, rfl, hl⟩
    have hp := h.kept o ho (UInt64.le_trans he hl)
    have hr := List.findIdx?_eq_none_iff.mp hf _ hp
    simp [accepts, PairingOffer.toPending] at hr
    exact UInt64.not_lt.mpr hl hr
  | some m =>
    refine iff_of_true ⟨_, rfl⟩ ?_
    obtain ⟨hd, ha, -⟩ := List.findIdx?_eq_some_iff_getElem.mp hf
    rw [accepts, Bool.and_eq_true, beq_iff_eq, decide_eq_true_iff] at ha
    obtain ⟨o, ho, heq⟩ := h.isOpen _ (getElem_mem hd)
    rw [heq] at ha
    exact ⟨o, ho, hi (h.secretTokens o ho.1) ht ha.1, ha.2⟩

/-- A credential is that of the device it was made for. -/
theorem Agrees.authenticate_iff (hn : Set.InjOn (hash sha256) secrets)
    (h : Agrees sha256 secrets history) {c : String} (hs : c ∈ secrets) (di : String) :
    (authenticateDevice sha256 c [] history.world).1 = .value (some di) ↔
      ∃ d, Paired history d ∧ d.credential = c ∧ d.deviceId = di := by
  rw [authenticateDevice, withState_decided h.loadable]
  dsimp only
  rw [Ending.value.injEq, Option.map_eq_some_iff]
  constructor
  · rintro ⟨r, hf, hd⟩
    have hh := List.find?_some hf
    obtain ⟨d, hp, hi⟩ := h.isPaired r (mem_of_find?_eq_some hf)
    obtain ⟨t, ha⟩ := hp.1
    rw [beq_iff_eq, hi.2] at hh
    exact ⟨d, hp, hn (h.secretCredentials t d ha) hs hh, hi.1.symm.trans hd⟩
  · rintro ⟨d, hp, rfl, rfl⟩
    obtain ⟨r, hr, hi⟩ := h.listed d hp
    have hso : (history.world.file.devices.find?
        (·.credentialSha256 == hash sha256 d.credential)).isSome := by
      rw [List.find?_isSome]
      exact ⟨r, hr, beq_iff_eq.mpr hi.2⟩
    obtain ⟨f, hf⟩ := Option.isSome_iff_exists.mp hso
    refine ⟨f, hf, ?_⟩
    have hh := List.find?_some hf
    obtain ⟨o, ⟨⟨t, ho⟩, -⟩, hi'⟩ := h.isPaired f (mem_of_find?_eq_some hf)
    obtain ⟨⟨t', ha⟩, -⟩ := hp
    rw [beq_iff_eq, hi'.2] at hh
    have hc := hn (h.secretCredentials t o ho) hs hh
    obtain rfl := h.oneDevice t o t' d ho ha (.inl hc)
    exact hi'.1

variable (parseUrl sha256 secrets) in
/-- Where the clock does not go back, secrets are drawn once and hashed without a collision,
and no offer is issued in the instant in which a pending one expires: a token pairs a device
exactly when it was issued, not consumed and has not passed its stated expiry, and a
credential authenticates exactly the device it was made for, until that is revoked. -/
theorem tokens_work_once (hinj : Set.InjOn (hash sha256) secrets) (requests : List Request)
    (hregular : Throughout (advance parseUrl sha256) (Regular secrets) .start requests)
    (hboundary : Throughout (advance parseUrl sha256) OffBoundary .start requests) :
    (∀ token ∈ secrets, ∀ deviceName nowMs deviceId credential, validDeviceName (trim deviceName) →
      (requests.foldl (advance parseUrl sha256) .start).clock ≤ nowMs →
      ((∃ device, (consume sha256 token deviceName nowMs deviceId credential []
          (requests.foldl (advance parseUrl sha256) .start).world).1 = .value device) ↔
        ∃ offer, Open (requests.foldl (advance parseUrl sha256) .start) offer ∧
          offer.token = token ∧ nowMs ≤ offer.expiresAtMs)) ∧ (∀ credential ∈ secrets, ∀ deviceId,
      (authenticateDevice sha256 credential []
          (requests.foldl (advance parseUrl sha256) .start).world).1 = .value (some deviceId) ↔
        ∃ device, Paired (requests.foldl (advance parseUrl sha256) .start) device ∧
          device.credential = credential ∧ device.deviceId = deviceId) := by
  have ha : Agrees sha256 secrets (requests.foldl (advance parseUrl sha256) .start) := by
    have hl : Always (advance parseUrl sha256) (Agrees sha256 secrets) .start requests := by
      refine always_of_throughout (C := fun history req =>
        Regular secrets history req ∧ OffBoundary history req) ?_ agrees_start ?_
      · exact fun history req h hc => advance_agrees hinj h hc.1 hc.2
      · exact throughout_and.mpr ⟨hregular, hboundary⟩
    exact hl.last
  constructor
  · intro token ht deviceName nowMs deviceId credential hn he
    exact ha.consume_iff hinj deviceId credential ht hn he
  · intro credential hs deviceId
    exact ha.authenticate_iff hinj hs deviceId

end

/-! ### An offer that is issued in the instant in which another one expires -/

/-- A parser that takes each text for a clean URL. -/
def cleanUrl (_ : String) : Option ReceiverUrl :=
    some ⟨"https", some "phone", "", none, "", none, none⟩

/-- A hash under which the sample tokens differ. -/
def sampleHash : Sha256 := fun bytes => Vector.replicate 32 (bytes.foldl (· + ·) 0)

def sampleIdentity : String := "0123456789abcdef0123456789abcdef0123456789abcdef0123456789abcdef"

/-- An offer that expires at 2, and one that is issued later. -/
def twoOffers (laterMs : UInt64) : List Request := [
  .issue "https://receiver" sampleIdentity 1 1 "first",
  .issue "https://receiver" sampleIdentity laterMs 5 "second"]

/-- The offer of the first token. -/
def firstOffer : PairingOffer := ⟨2, "https://receiver", sampleIdentity, "first", 2⟩

private theorem injOn_sampleHash : Set.InjOn (hash sampleHash) {"first", "second"} := by
  have hn : hash sampleHash "first" ≠ hash sampleHash "second" := by decide +kernel
  rintro _ (rfl | rfl) _ (rfl | rfl) heq
  · rfl
  · exact absurd heq hn
  · exact absurd heq.symm hn
  · rfl

private theorem twoOffers_regular {lm : UInt64} (h : 1 ≤ lm)
    (hf : (advance cleanUrl sampleHash .start (.issue "https://receiver" sampleIdentity 1 1
      "first")).answers = [.issued firstOffer]) : Throughout (advance cleanUrl sampleHash)
    (Regular {"first", "second"}) .start (twoOffers lm) := by
  refine ⟨⟨by decide, .inl rfl, ?_⟩, ⟨h, .inr rfl, ?_⟩, trivial⟩
  · exact fun o hi => absurd hi not_mem_nil
  · intro o hi
    rw [hf, mem_singleton, Answer.issued.injEq] at hi
    subst hi
    decide

private theorem twoOffers_first : (advance cleanUrl sampleHash .start
    (.issue "https://receiver" sampleIdentity 1 1 "first")).answers = [.issued firstOffer] := by
  decide +kernel

/-- A token is accepted in the very instant of its expiry. -/
theorem tokens_work_once_first :
    ∃ device, (consume sampleHash "first" "phone" 2 "device" "second" []
      ((twoOffers 1).foldl (advance cleanUrl sampleHash) .start).world).1 = .value device := by
  have ha : ((twoOffers 1).foldl (advance cleanUrl sampleHash) .start).answers =
      [.issued firstOffer, .issued ⟨2, "https://receiver", sampleIdentity, "second", 6⟩] := by
    decide +kernel
  have hp : (advance cleanUrl sampleHash .start (.issue "https://receiver" sampleIdentity 1 1
      "first")).world.file.pending.map (·.expiresAtMs) = [2] := by decide +kernel
  have hb : Throughout (advance cleanUrl sampleHash) OffBoundary .start (twoOffers 1) := by
    refine ⟨fun o h => absurd h not_mem_nil, ?_, trivial⟩
    intro o ho hn
    have hm := mem_map_of_mem (f := (·.expiresAtMs)) ho
    rw [hp, hn] at hm
    exact absurd hm (by decide)
  have hr := tokens_work_once cleanUrl sampleHash {"first", "second"} injOn_sampleHash
    (twoOffers 1) (twoOffers_regular (by decide) twoOffers_first) hb
  refine (hr.1 "first" (.inl rfl) "phone" 2 "device" "second" (by decide +kernel)
    (by decide +kernel)).mpr ⟨firstOffer, ⟨?_, ?_⟩, rfl, by decide⟩
  · rw [ha]
    simp
  · intro device
    rw [ha]
    simp

/-- An offer that is issued in the instant in which the first one expires drops it, although
its token was not consumed and has not passed its stated expiry. -/
theorem issue_drops_live_offer : Throughout (advance cleanUrl sampleHash)
    (Regular {"first", "second"}) .start (twoOffers 2) ∧
      Open ((twoOffers 2).foldl (advance cleanUrl sampleHash) .start) firstOffer ∧
      2 ≤ firstOffer.expiresAtMs ∧ (consume sampleHash "first" "phone" 2 "device" "second" []
        ((twoOffers 2).foldl (advance cleanUrl sampleHash) .start).world).1 =
          .error (.rejected "pairing token is invalid or expired") := by
  have ha : ((twoOffers 2).foldl (advance cleanUrl sampleHash) .start).answers =
      [.issued firstOffer, .issued ⟨2, "https://receiver", sampleIdentity, "second", 7⟩] := by
    decide +kernel
  refine ⟨twoOffers_regular (by decide) twoOffers_first, ⟨?_, ?_⟩, by decide, by decide +kernel⟩
  · rw [ha]
    simp
  · intro d
    rw [ha]
    simp

end Louiselm.Pairing
