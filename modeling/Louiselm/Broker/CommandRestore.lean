import Louiselm.Broker.AuthorizationRuns
import Louiselm.Broker.CommandRuns
import Louiselm.Broker.ReceiptRuns

/-!
# Command authority restored by a Resume

`skills-core/src/broker/command_restore.rs` over the stores of `broker/authorization.rs`,
`broker/audit.rs` and `broker/receipts.rs`. An approval that its Session has used up is
replayed, but is no approval that the policy of a fresh grant accepts.
-/

namespace Louiselm.Broker.Authorization
open Base Canonical Launch List Option
open Launch.Protocol (LaunchAuthorization ProtocolError SupervisorStatus)
open ReplayState AuthorizationStore
open Except (ok.inj error.inj)

variable {A : Approvals} (rules : Rules A)

/-! ### What a record has spent -/

/-- What the entries of a Session took from its limit, in the uses that they reserve. -/
def spent (source : Source) (entries : List AuditEntry) : Nat :=
  ((charges source entries).map Charge.cost).sum

theorem addChecked_eq_add {b n a m : Nat} (h : addChecked b n a = some m) : m = n + a := by
  unfold addChecked at h
  split at h
  · exact (Option.some.inj h).symm
  · contradiction

variable {li : Nat}

/-- Under a limit a grant reserves the uses it names. -/
theorem reservation_limited {u : Option Nat} {re : Nat}
    (h : reservation (some li) u = some re) : u = some re := by
  cases u with
  | none => contradiction
  | some n =>
    simp only [reservation] at h
    split at h
    · exact h
    · contradiction

variable {r s : ReplayState}

/-- What one decision of a limited Session takes. -/
theorem decide_spent {so : Source} {d : AuditDecision} (h : r.decide so (some li) d = some s) :
    s.spent = r.spent + (d.charge?.map Charge.cost).getD 0 := by
  cases d with
  | authorizationConsumed =>
    simp only [ReplayState.decide] at h
    split at h
    · contradiction
    · obtain rfl := Option.some.inj h
      rfl
  | effectCommitIntent g n =>
    cases g with
    | none =>
      simp only [ReplayState.decide] at h
      split at h
      · contradiction
      · simp only [bind_eq_bind, bind_eq_some_iff] at h
        obtain ⟨_, _, t, ht, h⟩ := h
        obtain rfl := Option.some.inj h
        exact addChecked_eq_add ht
    | some g =>
      simp only [ReplayState.decide, bind_eq_bind, bind_eq_some_iff] at h
      obtain ⟨_, _, h⟩ := h
      split at h
      · contradiction
      · obtain ⟨_, _, h⟩ := bind_eq_some_iff.mp h
        obtain rfl := Option.some.inj h
        rfl
  | toolGranted g pid rev u =>
    simp only [ReplayState.decide, bind_eq_bind, bind_eq_some_iff] at h
    obtain ⟨re, hr, h⟩ := h
    split at h
    · contradiction
    · obtain ⟨t, ht, h⟩ := bind_eq_some_iff.mp h
      obtain rfl := Option.some.inj h
      obtain rfl := reservation_limited hr
      exact addChecked_eq_add ht
  | _ =>
    obtain rfl := Option.some.inj h
    rfl

/-- What one entry of a limited Session takes. -/
theorem next_spent {so : Source} {e : AuditEntry}
    (h : r.next so (some li) e = some s) : s.spent = r.spent + spent so [e] := by
  unfold ReplayState.next at h
  by_cases ho : e.sessionId = so.sessionId
  · simp only [ho, ne_eq, not_true_eq_false, if_false] at h
    split at h
    · rw [decide_spent h]
      cases hc : e.decision.charge? <;> simp [spent, charges, ho, hc]
    · contradiction
  · rw [if_pos ho] at h
    obtain rfl := Option.some.inj h
    simp [spent, charges, ho]

theorem spent_cons (so : Source) (e : AuditEntry) (entries : List AuditEntry) :
    spent so (e :: entries) = spent so [e] + spent so entries := by
  rw [← singleton_append, spent, charges, filterMap_append, map_append, sum_append]
  rfl

variable {entries : List AuditEntry}

/-- What a whole record of a limited Session takes. -/
theorem foldlM_spent {so : Source} (h : entries.foldlM (next so (some li)) r = some s) :
    s.spent = r.spent + spent so entries := by
  induction entries generalizing r with
  | nil =>
    obtain rfl := Option.some.inj h
    rfl
  | cons e entries ih =>
    rw [foldlM_cons, bind_eq_bind, bind_eq_some_iff] at h
    obtain ⟨m, hf, hr⟩ := h
    rw [ih hr, next_spent hf, Nat.add_assoc, ← spent_cons]

/-- A replay leaves the approval that the record has not spent. -/
theorem replay_remainder {so : Source} {ms : Nat} {st : CommandReplay}
    (h : replay so entries ms = .ok st) :
    ∃ commands, so.commands = some commands ∧ ms < commands.expiresAtMs ∧
      st.commands = { commands with uses := commands.uses.map (· - spent so entries) } ∧
      ∀ li, commands.uses = some li → spent so entries ≤ li := by
  unfold replay at h
  cases hc : so.commands with
  | none => simp [hc] at h
  | some commands =>
    simp only [hc] at h
    split at h
    · contradiction
    · next hl =>
      split at h
      · contradiction
      · next r hf =>
        split at h
        · contradiction
        · split at h
          · contradiction
          · next hw =>
            obtain rfl := ok.inj h
            refine ⟨commands, rfl, Nat.not_le.mp hl, ?_⟩
            cases hu : commands.uses with
            | none => simp
            | some li =>
              rw [hu] at hf hw
              have hs := foldlM_spent hf
              rw [start, Nat.zero_add] at hs
              simp only [any_some, decide_eq_true_eq, Nat.not_lt, hs] at hw
              simpa [hs] using hw

/-! ### What a Resume reads -/

/-- What replay reads of a consumed authorization. -/
def PendingAuthorization.source (held : PendingAuthorization A) : Source where
  authorizationId := held.authorizationId
  sessionId := held.sessionId
  runId := held.runId
  identitySlot := held.identity.slot.toNat
  envelopeRevision := held.envelopeRevision.toNat
  commands := held.commands

/-- The consumed authorization that launched a Session, in a directory's order. -/
def readConsumedForSession (sessionId : String) :
    Records (ConsumedAuthorization A) → Except BrokerError (Option (PendingAuthorization A))
  | [] => .ok none
  | (_, stored) :: records => do
    let held ← readConsumed rules stored
    if held.sessionId = sessionId then return some held
    readConsumedForSession sessionId records

/-- A Session that is attached under a consumed authorization of the store. -/
structure BrokerSession (store : AuthorizationStore A) where
  held : PendingAuthorization A
  consumed : ∃ name consumedAtMs, (name, .whole ⟨held, consumedAtMs⟩) ∈ store.consumed

/-- The other stores of the broker, the supervisor's status, the caller's clock, and the two
readings of the monotonic clock. -/
structure Resumption where
  sha256 : Sha256
  fmt : JsonFormat
  receipts : ReceiptStore
  files : Files
  log : AuditLog
  status : SupervisorStatus
  nowMs : Nat
  now : Instant
  later : Instant

/-- What the supervisor established when a Session started. -/
def ReceiptOutcome.startEvidence : ReceiptOutcome → Option StartEvidence
  | .start _ evidence => some evidence
  | _ => none

namespace Resumption

variable (resumption : Resumption)

/-- The refusal of a record that is missing, contradictory or revoked. -/
def denied : BrokerError :=
  .policy (.new .capabilityDenied (some resumption.status.state) resumption.status.currentSequence)

/-- The evidence of a Session's second receipt. -/
def startEvidence (sessionId : String) : Except BrokerError StartEvidence := do
  let chain ← resumption.receipts.chain resumption.sha256 resumption.fmt resumption.files sessionId
  match chain[1]?.bind fun receipt => ReceiptOutcome.startEvidence receipt.payload.outcome with
  | some evidence => .ok evidence
  | none => .error .receiptUnauthorized

end Resumption

/-- The context of the restored owner. -/
def restoredBinding (authorization : LaunchAuthorization) (evidence : StartEvidence) :
    CapabilityBinding where
  sessionId := authorization.sessionId
  runId := authorization.runId
  channelId := "agent-capability"
  envelopeRevision := authorization.envelopeRevision.toNat
  identitySlot := authorization.identitySlot.toNat
  assignedUid := evidence.assignedUid.toNat
  assignedGid := evidence.assignedGid.toNat
  agentPid := evidence.agentPid.toNat

section

variable {store : AuthorizationStore A} (session : BrokerSession store) (resumption : Resumption)

/-- The consumed authorization of the Session as the store now has it. -/
def consumedForSession : Except BrokerError (Option (PendingAuthorization A)) :=
  readConsumedForSession rules session.held.sessionId store.consumed

/-- What follows a replay that succeeds. -/
def restoreReplayed (state : CommandReplay) : Except BrokerError (Option CommandAuthority) := do
  let authorization := session.held.launchAuthorization rules
  let evidence ← resumption.startEvidence authorization.sessionId
  match state.commands.policy authorization.authorizationId resumption.nowMs resumption.now with
  | .error .expired => .ok none
  | .error error => .error error
  | .ok policy =>
    match CommandAuthority.restore (restoredBinding authorization evidence) policy state
      resumption.later with
    | .error _ => .error resumption.denied
    | .ok restored => .ok (some restored)

/-- The restored authority, `none` when the Session has no live command approval, or a typed
refusal when the durable record is missing, contradictory or revoked. -/
def restoreCommandsForResume : Except BrokerError (Option CommandAuthority) := do
  match ← consumedForSession rules session with
  | none => .error resumption.denied
  | some held =>
    let entries ← resumption.log.read
    match replay held.source entries resumption.nowMs with
    | .error .notApproved => .ok none
    | .error .expired => .ok none
    | .error .notConsumed => .error resumption.denied
    | .error .contradictory => .error resumption.denied
    | .ok state => restoreReplayed rules session resumption state

/-! ### What a Resume should do -/

/-- What the durable record of the Session's commands is, when it is there. -/
def Recorded (held : PendingAuthorization A) (entries : List AuditEntry) : Prop :=
  consumedForSession rules session = .ok (some held) ∧ resumption.log.read = .ok entries

/-- A Resume restores exactly what replay leaves of a consistent, unrevoked and unexpired
record, and denies it only when the record is missing, contradictory or revoked. -/
structure RestoresRemainder : Prop where
  restored : ∀ held entries state, Recorded rules session resumption held entries →
    replay held.source entries resumption.nowMs = .ok state → state.revoked = false →
      ∃ authority, restoreCommandsForResume rules session resumption = .ok (some authority) ∧
        authority.remaining = state.commands.uses
  denied : restoreCommandsForResume rules session resumption = .error resumption.denied →
    consumedForSession rules session = .ok none ∨
      ∃ held entries, Recorded rules session resumption held entries ∧
        (replay held.source entries resumption.nowMs = .error .notConsumed ∨
          replay held.source entries resumption.nowMs = .error .contradictory ∨
          ∃ state, replay held.source entries resumption.nowMs = .ok state ∧ state.revoked = true)

/-- Where the record is consistent, unrevoked and unexpired: the receipts show the start of
the Session, its entries have not spent the whole limit, and the approval does not lapse
before it is read again. -/
def Restorable : Prop :=
  ∀ held commands entries, Recorded rules session resumption held entries →
    held.commands = some commands →
    (∃ state, replay held.source entries resumption.nowMs = .ok state ∧ state.revoked = false) →
      (∃ evidence, resumption.startEvidence session.held.sessionId = .ok evidence) ∧
        commands.uses ≠ some (spent held.source entries) ∧
        resumption.later < resumption.now + (commands.expiresAtMs - resumption.nowMs)

end

/-! ### Records that were granted -/

/-- Commands that the policy of a grant accepts until they expire. -/
def Accepted (commands : ApprovedCommands) : Prop :=
  (∃ digest, Digest.parse commands.commandDigest = .ok digest ∧
      digest.toString = commands.commandDigest) ∧
    boundedMs commands.timeoutMs = true ∧ boundedUses commands.uses = true

theorem policy_eq_ok {cs : ApprovedCommands} {ai : String} {ms : Nat} {now : Instant}
    {p : DelegationPolicy} : cs.policy ai ms now = .ok p ↔ Accepted cs ∧ ms < cs.expiresAtMs ∧
        p.authorizationId = ai ∧ p.scope.timeoutMs = cs.timeoutMs ∧
        p.scope.uses = cs.uses ∧ p.allowDelegation = cs.allowDelegation ∧
        p.expiresAt = now + (cs.expiresAtMs - ms) ∧
        Digest.parse cs.commandDigest = .ok p.scope.commandDigest := by
  unfold ApprovedCommands.policy Accepted
  cases hp : Digest.parse cs.commandDigest with
  | error error => simp
  | ok d =>
    simp only [check_ok, require_ok, Bool.and_eq_true, beq_iff_eq, decide_eq_true_eq,
      CommandScope.valid, Except.ok.injEq, exists_eq_left']
    constructor
    · rintro ⟨⟨hd, ht, hu⟩, hl, h⟩
      obtain rfl := ok.inj h
      exact ⟨⟨hd, ht, hu⟩, hl, rfl, rfl, rfl, rfl, rfl, rfl⟩
    · rintro ⟨⟨hd, ht, hu⟩, hl, rfl, hms, hi, ha, he, rfl⟩
      refine ⟨⟨hd, ht, hu⟩, hl, congrArg Except.ok ?_⟩
      rw [← hms, ← hi, ← ha, ← he]

/-- A record whose grant was checked. -/
structure Approved (held : PendingAuthorization A) : Prop where
  authorizationId : isRecordIdentifier held.authorizationId = true
  sessionId : isRecordIdentifier held.sessionId = true
  runId : isRecordIdentifier held.runId = true
  commands : ∀ commands, held.commands = some commands → Accepted commands

/-- A store of records whose grants were checked. -/
structure AllApproved (s : System A) : Prop where
  pending : ∀ name held, (name, .whole held) ∈ s.store.pending → Approved held
  consumed : ∀ name record, (name, .whole record) ∈ s.store.consumed → Approved record.authorization

variable {rules}

theorem prepare_approved {store : AuthorizationStore A} {g : GrantRequest A} {ms : UInt64}
    {t : Terminal A} {re : PendingAuthorization A}
    (h : store.prepare rules g ms t = .ok re) : Approved re := by
  simp only [prepare, bind_ok] at h
  obtain ⟨_, hv, _, _, _, _, _, _, i, _, _, _, h⟩ := h
  obtain rfl := ok.inj h
  simp only [GrantRequest.validate, bind_ok] at hv
  obtain ⟨_, hr, _, _, _, _, _, _, _, hc, _⟩ := hv
  simp only [LaunchRequest.validate, require_ok, Bool.and_eq_true] at hr
  refine ⟨hr.1.1.1.1.1.1.2, hr.1.1.1.1.1.2, hr.1.1.1.1.2, ?_⟩
  rintro cs (hh : g.commands = some cs)
  simp only [hh, forM_some, bind_ok] at hc
  obtain ⟨p, hp, _⟩ := hc
  exact (policy_eq_ok.mp hp).1

theorem AllApproved.opened (p : IdentityPool) (c : UInt64) :
    AllApproved (.opened p c : System A) where
  pending := by simp [System.opened]
  consumed := by simp [System.opened]

/-- Every call leaves records whose grants were checked. -/
theorem AllApproved.step {s : System A} (h : AllApproved s) (e : Event A) :
    AllApproved (s.step rules e) := by
  cases e with
  | authorize g ms t ret f =>
    rcases hc : s.store.authorizeInner rules g ms t ret f with
      ⟨res, l⟩
    simp only [System.step, hc]
    rcases authorizeInner_cases hc with ⟨rfl, _⟩ | ⟨re, st, hp, rfl, hs, _⟩
    · exact ⟨h.pending, h.consumed⟩
    · refine ⟨fun n held hm => ?_, h.consumed⟩
      rcases mem_append.mp hm with hm | hm
      · exact h.pending n held hm
      · obtain ⟨_, rfl⟩ := Prod.mk.inj (mem_singleton.mp hm)
        rcases hs with ⟨ht, _⟩ | hw
        · contradiction
        · rw [Stored.whole.inj hw]
          exact prepare_approved hp
  | consume req cu ms d rem f =>
    rcases hc : s.store.consumeWith rules req cu ms d rem f with
      ⟨res, l⟩
    simp only [System.step, System.called, hc]
    rcases consumeWith_cases hc with ⟨rfl, _⟩ | ⟨sp, co, hh, rfl, ho⟩
    · exact ⟨h.pending, h.consumed⟩
    · have he : ∀ n held,
          (n, .whole held) ∈ (s.store.remove req.authorizationId).pending → Approved held :=
        fun n held hm => h.pending n held (mem_of_mem_eraseP hm)
      refine ⟨he, fun n re hm => ?_⟩
      rcases ho with ⟨rfl, _⟩ | ⟨st, rfl, hs⟩
      · exact h.consumed n re hm
      · rcases mem_append.mp hm with hm | hm
        · exact h.consumed n re hm
        · obtain ⟨_, rfl⟩ := Prod.mk.inj (mem_singleton.mp hm)
          rcases hs with ⟨ht, _⟩ | hw
          · contradiction
          · obtain ⟨held, c, hl, _, rfl⟩ := checkConsume_ok hh
            obtain ⟨x, xs, hr, _⟩ := lookup_eq_some_iff.mp hl
            have ha := h.pending req.authorizationId held (by simp [hr])
            rw [Stored.whole.inj hw]
            exact ⟨ha.authorizationId, ha.sessionId, ha.runId, ha.commands⟩
  | dispose ai => exact ⟨h.pending, h.consumed⟩
  | restart p => exact ⟨h.pending, h.consumed⟩

variable {rs : Records (ConsumedAuthorization A)}

theorem consumedForSession_mem {si : String} {held : PendingAuthorization A}
    (h : readConsumedForSession rules si rs = .ok (some held)) :
    ∃ n cam, (n, .whole ⟨held, cam⟩) ∈ rs := by
  induction rs with
  | nil => simp [readConsumedForSession] at h
  | cons x rs ih =>
    obtain ⟨n, st⟩ := x
    simp only [readConsumedForSession, bind_ok] at h
    obtain ⟨f, hf, h⟩ := h
    split at h
    · obtain rfl := Option.some.inj (ok.inj h)
      simp only [readConsumed, map_ok] at hf
      obtain ⟨re, hr, rfl⟩ := hf
      exact ⟨n, re.consumedAtMs, mem_cons.mpr (.inl (by rw [Stored.read_ok hr]))⟩
    · obtain ⟨n, cam, hm⟩ := ih h
      exact ⟨n, cam, mem_cons_of_mem _ hm⟩

/-- A record of the store that cannot be read is a storage failure. -/
theorem consumedForSession_error {si : String} {e : BrokerError}
    (h : readConsumedForSession rules si rs = .error e) : e = .storage := by
  induction rs with
  | nil => contradiction
  | cons x rs ih =>
    obtain ⟨n, st⟩ := x
    simp only [readConsumedForSession, bind_eq_error] at h
    rcases h with hr | ⟨f, _, h⟩
    · cases st with
      | torn => exact (error.inj hr).symm
      | whole re =>
        simp only [readConsumed, Stored.read] at hr
        split at hr
        · contradiction
        · exact (error.inj hr).symm
    · split at h
      · contradiction
      · exact ih h

/-! ### When a Resume restores -/

section

variable {store : AuthorizationStore A} {se : BrokerSession store} {resumption : Resumption}

variable {ev : StartEvidence}

/-- The process that a validated start names is one. -/
theorem startEvidence_agentPid {si : String}
    (h : resumption.startEvidence si = .ok ev) : ev.agentPid ≠ 0 := by
  simp only [Resumption.startEvidence, bind_ok] at h
  obtain ⟨c, hc, h⟩ := h
  split at h
  · next f hf =>
    obtain rfl := ok.inj h
    obtain ⟨rc, hrc, hs⟩ := bind_eq_some_iff.mp hf
    simp only [ReceiptStore.chain, bind_ok] at hc
    obtain ⟨st, _, hc⟩ := hc
    obtain ⟨b, _, hr⟩ := (mem_of_mapM_ok hc).1 rc (mem_of_getElem? hrc)
    simp only [ReceiptStore.readBack, bind_ok, mapError_ok] at hr
    obtain ⟨p, hpa, _, _, hr⟩ := hr
    obtain rfl := ok.inj hr
    have hv := (ReceiptStore.parseCanonical_ok.mp hpa).2.2.2
    simp only [SignedReceipt.validate, ReceiptPayload.validate, check_ok] at hv
    obtain ⟨_, _, _, hp⟩ := hv
    obtain ⟨_, _, _, _, _, _, _, _, ho, _⟩ := hp
    cases ha : p.payload.outcome with
    | start a ev =>
      rw [ha] at hs
      obtain rfl := Option.some.inj hs
      simp only [ReceiptPayload.validateOutcome, ha, check_ok, require_ok,
        Bool.and_eq_true, bne_iff_ne, ne_eq] at ho
      exact ho.2.1.1.1
    | _ => simp [ReceiptOutcome.startEvidence, ha] at hs
  · contradiction

/-- An accepted limit still is one less what was spent, unless all of it was. -/
theorem boundedUses_remainder {u : Option Nat} {n : Nat} (h : boundedUses u = true)
    (hw : ∀ li, u = some li → n ≤ li) : boundedUses (u.map (· - n)) = true ↔ u ≠ some n := by
  cases u with
  | none => simp [boundedUses]
  | some li =>
    have hl := hw li rfl
    simp only [boundedUses, all_some, Bool.and_eq_true, decide_eq_true_eq, map_some,
      ne_eq, Option.some.injEq] at h ⊢
    omega

/-- The context of a restored owner is valid while its policy has not lapsed. -/
theorem validateContext_restored (ha : Approved se.held) (he : ev.agentPid ≠ 0)
    {p : DelegationPolicy} (hi : p.authorizationId = se.held.authorizationId)
    (hv : p.scope.valid = true) {l : Instant} :
    validateContext (restoredBinding (se.held.launchAuthorization rules) ev) p
      l = .ok () ↔ l < p.expiresAt := by
  have hp : ev.agentPid.toNat ≠ 0 := fun hz =>
    he (UInt32.toNat_inj.mp (by simpa using hz))
  have hc : isRecordIdentifier "agent-capability" = true := by decide
  simp [validateContext, restoredBinding, PendingAuthorization.launchAuthorization, hi,
    ha.authorizationId, ha.sessionId, ha.runId, hc, hp, hv]

/-- What follows a replay of accepted commands restores what they leave, exactly when the start
is known, something is left, and the approval has not lapsed. -/
theorem restoreReplayed_restores (ha : Approved se.held) {commands : ApprovedCommands}
    (hacc : Accepted commands) (hli : resumption.nowMs < commands.expiresAtMs) {n : Nat}
    (hw : ∀ li, commands.uses = some li → n ≤ li) {st : CommandReplay}
    (ht : st.commands = { commands with uses := commands.uses.map (· - n) })
    (hre : st.revoked = false) : (∃ a, restoreReplayed rules se resumption st = .ok (some a) ∧
      a.remaining = st.commands.uses) ↔
      (∃ ev, resumption.startEvidence se.held.sessionId = .ok ev) ∧ commands.uses ≠ some n ∧
        resumption.later < resumption.now + (commands.expiresAtMs - resumption.nowMs) := by
  have hb : boundedUses st.commands.uses = true ↔ commands.uses ≠ some n := by
    rw [ht]
    exact boundedUses_remainder hacc.2.2 hw
  have hs : (se.held.launchAuthorization rules).sessionId = se.held.sessionId := rfl
  constructor
  · rintro ⟨a, h, _⟩
    simp only [restoreReplayed, bind_ok] at h
    obtain ⟨ev, he, h⟩ := h
    split at h
    · simp at h
    · contradiction
    · next p ho =>
      split at h
      · contradiction
      · next re hr =>
        obtain ⟨hl, _, hi, hms, hu, _, hx, _⟩ := policy_eq_ok.mp ho
        simp only [CommandAuthority.restore, check_ok] at hr
        have hv : p.scope.valid = true := by
          rw [CommandScope.valid, hms, hu, hl.2.1, hl.2.2]
          rfl
        have hla := (validateContext_restored ha (startEvidence_agentPid he) hi hv).mp hr.1
        rw [hx, ht] at hla
        exact ⟨⟨ev, he⟩, hb.mp hl.2.2, hla⟩
  · rintro ⟨⟨ev, he⟩, hl, hla⟩
    obtain ⟨d, hp, hd⟩ := hacc.1
    have hm : Accepted st.commands := by
      refine ⟨?_, ?_, hb.mpr hl⟩
      · rw [ht]
        exact hacc.1
      · rw [ht]
        exact hacc.2.1
    let p : DelegationPolicy := ⟨se.held.authorizationId,
      ⟨d, commands.timeoutMs, commands.uses.map (· - n)⟩, commands.allowDelegation,
      resumption.now + (commands.expiresAtMs - resumption.nowMs)⟩
    have ho : st.commands.policy se.held.authorizationId resumption.nowMs
        resumption.now = .ok p := by
      refine policy_eq_ok.mpr ⟨hm, ?_⟩
      rw [ht]
      exact ⟨hli, rfl, rfl, rfl, rfl, rfl, hp⟩
    have hu : p.scope.uses = st.commands.uses := by rw [ht]
    have hv : p.scope.valid = true := by
      rw [CommandScope.valid, hu, hm.2.2, Bool.and_true]
      exact hacc.2.1
    have hc : validateContext (restoredBinding (se.held.launchAuthorization rules) ev) p
          resumption.later = .ok () :=
      (validateContext_restored ha (startEvidence_agentPid he) rfl hv).mpr hla
    have hi : (se.held.launchAuthorization rules).authorizationId =
      se.held.authorizationId := rfl
    simp only [restoreReplayed, hs, hi, he, ok_bind, ho,
      CommandAuthority.restore, hc, hre, hu, beq_self_eq_true]
    exact ⟨_, rfl, rfl⟩

/-- A Session whose records were granted is restored what replay leaves exactly where the
condition holds. -/
theorem restoresRemainder_of_approved (hs : ∀ n re,
    (n, .whole re) ∈ store.consumed → Approved re.authorization) :
    RestoresRemainder rules se resumption ↔ Restorable rules se resumption := by
  have ha : Approved se.held := by
    obtain ⟨n, cam, hm⟩ := se.consumed
    exact hs _ _ hm
  have hrs : ∀ held cs entries st,
      Recorded rules se resumption held entries → held.commands = some cs →
      replay held.source entries resumption.nowMs = .ok st → st.revoked = false →
      ((∃ a, restoreCommandsForResume rules se resumption = .ok (some a) ∧
        a.remaining = st.commands.uses) ↔
        (∃ ev, resumption.startEvidence se.held.sessionId = .ok ev) ∧
          cs.uses ≠ some (spent held.source entries) ∧
          resumption.later < resumption.now + (cs.expiresAtMs - resumption.nowMs)) := by
    intro held cs entries st he hc hr hre
    obtain ⟨n, cam, hm⟩ := consumedForSession_mem he.1
    obtain ⟨f, ho, hl, ht, hw⟩ := replay_remainder hr
    obtain rfl : cs = f := Option.some.inj (hc.symm.trans ho)
    have hg : restoreCommandsForResume rules se resumption =
        restoreReplayed rules se resumption st := by
      simp only [restoreCommandsForResume, he.1, he.2, ok_bind, hr]
    rw [hg]
    exact restoreReplayed_restores ha ((hs _ _ hm).commands cs hc) hl hw ht hre
  constructor
  · rintro h held cs entries he hc ⟨st, hr, hre⟩
    exact (hrs held cs entries st he hc hr hre).mp (h.restored held entries st he hr hre)
  · intro h
    have hres : ∀ held entries st, Recorded rules se resumption held entries →
        replay held.source entries resumption.nowMs = .ok st → st.revoked = false →
        ∃ a, restoreCommandsForResume rules se resumption = .ok (some a) ∧
          a.remaining = st.commands.uses := by
      intro held entries st he hr hre
      obtain ⟨cs, hc, _⟩ := replay_remainder hr
      exact (hrs held cs entries st he hc hr hre).mpr (h held cs entries he hc ⟨st, hr, hre⟩)
    refine ⟨hres, fun hd => ?_⟩
    have hk := hd
    simp only [restoreCommandsForResume, bind_eq_error] at hd
    rcases hd with hf | ⟨f, ho, hd⟩
    · have := consumedForSession_error hf
      contradiction
    cases f with
    | none => exact .inl ho
    | some held =>
      refine .inr ⟨held, ?_⟩
      simp only [bind_eq_error] at hd
      rcases hd with hf | ⟨entries, hes, hd⟩
      · unfold AuditLog.read at hf
        split at hf
        · simp [Resumption.denied] at hf
        · contradiction
      refine ⟨entries, ⟨ho, hes⟩, ?_⟩
      cases hr : replay held.source entries resumption.nowMs with
      | error refusal =>
        cases refusal with
        | notApproved => simp [hr] at hd
        | expired => simp [hr] at hd
        | notConsumed => exact .inl rfl
        | contradictory => exact .inr (.inl rfl)
      | ok st =>
        cases hre : st.revoked with
        | true => exact .inr (.inr ⟨st, rfl, hre⟩)
        | false =>
          obtain ⟨a, hok, _⟩ :=
            hres held entries st ⟨ho, hes⟩ hr hre
          rw [hk] at hok
          contradiction

end

/-- In every run of the store, a Resume restores what replay leaves of each Session, and denies
it for no other reason, exactly where the Session has not spent its whole limit, its start is on
record, and the approval has not lapsed meanwhile. -/
theorem restoresRemainder_iff (rules : Rules A) (pool : IdentityPool) (clock : UInt64)
    (events : List (Event A)) : Always (System.step rules)
      (fun s => ∀ (session : BrokerSession s.store) (resumption : Resumption),
        RestoresRemainder rules session resumption ↔ Restorable rules session resumption)
      (.opened pool clock) events := by
  have ha : Always (System.step rules) AllApproved (.opened pool clock) events :=
    always_of_throughout (C := fun _ _ => True) (fun _ e h _ => h.step e)
      (.opened pool clock) (throughout_of_forall (fun _ _ => trivial) _ _)
  exact ha.mono fun s h session resumption => restoresRemainder_of_approved h.consumed

/-! ### An approval that is used up -/

section

open Launch.Protocol (zeroHash zeroText)
open ReceiptStore (longFiles longReceipt longState longStore)

/-- One approved use of one command. -/
def onceGrant : GrantRequest noApprovals :=
  { plainGrant with
    request := ⟨requestSchema, 1, "b", "authorization", "session", "run", "agent", "envelope", 1,
      (), zeroText⟩
    commands := some ⟨zeroText, 1000, some 1, true, 9000⟩ }

def onceEvents : List (Event noApprovals) :=
  [.authorize onceGrant 5 (fun _ => .ok false) (.ok ()) .none,
    .consume onceGrant.request 1000 6 .ok .none .none]

def onceStore : AuthorizationStore noApprovals :=
  (onceEvents.foldl (System.step plainRules) (.opened ⟨1, 1, 4⟩ 1)).store

def onceHeld : PendingAuthorization noApprovals := onceGrant.pending plainRules ⟨0, 1, 1⟩

private theorem onceStore_consumed :
    onceStore.consumed = [("authorization", .whole ⟨onceHeld, 6⟩)] := by
  rfl

def onceSession : BrokerSession onceStore where
  held := onceHeld
  consumed := ⟨"authorization", 6, by simp [onceStore_consumed]⟩

/-- The record after the only approved command has finished. -/
def onceEntries : List AuditEntry :=
  [⟨7, "session", "run", "authorization", 0, .authorizationConsumed⟩,
    ⟨8, "session", "run", "authorization", 0, .effectCommitIntent none 1⟩,
    ⟨9, "session", "run", "authorization", 0, .effectFinished none 1 true⟩]

noncomputable def onceResumption : Resumption where
  sha256 := zeroHash
  fmt := Compact.format
  receipts := longStore
  files := longFiles 2
  log := ⟨onceEntries, .clean⟩
  status := Protocol.caughtUp
  nowMs := 100
  now := 0
  later := 0

private theorem once_recorded :
    Recorded plainRules onceSession onceResumption onceHeld onceEntries :=
  ⟨rfl, rfl⟩

private theorem once_replay : ∃ st,
    replay onceHeld.source onceEntries onceResumption.nowMs = .ok st ∧
      st.revoked = false ∧ st.commands = ⟨zeroText, 1000, some 0, true, 9000⟩ :=
  ⟨_, rfl, rfl, rfl⟩

private theorem once_startEvidence : onceResumption.startEvidence "session" =
    .ok ⟨1, 1, 1, zeroText, false⟩ := by
  have hc : longStore.chain zeroHash Compact.format (longFiles 2) "session" =
      .ok ((List.range 2).map longReceipt) :=
    (longState (by decide)).keeps.chain (by decide) (by decide)
  simp only [Resumption.startEvidence, onceResumption, hc, ok_bind]
  rfl

/-- A Session that has used its last command is replayed with nothing left, and not resumed. -/
theorem last_use_unrestored :
    restoreCommandsForResume plainRules onceSession onceResumption = .error .invalidGrant ∧
      ¬ RestoresRemainder plainRules onceSession onceResumption := by
  obtain ⟨st, he, hv, hc⟩ := once_replay
  have ho : st.commands.policy "authorization" onceResumption.nowMs onceResumption.now =
      .error .invalidGrant := by
    have hp : Digest.parse zeroText = .ok (Digest.fromRaw (Vector.replicate 32 0)) :=
      Digest.parse_toString _
    have hb : boundedUses (some 0) = false := rfl
    simp [hc, ApprovedCommands.policy, hp, CommandScope.valid, hb, require, bind, Except.bind]
  have hs : (onceSession.held.launchAuthorization plainRules).sessionId = "session" := rfl
  have hi : (onceSession.held.launchAuthorization plainRules).authorizationId = "authorization" :=
    rfl
  have hr : restoreCommandsForResume plainRules onceSession onceResumption =
      .error .invalidGrant := by
    simp only [restoreCommandsForResume, once_recorded.1, once_recorded.2, ok_bind, he,
      restoreReplayed, hs, hi, once_startEvidence, ho]
  refine ⟨hr, fun h => ?_⟩
  obtain ⟨a, hrs, _⟩ :=
    h.restored onceHeld onceEntries st once_recorded he hv
  exact absurd (hr.symm.trans hrs) (by simp)

end

end Louiselm.Broker.Authorization
