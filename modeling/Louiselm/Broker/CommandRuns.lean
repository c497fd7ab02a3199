import Louiselm.Base.Runs
import Louiselm.Broker.CommandLedger
import Louiselm.Broker.Commands

/-!
# A command budget across appends that fail and restarts

The owner of `broker/commands.rs` charges the accounts before it records a charge, and a
failed append closes it. So whatever is answered has an entry, and the accounts that the
record replays to are those the owner had at the last charge that became durable.
-/

namespace Louiselm.Broker
open Base Canonical Launch List CommandAuthority Accounts Charge
open Option (some.inj all_some)
open Except (ok.inj)

/-! ### Appends -/

/-- What an append of one entry does to the record, and whether it was reported written. -/
def Written (log : AuditLog) (entry : AuditEntry) (ok : Bool) (after : AuditLog) : Prop :=
  (after.tail = .broken ∧ after.entries <+: log.entries) ∨ log.tail ≠ .broken ∧
      (after.entries = log.entries ++ [entry] ∨ after.entries = log.entries ∧ ok = false)

theorem AuditLog.write_cases (log : AuditLog) (entry : AuditEntry) (f : AppendFault) :
    Written log entry (decide (f = .none)) (log.write entry f) := by
  have hp : log.entries.dropLast <+: log.entries := dropLast_prefix _
  cases ht : log.tail <;> cases f <;> simp [Written, write, ht, hp]

variable {log after : AuditLog} {entry : AuditEntry}

theorem AuditLog.record_written {f : AppendFault} {r : Except BrokerError Unit}
    (h : log.record entry f = (r, after)) : Written log entry r.isOk after := by
  unfold record at h
  split at h
  · simp only [Prod.mk.injEq] at h
    obtain ⟨rfl, rfl⟩ := h
    have ho : (if f = .none then .ok () else .error .storage : Except BrokerError Unit).isOk =
        decide (f = .none) := by
      split <;> simp_all [Except.isOk, Except.toBool]
    rw [ho]
    exact log.write_cases entry f
  · simp only [Prod.mk.injEq] at h
    obtain ⟨rfl, rfl⟩ := h
    by_cases ht : log.tail = .broken
    · exact .inl ⟨ht, prefix_refl _⟩
    · exact .inr ⟨ht, .inr ⟨rfl, rfl⟩⟩

/-! ### The owner keeps the accounts -/

def Grant.share (granted : Grant) : Share :=
  ⟨granted.scope.uses, granted.remaining, granted.sequence⟩

/-- An owner after a step that keeps its context and may close it. -/
structure Continues (a b : CommandAuthority) : Prop where
  binding : b.binding = a.binding
  policy : b.policy = a.policy
  active : b.active = true → a.active = true

namespace CommandAuthority

variable {a : CommandAuthority} {log : AuditLog} {am : Ambient}

/-- The accounts an owner keeps. -/
def accounts (a : CommandAuthority) : Accounts where
  remaining := a.remaining
  principalSequence := a.principalSequence
  dispatchSequence := a.dispatchSequence
  grantSequence := a.grantSequence
  grants := a.grants.map fun item => (item.1, item.2.share)

variable {decision : AuditDecision} {b : CommandAuthority} {after : AuditLog}

/-- The end of a call that records a decision: written, and gone on from, or closed. -/
theorem recorded_cases {α : Type}
    {go : CommandAuthority → Except DelegationError α × CommandAuthority}
    {r : Except DelegationError α} (h : a.recorded log am decision go = (r, b, after)) :
    ∃ atMs ok, Written log (a.entry atMs decision) ok after ∧ (ok = true → (r, b) = go a) ∧
      (ok = false → b = { a with active := false } ∧ ∃ error, r = .error error) := by
  unfold recorded record at h
  cases hc : am.atMs with
  | none =>
    simp only [hc, Prod.mk.injEq] at h
    obtain ⟨rfl, rfl, rfl⟩ := h
    refine ⟨0, false, ?_, by simp, fun _ => ⟨rfl, _, rfl⟩⟩
    by_cases ht : log.tail = .broken
    · exact .inl ⟨ht, prefix_refl _⟩
    · exact .inr ⟨ht, .inr ⟨rfl, rfl⟩⟩
  | some atMs =>
    simp only [hc] at h
    cases hr : log.record (a.entry atMs decision) am.fault with
    | mk recorded l' =>
      have hw := AuditLog.record_written hr
      rw [hr] at h
      cases recorded with
      | ok u =>
        simp only [Prod.mk.injEq] at h
        obtain ⟨rfl, rfl, rfl⟩ := h
        exact ⟨atMs, true, hw, fun _ => rfl, by simp⟩
      | error error =>
        simp only [Prod.mk.injEq] at h
        obtain ⟨rfl, rfl, rfl⟩ := h
        exact ⟨atMs, false, hw, by simp, fun _ => ⟨rfl, _, rfl⟩⟩

/-- Nothing is charged: the record is as it was or has one more inert entry. -/
structure Quiet (a : CommandAuthority) (log : AuditLog) (b : CommandAuthority) (after : AuditLog) :
    Prop where
  continues : Continues a b
  accounts : b.accounts = a.accounts
  log : after = log ∨ ∃ atMs decision ok, decision.inert = true ∧
    Written log (a.entry atMs decision) ok after

theorem Quiet.refl (a : CommandAuthority) (log : AuditLog) : Quiet a log a log :=
  ⟨⟨rfl, rfl, id⟩, rfl, .inl rfl⟩

/-- A recorded inert decision charges nothing where what follows it charges nothing. -/
theorem quiet_recorded {α : Type} {a' : CommandAuthority}
    {go : CommandAuthority → Except DelegationError α × CommandAuthority}
    {r : Except DelegationError α} (h : a'.recorded log am decision go = (r, b, after))
    (hi : decision.inert = true) (hc : Continues a a') (ha : a'.accounts = a.accounts)
    (hg : Continues a' (go a').2 ∧ (go a').2.accounts = a'.accounts) : Quiet a log b after := by
  obtain ⟨atMs, ok, hw, ho, hf⟩ := recorded_cases h
  have he : a'.entry atMs decision = a.entry atMs decision := by
    simp only [entry, hc.binding, hc.policy]
  rw [he] at hw
  have hb : Continues a' b ∧ b.accounts = a'.accounts := by
    cases ok with
    | true =>
      obtain rfl : b = (go a').2 := congrArg Prod.snd (ho rfl)
      exact hg
    | false =>
      obtain ⟨rfl, _⟩ := hf rfl
      exact ⟨⟨rfl, rfl, by simp⟩, rfl⟩
  exact {
    continues := ⟨hb.1.binding.trans hc.binding, hb.1.policy.trans hc.policy,
      fun hac => hc.active (hb.1.active hac)⟩
    accounts := hb.2.trans ha
    log := .inr ⟨atMs, decision, ok, hi, hw⟩ }

theorem refuse_quiet {α : Type} {r : Refusal} {re : Except DelegationError α}
    (h : a.refuse log am r = (re, b, after)) : Quiet a log b after := by
  cases r with
  | plain e =>
    simp only [refuse, Prod.mk.injEq] at h
    obtain ⟨_, rfl, rfl⟩ := h
    exact .refl a log
  | denied e => exact quiet_recorded h rfl ⟨rfl, rfl, id⟩ rfl ⟨⟨rfl, rfl, id⟩, rfl⟩
  | lapsed => exact quiet_recorded h rfl ⟨rfl, rfl, by simp⟩ rfl ⟨⟨rfl, rfl, id⟩, rfl⟩

theorem refuse_error {α : Type} {r : Refusal} {re : Except DelegationError α}
    (h : a.refuse log am r = (re, b, after)) : ∃ e, re = .error e := by
  have hr : ∀ {a' : CommandAuthority} {decision : AuditDecision} {e : DelegationError},
      a'.recorded log am decision (fun a => (.error e, a)) = (re, b, after) →
      ∃ e, re = .error e := by
    intro a' decision e h
    obtain ⟨_, ok, _, ho, hf⟩ := recorded_cases h
    cases ok with
    | true => exact ⟨e, congrArg Prod.fst (ho rfl)⟩
    | false => exact (hf rfl).2
  cases r with
  | plain e => exact ⟨e, (congrArg Prod.fst h).symm⟩
  | denied e => exact hr h
  | lapsed => exact hr h

/-! ### What a passed check covers -/

theorem addChecked_eq_some {bi n m : Nat} (h : addChecked bi n 1 = some m) : m = n + 1 := by
  unfold addChecked at h
  split at h
  · exact (some.inj h).symm
  · contradiction

variable {sha256 : Sha256} {command : ToolExecutionRequest} {seq : Nat} {sp : Spend}

/-- A spend that passed its check is the next use of what it is spent from. -/
theorem checkSpend_ok {g : Option Nat} {sc : CommandScope} {ea : Instant} {r : Option Nat}
    (h : a.checkSpend sha256 am command g sc ea seq r = .ok sp) :
    sp.grant = g ∧ sp.dispatchSequence = a.dispatchSequence + 1 ∧
      command.sequence = seq + 1 ∧ r ≠ some 0 := by
  simp only [checkSpend, check_ok, require_ok, Bool.and_eq_true, beq_iff_eq, bne_iff_ne] at h
  obtain ⟨_, _, ⟨hs, _⟩, hr, h⟩ := h
  cases hd : addChecked 64 a.dispatchSequence 1 with
  | none => simp [hd] at h
  | some dispatchSequence =>
    simp only [hd, Except.ok.injEq] at h
    subst h
    exact ⟨rfl, addChecked_eq_some hd, addChecked_eq_some hs, hr⟩

variable {principal : CommandPrincipal}

/-- A command that passed its check is a use the accounts cover. -/
theorem checkCommand_ok (h : a.checkCommand sha256 am principal command = .ok sp) :
    a.active = true ∧ a.grantOf principal = some sp.grant ∧
      sp.dispatchSequence = a.dispatchSequence + 1 ∧
      (use sp.grant command.sequence).Allowed a.accounts := by
  simp only [checkCommand, check_ok, require_ok] at h
  obtain ⟨ha, _, h⟩ := h
  refine ⟨ha, ?_⟩
  rcases hr : a.grantOf principal with _ | _ | id
  · simp [hr] at h
  · simp only [hr] at h
    obtain ⟨hg, hd, hs, he⟩ := checkSpend_ok h
    rw [hg]
    exact ⟨rfl, hd, hs, he⟩
  · simp only [hr] at h
    cases hl : a.grants.lookup id with
    | none => simp [hl] at h
    | some g =>
      simp only [hl, check_ok, require_ok] at h
      obtain ⟨_, h⟩ := h
      obtain ⟨hg, hd, hs, he⟩ := checkSpend_ok h
      rw [hg]
      refine ⟨rfl, hd, g.share, ?_, hs, he⟩
      rw [accounts, lookup_map, hl]
      rfl

variable {tool : CommandPrincipal} {req : GrantRequest}

/-- A delegation that passed its check is a reservation the accounts cover. -/
theorem checkDelegation_ok {g : Grant} (h : a.checkDelegation am principal tool req = .ok g) :
    a.active = true ∧ g.share = ⟨req.uses, req.uses, 0⟩ ∧
      (reservation req.sequence req.uses).Allowed a.accounts := by
  simp only [checkDelegation, check_ok, require_ok, beq_iff_eq] at h
  obtain ⟨ha, _, _, hs, h⟩ := h
  refine ⟨ha, ?_⟩
  cases hd : Digest.parse req.commandDigest with
  | error error => simp [hd] at h
  | ok d =>
    simp only [hd, check_ok, require_ok, Bool.and_eq_true] at h
    obtain ⟨_, ⟨hw, _⟩, _, hu, h⟩ := h
    obtain rfl := ok.inj h
    simp only [CommandScope.isWithin, CommandScope.valid, Bool.and_eq_true] at hw
    obtain ⟨⟨⟨⟨⟨_, hb⟩, _⟩, _⟩, _⟩, _⟩ := hw
    refine ⟨rfl, addChecked_eq_some hs, fun n hn => ?_, fun l hl => ?_⟩
    · simp only [boundedUses, hn, all_some, Bool.and_eq_true, decide_eq_true_eq] at hb
      omega
    · change a.remaining = some l at hl
      simp only [usesWithin, hl, all_some, Option.any_eq_true] at hu
      obtain ⟨n, hn, he⟩ := hu
      exact ⟨n, hn, of_decide_eq_true he⟩

theorem spend_accounts (h : sp.dispatchSequence = a.dispatchSequence + 1) :
    (a.spend command sp).accounts = (use sp.grant command.sequence).apply a.accounts := by
  cases hg : sp.grant with
  | none => simp [spend, hg, accounts, apply, h]
  | some id =>
    simp only [spend, hg, accounts, apply, h]
    congr 1
    exact map_modifyAt Grant.share fun g => rfl

theorem reserve_accounts {g : Grant} {uses : Option Nat} (h : g.share = ⟨uses, uses, 0⟩) :
    (a.reserve seq g).accounts = (reservation seq uses).apply a.accounts := by
  have hu : g.scope.uses = uses := congrArg Share.reserved h
  cases hr : a.remaining <;> cases uses <;>
    simp [reserve, accounts, apply, hu, hr, h]

/-! ### One call -/

/-- What one call leaves: nothing is charged, or a charge it covered is recorded and, where
that succeeded, may be answered. -/
inductive Turn (a : CommandAuthority) (log : AuditLog) (sent : Option Charge)
    (b : CommandAuthority) (after : AuditLog) : Prop
  | quiet (left : Quiet a log b after) (unanswered : sent = none)
  | charged (c : Charge) (pid atMs : Nat) (ok : Bool) (active : a.active = true)
      (allowed : c.Allowed a.accounts) (continues : Continues a b)
      (accounts : b.accounts = c.apply a.accounts)
      (written : Written log (a.entry atMs (c.decision pid a.binding.envelopeRevision)) ok after)
      (closed : ok = false → b.active = false ∧ sent = none)
          (answered : sent = none ∨ sent = some c)

/-- A charge made before it is recorded, with what is answered once it is. -/
theorem turn_recorded {α : Type} {a' : CommandAuthority} {c : Charge} (pid : Nat)
    {v : CommandAuthority → Except DelegationError α} {an : α → Option Charge}
    {re : Except DelegationError α}
    (h : a'.recorded log am (c.decision pid a.binding.envelopeRevision)
    (fun a => (v a, a)) = (re, b, after))
    (hac : a.active = true) (hl : c.Allowed a.accounts) (hc : Continues a a')
    (ha : a'.accounts = c.apply a.accounts) (hn : ∀ r, v a' = .ok r → an r = none ∨ an r = some c) :
    Turn a log (re.toOption.bind an) b after := by
  obtain ⟨atMs, ok, hw, ho, hf⟩ := recorded_cases h
  have he : ∀ decision, a'.entry atMs decision = a.entry atMs decision := by
    intro decision
    simp only [entry, hc.binding, hc.policy]
  rw [he] at hw
  cases ok with
  | true =>
    obtain ⟨rfl, rfl⟩ := Prod.mk.inj (ho rfl)
    refine .charged c pid atMs true hac hl hc ha hw (by simp) ?_
    cases hv : v b with
    | error error => exact .inl rfl
    | ok r => exact hn r hv
  | false =>
    obtain ⟨rfl, error, rfl⟩ := hf rfl
    exact .charged c pid atMs false hac hl
      ⟨hc.binding, hc.policy, by simp⟩ ha hw (fun _ => ⟨rfl, rfl⟩) (.inl rfl)

/-- The charge that a reply to an operation hands out. -/
def answered (a : CommandAuthority) (operation reply : CommandOperation) : Option Charge :=
  match operation, reply with
  | .request principal command, .authorize .. =>
    some (.use ((a.grantOf principal).getD none) command.sequence)
  | .delegationRequest _ _ grant, .granted .. => some (.reservation grant.sequence grant.uses)
  | _, _ => none

variable {res : Except DelegationError CommandOperation}

theorem authorize_turn (h : a.authorize sha256 log am principal command = (res, b, after)) :
    Turn a log (res.toOption.bind (a.answered (.request principal command))) b after := by
  unfold authorize at h
  split at h
  · next r hc =>
    obtain ⟨e, rfl⟩ := refuse_error h
    exact .quiet (refuse_quiet h) rfl
  · next sp hc =>
    obtain ⟨hac, hg, hd, ha⟩ := checkCommand_ok hc
    refine turn_recorded 0 h hac ha ?_ (spend_accounts hd) ?_
    · unfold spend
      split <;> exact ⟨rfl, rfl, id⟩
    · intro re hr
      simp only [Except.map] at hr
      split at hr
      · contradiction
      · obtain rfl := ok.inj hr
        exact .inr (by simp [answered, hg])

theorem delegate_turn (h : a.delegate log am principal tool req = (res, b, after)) :
    Turn a log (res.toOption.bind (a.answered (.delegationRequest principal tool req))) b
      after := by
  unfold delegate at h
  split at h
  · next r hc =>
    obtain ⟨e, rfl⟩ := refuse_error h
    exact .quiet (refuse_quiet h) rfl
  · next g hc =>
    obtain ⟨hac, hs, ha⟩ := checkDelegation_ok hc
    refine turn_recorded (c := .reservation req.sequence req.uses) tool.pid h
      hac ha ⟨rfl, rfl, id⟩ (reserve_accounts hs) ?_
    intro re hr
    simp only [Except.map] at hr
    split at hr
    · contradiction
    · obtain rfl := ok.inj hr
      exact .inr rfl

theorem setRevocation_accounts (id : Nat) (r : String × Bool) :
    (a.setRevocation id r).accounts = a.accounts := by
  simp only [accounts, setRevocation, modifyAt, map_map]
  congr 1
  refine map_congr_left fun x _ => ?_
  simp only [Function.comp_apply]
  split <;> rfl

variable {ri : String}

theorem revokeGrant_quiet {g : Nat} {res : Except DelegationError CommandMessage}
    (h : a.revokeGrant log am ri g = (res, b, after)) : Quiet a log b after := by
  unfold revokeGrant at h
  split at h
  · split at h
    · obtain ⟨_, rfl, rfl⟩ := h
      exact .refl a log
    · split at h
      · obtain ⟨_, rfl, rfl⟩ := h
        exact .refl a log
      · exact quiet_recorded h rfl ⟨rfl, rfl, id⟩ (setRevocation_accounts ..) ⟨⟨rfl, rfl, id⟩, rfl⟩
  · obtain ⟨_, rfl, rfl⟩ := h
    exact .refl a log

theorem revoke_quiet {res : Except DelegationError CommandMessage}
    (h : a.revoke log am ri = (res, b, after)) : Quiet a log b after := by
  unfold revoke at h
  split at h
  · exact quiet_recorded h rfl ⟨rfl, rfl, by simp⟩ rfl ⟨⟨rfl, rfl, id⟩, rfl⟩
  · obtain ⟨_, rfl, rfl⟩ := h
    exact .refl a log

theorem recordGrantRevocation_quiet {g : Nat} {e : Bool} {res : Except DelegationError Unit}
    (h : a.recordGrantRevocation log am ri g e = (res, b, after)) :
    Quiet a log b after := by
  unfold recordGrantRevocation at h
  split at h
  · split at h
    · exact quiet_recorded h rfl ⟨rfl, rfl, id⟩ rfl ⟨⟨rfl, rfl, id⟩, setRevocation_accounts ..⟩
    · obtain ⟨_, rfl, rfl⟩ := h
      exact .refl a log
  · obtain ⟨_, rfl, rfl⟩ := h
    exact .refl a log

theorem recordOutcome_quiet {o : CommandOutcome} {res : Except DelegationError Unit}
    (h : a.recordOutcome log am ri seq o = (res, b, after)) :
    Quiet a log b after := by
  unfold recordOutcome at h
  split at h
  · obtain ⟨_, rfl, rfl⟩ := h
    exact .refl a log
  · dsimp only at h
    split at h
    · obtain ⟨_, rfl, rfl⟩ := h
      exact .refl a log
    · exact quiet_recorded h (by split <;> rfl) ⟨rfl, rfl, id⟩ rfl ⟨⟨rfl, rfl, id⟩, rfl⟩

theorem recordRevocation_quiet {e : Bool} {res : Except DelegationError Unit}
    (h : a.recordRevocation log am ri e = (res, b, after)) :
    Quiet a log b after := by
  unfold recordRevocation at h
  split at h
  · split at h
    · exact quiet_recorded h rfl ⟨rfl, rfl, id⟩ rfl ⟨⟨rfl, rfl, id⟩, rfl⟩
    · obtain ⟨_, rfl, rfl⟩ := h
      exact .refl a log
  · obtain ⟨_, rfl, rfl⟩ := h
    exact .refl a log

variable {msg : CommandMessage}

theorem operate_turn (h : a.operate sha256 log am msg = (res, b, after)) :
    Turn a log (res.toOption.bind (a.answered msg.operation)) b after := by
  have hq : ∀ {operation : CommandOperation} {res : Except DelegationError CommandOperation}
      (_ : ∀ r, a.answered operation r = none), Quiet a log b after →
      Turn a log (res.toOption.bind (a.answered operation)) b after := by
    intro operation res hn hq
    refine .quiet hq ?_
    cases res.toOption with
    | none => rfl
    | some r => exact hn r
  unfold operate at h
  cases hop : msg.operation with
  | request principal command => exact authorize_turn (by simpa only [hop] using h)
  | delegationRequest principal tool g => exact delegate_turn (by simpa only [hop] using h)
  | grantRevoked g e =>
    simp only [hop, Prod.mk.injEq] at h
    exact hq (fun _ => rfl) (recordGrantRevocation_quiet (Prod.ext rfl h.2))
  | outcome seq outcome =>
    simp only [hop, Prod.mk.injEq] at h
    exact hq (fun _ => rfl) (recordOutcome_quiet (Prod.ext rfl h.2))
  | revoked e =>
    simp only [hop, Prod.mk.injEq] at h
    exact hq (fun _ => rfl) (recordRevocation_quiet (Prod.ext rfl h.2))
  | _ => exact hq (fun _ => rfl) (refuse_quiet (by simpa only [hop] using h))

/-- A handled message charges at most what its reply hands out. -/
theorem handle_turn {l : Lengths} {res : Except DelegationError CommandMessage}
    (h : a.handle l sha256 log am msg = (res, b, after)) :
    Turn a log (res.toOption.bind fun r => a.answered msg.operation r.operation) b
      after := by
  unfold handle at h
  split at h
  · obtain ⟨rfl, rfl, rfl⟩ := h
    exact .quiet (.refl a log) rfl
  · split at h
    · split at h
      next o b' ho =>
        simp only [Prod.mk.injEq] at h
        obtain ⟨rfl, rfl⟩ := h
        have ht := operate_turn ho
        cases o with
        | error error => exact ht
        | ok operation => exact ht
    · obtain ⟨error, rfl⟩ := refuse_error h
      exact .quiet (refuse_quiet h) rfl

end CommandAuthority

/-! ### Runs of one Session -/

/-- The consumed authorization of one Session and the evidence of its start. -/
structure Session where
  lengths : Lengths
  sha256 : Sha256
  source : Source
  assignedUid : Nat
  assignedGid : Nat
  agentPid : Nat

/-- The context of the owner that a launch or a Resume builds. -/
def Session.binding (session : Session) : CapabilityBinding where
  sessionId := session.source.sessionId
  runId := session.source.runId
  channelId := "agent-capability"
  envelopeRevision := session.source.envelopeRevision
  identitySlot := session.source.identitySlot
  assignedUid := session.assignedUid
  assignedGid := session.assignedGid
  agentPid := session.agentPid

/-- The restored authority, `none` where the Session has no live command approval, or a typed
refusal; what names the refusal's state is given. -/
def Session.restoreCommandsForResume (session : Session) (log : AuditLog) (denied : BrokerError)
    (nowMs : Nat) (now : Instant) : Except BrokerError (Option CommandAuthority) :=
  match log.read with
  | .error error => .error error
  | .ok entries =>
    match replay session.source entries nowMs with
    | .error .notApproved => .ok none
    | .error .expired => .ok none
    | .error _ => .error denied
    | .ok state =>
      match state.commands.policy session.source.authorizationId nowMs now with
      | .error .expired => .ok none
      | .error error => .error error
      | .ok policy =>
        match restore session.binding policy state now with
        | .error _ => .error denied
        | .ok a => .ok (some a)

/-- The operator's record, the Session's owner while the broker runs, and the charges it
answered so far. -/
structure System where
  log : AuditLog
  live : Option CommandAuthority
  replies : List Charge

/-- A message or a revocation for the owner, an append by another part of the broker, a
restart, or a Resume that restores the owner. -/
inductive Event (source : Source) where
  | message (ambient : Ambient) (message : CommandMessage)
  | revoke (ambient : Ambient) (requestId : String)
  | revokeGrant (ambient : Ambient) (requestId : String) (grant : Nat)
  | other (entry : { entry : AuditEntry // Bystander source entry }) (fault : AppendFault)
  | restart
  | resume (denied : BrokerError) (nowMs : Nat) (now : Instant)

namespace System

/-- The system after a call to the owner, with the charge it answered. -/
def called (s : System) (b : CommandAuthority) (log : AuditLog) (sent : Option Charge) :
    System where
  log
  live := some b
  replies := s.replies ++ sent.toList

def step (session : Session) (s : System) (event : Event session.source) : System :=
  match event, s.live with
  | .message ambient message, some a =>
    match a.handle session.lengths session.sha256 s.log ambient message with
    | (result, b, log) => s.called b log
      (result.toOption.bind fun reply => a.answered message.operation reply.operation)
  | .revoke ambient requestId, some a =>
    match a.revoke s.log ambient requestId with
    | (_, b, log) => s.called b log none
  | .revokeGrant ambient requestId grant, some a =>
    match a.revokeGrant s.log ambient requestId grant with
    | (_, b, log) => s.called b log none
  | .other entry fault, _ => { s with log := (s.log.record entry fault).2 }
  | .restart, _ => { s with live := none }
  | .resume denied nowMs now, none =>
    match session.restoreCommandsForResume s.log denied nowMs now with
    | .ok live => { s with live }
    | .error _ => s
  | _, _ => s

end System

/-- A ledger behind a state of the system: it covers every charge that was answered, is the
record's while the record can be read, and leaves what the owner has, who is closed once one
of its charges may not have become durable. -/
structure Behind (session : Session) (uses : Option Nat) (s : System) (ledger : List Charge) :
    Prop where
  covered : Covered uses ledger
  answered : s.replies.Sublist ledger
  recorded : s.log.tail ≠ .broken → ledger = charges session.source s.log.entries ∧
    Kept session.source uses s.log.entries
  owner : ∀ a, s.live = some a → a.binding = session.binding ∧
    a.policy.authorizationId = session.source.authorizationId
  current : ∀ a, s.live = some a → Tracks a.accounts (total uses ledger) ∨
    a.active = false ∧ ∃ c : Charge, c.Allowed (total uses ledger) ∧
      Tracks a.accounts (c.apply (total uses ledger))

variable {commands : ApprovedCommands} {now : Instant} {policy : DelegationPolicy}

/-- A policy is of its commands: their uses, within the protocol's bounds. -/
theorem ApprovedCommands.policy_ok {ai : String} {ms : Nat}
    (h : commands.policy ai ms now = .ok policy) :
    policy.authorizationId = ai ∧ policy.scope.uses = commands.uses ∧
      ∀ n, commands.uses = some n → n ≤ 64 := by
  unfold ApprovedCommands.policy at h
  split at h
  · contradiction
  · simp only [check_ok, require_ok, Bool.and_eq_true, CommandScope.valid] at h
    obtain ⟨⟨_, _, hb⟩, _, h⟩ := h
    obtain rfl := ok.inj h
    refine ⟨rfl, rfl, fun n hn => ?_⟩
    simp only [boundedUses, hn, all_some, Bool.and_eq_true, decide_eq_true_eq] at hb
    exact hb.2

/-- A fresh owner has what its policy approves. -/
theorem CommandAuthority.new_ok {bi : CapabilityBinding} {a : CommandAuthority}
    (h : new bi policy log now = .ok a) :
    a.binding = bi ∧ a.policy = policy ∧ a.accounts = .start policy.scope.uses := by
  simp only [new, bind_ok] at h
  obtain ⟨_, _, _, _, _, _, h⟩ := h
  obtain rfl := ok.inj h
  exact ⟨rfl, rfl, rfl⟩

namespace Behind
open CommandAuthority (Quiet Turn)

variable {se : Session} {us : Option Nat} {s : System} {led : List Charge}

variable {after : AuditLog}

/-- One more entry that charges nothing leaves the record's ledger as it is. -/
theorem recorded_bystander (h : Behind se us s led) {entry : AuditEntry} {ok : Bool}
    (he : Bystander se.source entry) (hw : Written s.log entry ok after)
    (ha : after.tail ≠ .broken) :
    led = charges se.source after.entries ∧ Kept se.source us after.entries := by
  rcases hw with ⟨hb, _⟩ | ⟨hr, hs | ⟨hs, _⟩⟩
  · exact absurd hb ha
  · obtain ⟨hl, hk⟩ := h.recorded hr
    rw [hs, charges_append_bystander he]
    exact ⟨hl, hk.bystander he⟩
  · rw [hs]
    exact h.recorded hr

variable {a : CommandAuthority}

/-- Every entry of the Session's owner is attributed to its authorization. -/
theorem attributed (h : Behind se us s led) (ha : s.live = some a) (atMs : Nat)
    (decision : AuditDecision) : (a.entry atMs decision).sessionId = se.source.sessionId ∧
      ReplayState.attributed se.source (a.entry atMs decision) = true := by
  obtain ⟨hb, hu⟩ := h.owner a ha
  simp [entry, ReplayState.attributed, hb, hu, Session.binding]

/-- A call that charges nothing keeps the ledger. -/
theorem quiet (h : Behind se us s led) {b : CommandAuthority} (ha : s.live = some a)
    (hq : Quiet a s.log b after) : Behind se us (s.called b after none) led where
  covered := h.covered
  answered := by simpa [System.called] using h.answered
  recorded := by
    intro hf
    rcases hq.log with hl | ⟨atMs, decision, ok, hi, hw⟩
    · obtain rfl : after = s.log := hl
      exact h.recorded hf
    · exact h.recorded_bystander (.inr ⟨(h.attributed ha atMs decision).2, hi⟩) hw hf
  owner := by
    rintro _ ⟨rfl⟩
    obtain ⟨hbi, hu⟩ := h.owner a ha
    exact ⟨hq.continues.binding.trans hbi, (congrArg _ hq.continues.policy).trans hu⟩
  current := by
    rintro _ ⟨rfl⟩
    rw [hq.accounts]
    refine (h.current a ha).imp id fun ⟨hc, hr⟩ => ⟨?_, hr⟩
    cases hb : b.active with
    | false => rfl
    | true => rw [hq.continues.active hb] at hc; contradiction

/-- A call of the owner leaves a ledger behind: the same, or with the charge it made. -/
theorem turn (h : Behind se us s led) {b : CommandAuthority} {sent : Option Charge}
    (hu : ∀ n, us = some n → n < 2 ^ 32) (ha : s.live = some a) (htu : Turn a s.log sent b after) :
    ∃ led, Behind se us (s.called b after sent) led := by
  cases htu with
  | quiet hq hse => exact ⟨led, hse ▸ h.quiet ha hq⟩
  | charged c pid atMs ok hact hal hc hac hw hcl hn =>
    have ht : Tracks a.accounts (total us led) := by
      rcases h.current a ha with ht | ⟨hi, _⟩
      · exact ht
      · rw [hact] at hi
        contradiction
    have hco := ht.allowed hal
    have hat : Tracks b.accounts (c.apply (total us led)) :=
      hac ▸ ht.apply hal h.covered.fresh
    have ho : ∀ b', some b = some b' → b'.binding = se.binding ∧
        b'.policy.authorizationId = se.source.authorizationId := by
      rintro _ ⟨rfl⟩
      obtain ⟨hb, hau⟩ := h.owner a ha
      exact ⟨hc.binding.trans hb, by rw [hc.policy, hau]⟩
    obtain ⟨hs, hatt⟩ :=
      h.attributed ha atMs (c.decision pid a.binding.envelopeRevision)
    have hv : a.binding.envelopeRevision = se.source.envelopeRevision := by
      rw [(h.owner a ha).1]
      rfl
    have hh : (after.tail ≠ .broken → led ++ [c] = charges se.source after.entries ∧
        Kept se.source us after.entries) → ∃ led, Behind se us (s.called b after sent) led := by
      intro hrec
      refine ⟨led ++ [c], ?_, ?_, hrec, ho, ?_⟩
      · exact .snoc h.covered hco
      · refine h.answered.append ?_
        rcases hn with rfl | rfl
        · exact nil_sublist _
        · exact List.Sublist.refl _
      · rintro _ ⟨rfl⟩
        rw [total_append]
        exact .inl hat
    by_cases haft : after.tail = .broken
    · exact hh fun hr => absurd haft hr
    rcases hw with ⟨hbr, _⟩ | ⟨hr, he | ⟨he, hf⟩⟩
    · exact absurd hbr haft
    · obtain ⟨hl, hk⟩ := h.recorded hr
      refine hh fun _ => ?_
      rw [he, charges_append_charge _ hs rfl, ← hl]
      exact ⟨rfl, hk.charge hs hatt (by rw [← hv]; rfl) hu (hl ▸ hco)⟩
    · obtain ⟨hi, rfl⟩ := hcl hf
      refine ⟨led, h.covered, ?_, ?_, ho, ?_⟩
      · simpa [System.called] using h.answered
      · intro _
        simpa only [System.called, he] using h.recorded hr
      · rintro _ ⟨rfl⟩
        exact .inr ⟨hi, c, hco, hat⟩

/-- Another part of the broker's entry keeps the ledger. -/
theorem other (h : Behind se us s led) (entry : { entry : AuditEntry // Bystander se.source entry })
    (f : AppendFault) : Behind se us { s with log := (s.log.record entry f).2 } led where
  covered := h.covered
  answered := h.answered
  recorded := h.recorded_bystander entry.2 (AuditLog.record_written (Prod.eta _).symm)
  owner := h.owner
  current := h.current

/-- A restart drops the owner and keeps the ledger. -/
theorem restart (h : Behind se us s led) : Behind se us { s with live := none } led where
  covered := h.covered
  answered := h.answered
  recorded := h.recorded
  owner := by simp
  current := by simp

variable {commands : ApprovedCommands}

/-- What replay reports of a record that can be read. -/
theorem replay_eq (h : Behind se us s led) (hc : se.source.commands = some commands)
    (hu : commands.uses = us) {es : List AuditEntry} (hd : s.log.read = .ok es) :
    ∃ r, es.foldlM (ReplayState.next se.source us) .start = some r ∧
      Matches us es.length r (total us led) ∧
      ∀ ms, ms < commands.expiresAtMs → replay se.source es ms = .ok {
        commands := { commands with uses := (total us led).remaining }
        principalSequence := (total us led).principalSequence
        dispatchSequence := (total us led).dispatchSequence
        grantSequence := (total us led).grantSequence
        revoked := r.revoked } := by
  unfold AuditLog.read at hd
  split at hd
  · contradiction
  · next hre =>
    obtain rfl := ok.inj hd
    rw [not_or, Nat.not_lt] at hre
    obtain ⟨hl, hk⟩ := h.recorded hre.1
    obtain ⟨r, hr, hm⟩ := hk.replayed hre.2
    rw [← hl] at hm
    refine ⟨r, hr, hm, fun ms hn => ?_⟩
    have he : us.any (· < r.spent) = false ∧ us.map (· - r.spent) = (total us led).remaining := by
      cases us with
      | none => exact ⟨rfl, (hm.uncapped rfl).1.symm⟩
      | some n =>
        obtain ⟨hle, he⟩ := hm.capped n rfl
        exact ⟨by simp [hle], he.symm⟩
    simp only [replay, hc, if_neg (Nat.not_le.mpr hn), hu, hr, hm.consumed,
      Bool.not_true, Bool.false_eq_true, if_false, he, hm.principal,
      hm.dispatch, hm.granted]

/-- The owner that a Resume restores has what the ledger leaves. -/
theorem resume (h : Behind se us s led) (hc : se.source.commands = some commands)
    (hu : commands.uses = us) {d : BrokerError} {ms : Nat} {now : Instant}
    {live : Option CommandAuthority} (hre : se.restoreCommandsForResume s.log d ms now = .ok live) :
    Behind se us { s with live } led := by
  suffices ho : ∀ a, live = some a → (a.binding = se.binding ∧
      a.policy.authorizationId = se.source.authorizationId) ∧
      Tracks a.accounts (total us led) from {
    covered := h.covered
    answered := h.answered
    recorded := h.recorded
    owner := fun a ha => (ho a ha).1
    current := fun a ha => .inl (ho a ha).2 }
  rintro a rfl
  unfold Session.restoreCommandsForResume at hre
  cases hd : s.log.read with
  | error error => simp [hd] at hre
  | ok es =>
    obtain ⟨r, hr, _, hp⟩ := h.replay_eq hc hu hd
    simp only [hd] at hre
    cases hs : replay se.source es ms with
    | error error => cases error <;> simp [hs] at hre
    | ok st =>
      have hn : ms < commands.expiresAtMs := by
        by_contra he
        simp [replay, hc, Nat.not_lt.mp he] at hs
      rw [hp ms hn] at hs
      obtain rfl := ok.inj hs
      simp only [hp ms hn] at hre
      split at hre
      · simp at hre
      · simp at hre
      · next policy hl =>
        split at hre
        · contradiction
        · next re hrs =>
          obtain rfl := some.inj (ok.inj hre)
          simp only [restore, check_ok, require_ok, beq_iff_eq] at hrs
          obtain ⟨_, _, hb, hrs⟩ := hrs
          obtain rfl := ok.inj hrs
          exact ⟨⟨rfl, (ApprovedCommands.policy_ok hl).1⟩, hb, rfl, rfl, rfl,
            by simp [accounts]⟩

end Behind

/-! ### Steps and runs -/

/-- A step is a call of the owner, an append by another part, a restart, a Resume that
restores the owner, or nothing. -/
theorem System.step_cases (session : Session) (s : System) (e : Event session.source) :
    (∃ a b after sent, s.live = some a ∧ Turn a s.log sent b after ∧
      s.step session e = s.called b after sent) ∨
    (∃ (entry : { entry : AuditEntry // Bystander session.source entry }) (f : AppendFault),
      s.step session e = { s with log := (s.log.record entry f).2 }) ∨
    s.step session e = { s with live := none } ∨ (∃ d ms now live, s.live = none ∧
      session.restoreCommandsForResume s.log d ms now = .ok live ∧
      s.step session e = { s with live }) ∨ s.step session e = s := by
  cases e with
  | message ambient message =>
    cases ha : s.live with
    | none => exact .inr (.inr (.inr (.inr (by simp only [step, ha]))))
    | some a =>
      rcases hc : a.handle session.lengths session.sha256 s.log ambient message with
        ⟨result, b, after⟩
      exact .inl ⟨a, b, after, _, rfl, handle_turn hc,
        by simp only [step, ha, hc]⟩
  | revoke ambient requestId =>
    cases ha : s.live with
    | none => exact .inr (.inr (.inr (.inr (by simp only [step, ha]))))
    | some a =>
      rcases hc : a.revoke s.log ambient requestId with ⟨result, b, after⟩
      exact .inl ⟨a, b, after, none, rfl, .quiet (revoke_quiet hc) rfl,
        by simp only [step, ha, hc]⟩
  | revokeGrant ambient requestId g =>
    cases ha : s.live with
    | none => exact .inr (.inr (.inr (.inr (by simp only [step, ha]))))
    | some a =>
      rcases hc : a.revokeGrant s.log ambient requestId g with ⟨result, b, after⟩
      exact .inl ⟨a, b, after, none, rfl, .quiet (revokeGrant_quiet hc) rfl,
        by simp only [step, ha, hc]⟩
  | other entry f => exact .inr (.inl ⟨entry, f, rfl⟩)
  | restart => exact .inr (.inr (.inl rfl))
  | resume d ms now =>
    cases ha : s.live with
    | some a => exact .inr (.inr (.inr (.inr (by simp only [step, ha]))))
    | none =>
      cases hr : session.restoreCommandsForResume s.log d ms now with
      | error error => exact .inr (.inr (.inr (.inr (by simp only [step, ha, hr]))))
      | ok live =>
        exact .inr (.inr (.inr (.inl ⟨d, ms, now, live, rfl, hr,
          by simp only [step, ha, hr]⟩)))

variable {session : Session}

/-- A step leaves a ledger behind. -/
theorem Behind.step {s : System} {ledger : List Charge} (h : Behind session commands.uses s ledger)
    (hc : session.source.commands = some commands)
    (hu : ∀ n, commands.uses = some n → n < 2 ^ 32) (e : Event session.source) :
    ∃ ledger, Behind session commands.uses (s.step session e) ledger := by
  rcases s.step_cases session e with ⟨a, b, after, sent, ha, ht, hs⟩ |
    ⟨entry, fault, hs⟩ | hs | ⟨denied, nowMs, now, live, _, hr, hs⟩ | hs
  · exact hs ▸ h.turn hu ha ht
  · exact ⟨ledger, hs ▸ h.other entry fault⟩
  · exact ⟨ledger, hs ▸ h.restart⟩
  · exact ⟨ledger, hs ▸ h.resume hc rfl hr⟩
  · exact ⟨ledger, by rw [hs]; exact h⟩

/-- What a ledger accounts for in one state: while the record can be read the ledger is the
record's, and replay computes from it the accounts that the owner has; the owner is closed
once one of its charges may not have become durable. -/
structure Accounted (session : Session) (commands : ApprovedCommands) (s : System)
    (ledger : List Charge) : Prop where
  recorded : s.log.tail ≠ .broken → ledger = charges session.source s.log.entries
  replayed : ∀ entries, s.log.read = .ok entries → ∃ r,
    entries.foldlM (ReplayState.next session.source commands.uses) .start = some r ∧
    (∀ grant share, (total commands.uses ledger).grants.lookup grant = some share →
      ∃ reserved, r.grants.lookup grant = some (reserved, share.sequence) ∧
        ∀ n, share.reserved = some n → reserved = n ∧ share.remaining = some (n - share.sequence)) ∧
    ∀ nowMs, nowMs < commands.expiresAtMs → replay session.source entries nowMs = .ok {
      commands := { commands with uses := (total commands.uses ledger).remaining }
      principalSequence := (total commands.uses ledger).principalSequence
      dispatchSequence := (total commands.uses ledger).dispatchSequence
      grantSequence := (total commands.uses ledger).grantSequence
      revoked := r.revoked }
  current : ∀ a, s.live = some a → Tracks a.accounts (total commands.uses ledger) ∨
    a.active = false ∧ ∃ c : Charge, c.Allowed (total commands.uses ledger) ∧
      Tracks a.accounts (c.apply (total commands.uses ledger))
  answered : s.replies.Sublist ledger
  bounded : ∀ n, commands.uses = some n → s.replies.countP isUse ≤ n
  reserved : ∀ grant, 0 < s.replies.countP (isUseOf grant) →
    ∃ reserved, reservation grant reserved ∈ ledger
  served : ∀ grant n, reservation grant (some n) ∈ ledger → s.replies.countP (isUseOf grant) ≤ n
  spent : ∀ n, commands.uses = some n → (ledger.map cost).sum ≤ n ∧
    (total commands.uses ledger).remaining = some (n - (ledger.map cost).sum)

theorem Behind.accounted {s : System} {l : List Charge} (h : Behind session commands.uses s l)
    (hcm : session.source.commands = some commands) : Accounted session commands s l where
  recorded hre := (h.recorded hre).1
  replayed entries hd := by
    obtain ⟨r, hr, hm, hp⟩ := h.replay_eq hcm rfl hd
    refine ⟨r, hr, fun g sh hh => ?_, hp⟩
    obtain ⟨reserved, hl, ha, _⟩ := hm.shares g sh hh
    exact ⟨reserved, hl, fun n hn => ⟨(ha n hn).1, (ha n hn).2.1⟩⟩
  current := h.current
  answered := h.answered
  bounded n hn := (h.answered.countP_le ..).trans (Covered.uses_le (hn ▸ h.covered))
  reserved g hs :=
    h.covered.exists_reservation (hs.trans_le (h.answered.countP_le ..))
  served g n he := (h.answered.countP_le ..).trans (h.covered.served_le he)
  spent n hn := by
    have hc := h.covered
    rw [hn] at hc ⊢
    exact hc.remaining_eq

/-- A step takes nothing back: no recorded charge, no use the owner has spent or reserved,
no answer, and no break of the record. -/
structure Unrefunded (source : Source) (s t : System) : Prop where
  broken : s.log.tail = .broken → t.log.tail = .broken
  recorded : t.log.tail ≠ .broken → charges source s.log.entries <+: charges source t.log.entries
  owner : ∀ a b, s.live = some a → t.live = some b → ∀ left, a.remaining = some left →
    ∃ later, b.remaining = some later ∧ later ≤ left
  replies : s.replies <+: t.replies

theorem Written.broken {ok : Bool} (h : Written log entry ok after) (hb : log.tail = .broken) :
    after.tail = .broken := by
  rcases h with ⟨ha, _⟩ | ⟨hr, _⟩
  · exact ha
  · exact absurd hb hr

theorem Written.charges_prefix {ok : Bool} {so : Source} (h : Written log entry ok after)
    (ha : after.tail ≠ .broken) : charges so log.entries <+: charges so after.entries := by
  rcases h with ⟨hb, _⟩ | ⟨_, he | ⟨he, _⟩⟩
  · exact absurd hb ha
  · rw [he, charges, charges, filterMap_append]
    exact prefix_append _ _
  · rw [he]

theorem Charge.apply_remaining {s : Accounts} (c : Charge) {left : Nat}
    (h : s.remaining = some left) : ∃ l, (c.apply s).remaining = some l ∧ l ≤ left := by
  match c with
  | .use none _ => exact ⟨left - 1, by simp [apply, h], Nat.sub_le _ _⟩
  | .use (some _) _ => exact ⟨left, h, Nat.le_refl _⟩
  | .reservation _ none => exact ⟨left, by simp [apply, h], Nat.le_refl _⟩
  | .reservation _ (some uses) => exact ⟨left - uses, by simp [apply, h], Nat.sub_le _ _⟩

/-- No step of the system takes anything back. -/
theorem System.step_unrefunded (session : Session) (s : System) (e : Event session.source) :
    Unrefunded session.source s (s.step session e) := by
  have hs : Unrefunded session.source s s := {
    broken := id
    recorded := fun _ => prefix_refl _
    owner := by
      rintro a b ha hb left hl
      obtain rfl : a = b := some.inj (ha.symm.trans hb)
      exact ⟨left, hl, Nat.le_refl _⟩
    replies := prefix_refl _ }
  rcases s.step_cases session e with ⟨a, b, after, sent, ha, ht, hst⟩ |
    ⟨entry, fault, hst⟩ | hst | ⟨denied, nowMs, now, live, hn, _, hst⟩ | hst
  · rw [hst]
    have ho : after = s.log ∨ ∃ entry ok, Written s.log entry ok after := by
      cases ht with
      | quiet hq _ =>
        exact hq.log.imp id fun ⟨atMs, decision, ok, _, hw⟩ => ⟨_, ok, hw⟩
      | charged c pid atMs ok _ _ _ _ hw => exact .inr ⟨_, ok, hw⟩
    have he : ∀ left, a.remaining = some left → ∃ l, b.remaining = some l ∧ l ≤ left := by
      intro left hl
      cases ht with
      | quiet hq _ =>
        exact ⟨left, (congrArg Accounts.remaining hq.accounts).trans hl, Nat.le_refl _⟩
      | charged c pid atMs ok _ _ _ hc =>
        obtain ⟨l, hla, hle⟩ := c.apply_remaining (s := a.accounts) hl
        exact ⟨l, (congrArg Accounts.remaining hc).trans hla, hle⟩
    refine ⟨fun hbr => ?_, fun hr => ?_, ?_, prefix_append _ _⟩
    · rcases ho with rfl | ⟨_, _, hw⟩
      · exact hbr
      · exact hw.broken hbr
    · rcases ho with rfl | ⟨_, _, hw⟩
      · exact prefix_refl _
      · exact hw.charges_prefix hr
    · rintro a' _ ha' ⟨rfl⟩
      obtain rfl : a = a' := some.inj (ha.symm.trans ha')
      exact he
  · rw [hst]
    have hw := AuditLog.record_written (Prod.eta (s.log.record entry fault)).symm
    exact ⟨hw.broken, hw.charges_prefix, hs.owner, hs.replies⟩
  · rw [hst]
    exact ⟨hs.broken, hs.recorded, by simp, hs.replies⟩
  · rw [hst]
    exact ⟨hs.broken, hs.recorded, by simp [hn], hs.replies⟩
  · rw [hst]
    exact hs

/-- A launch that has begun a lifetime. -/
def System.start (log : AuditLog) (a : CommandAuthority) : System := ⟨log, some a, []⟩

/-- A fresh owner leaves the empty ledger behind. -/
theorem Behind.start {a : CommandAuthority} {ms : Nat} {l : Instant}
    (hl : Begun session.source log.entries)
    (hp : commands.policy session.source.authorizationId ms now = .ok policy)
    (hn : new session.binding policy log l = .ok a) :
    Behind session commands.uses (.start log a) [] := by
  obtain ⟨hb, ho, ha⟩ := new_ok hn
  obtain ⟨hau, hu, _⟩ := ApprovedCommands.policy_ok hp
  have hc : Tracks a.accounts (total commands.uses []) := by
    rw [ha, hu]
    exact ⟨rfl, rfl, rfl, rfl, fun _ _ h => h⟩
  exact {
    covered := .nil
    answered := List.Sublist.refl _
    recorded := fun _ => ⟨hl.charges.symm, .of_begun hl⟩
    owner := by
      rintro _ ⟨rfl⟩
      exact ⟨hb, ho ▸ hau⟩
    current := by
      rintro _ ⟨rfl⟩
      exact .inl hc }

/-- Across calls, appends that fail and restarts, the accounts that replay computes are those
of the owner, no more commands are answered than were approved, no grant serves more than it
reserved, and nothing is taken back. -/
theorem command_budget_kept (session : Session) (commands : ApprovedCommands)
    (hcommands : session.source.commands = some commands) {log : AuditLog}
    (hlog : Begun session.source log.entries) {nowMs : Nat} {now later : Instant}
    {policy : DelegationPolicy}
    (hpolicy : commands.policy session.source.authorizationId nowMs now = .ok policy)
    {a : CommandAuthority} (hnew : new session.binding policy log later = .ok a)
    (events : List (Event session.source)) : Always (System.step session)
    (fun s => ∃ ledger, Accounted session commands s ledger) (.start log a) events ∧
      Throughout (System.step session)
        (fun s event => Unrefunded session.source s (s.step session event))
        (.start log a) events := by
  have hu : ∀ n, commands.uses = some n → n < 2 ^ 32 := fun n hn =>
    ((ApprovedCommands.policy_ok hpolicy).2.2 n hn).trans_lt (by decide)
  refine ⟨?_, throughout_of_forall (System.step_unrefunded session) _ _⟩
  have hb : Always (System.step session)
      (fun s => ∃ ledger, Behind session commands.uses s ledger) (.start log a) events :=
    always_of_throughout (C := fun _ _ => True) (fun s event ⟨_, h⟩ _ => h.step hcommands hu event)
      ⟨[], .start hlog hpolicy hnew⟩ (throughout_of_forall (fun _ _ => trivial) _ _)
  exact hb.mono fun s ⟨ledger, h⟩ => ⟨ledger, h.accounted hcommands⟩

/-- Two approved uses of one command. -/
def twoUses : ApprovedCommands where
  commandDigest := (Digest.fromRaw (Vector.replicate 32 0)).toString
  timeoutMs := 1000
  uses := some 2
  allowDelegation := true
  expiresAtMs := 9000

/-- A Session whose authorization approves two uses. -/
def twoUseSession : Session where
  lengths := ⟨fun _ => 0, fun _ => 0⟩
  sha256 := fun _ => Vector.replicate 32 0
  source := ⟨"a", "s", "r", 0, 1, some twoUses⟩
  assignedUid := 1000
  assignedGid := 1000
  agentPid := 42

theorem command_budget_kept_two_uses : ∃ a, ∀ events,
    Always (System.step twoUseSession) (fun s => ∃ ledger, Accounted twoUseSession twoUses s ledger)
        (.start ⟨[⟨1, "s", "r", "a", 0, .authorizationConsumed⟩], .clean⟩ a) events ∧
      Throughout (System.step twoUseSession)
        (fun s event => Unrefunded twoUseSession.source s (s.step twoUseSession event))
        (.start ⟨[⟨1, "s", "r", "a", 0, .authorizationConsumed⟩], .clean⟩ a) events := by
  have hp : twoUses.policy "a" 1 0 = .ok
      ⟨"a", ⟨Digest.fromRaw (Vector.replicate 32 0), 1000, some 2⟩, true, 8999⟩ := by
    unfold ApprovedCommands.policy
    simp only [twoUses, Digest.parse_toString, beq_self_eq_true, Bool.true_and]
    rfl
  have hl : Begun twoUseSession.source [⟨1, "s", "r", "a", 0, .authorizationConsumed⟩] :=
    ⟨[], _, [], rfl, by simp, rfl, by decide, rfl⟩
  obtain ⟨a, hn⟩ : ∃ a, new twoUseSession.binding
      ⟨"a", ⟨Digest.fromRaw (Vector.replicate 32 0), 1000, some 2⟩, true, 8999⟩
      ⟨[⟨1, "s", "r", "a", 0, .authorizationConsumed⟩], .clean⟩ 0 = .ok a := ⟨_, rfl⟩
  exact ⟨a, command_budget_kept twoUseSession twoUses rfl hl hp hn⟩

end Louiselm.Broker
