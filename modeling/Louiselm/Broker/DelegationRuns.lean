import Louiselm.Base.Runs
import Louiselm.Broker.CommandAccounts
import Louiselm.Broker.Delegation

/-!
# Delegation along every run

The owner of `Broker/Delegation` under calls in any order, each of which may stop at any of
its operations. A check leaves the owner as it was or closed, and so does every call that is
refused; a call that is not refused makes one change. What was admitted is held against the
policy by the uses that are left, and what was started against what was admitted.
-/

namespace Louiselm.Broker.Delegation
open Base Canonical List
open Base.Program State Delegation
open Option (some.inj isSome_iff_exists map_some getD_some map_eq_some_iff or_none)

/-! ### What a refused call does -/

@[simp] theorem closeChannels_idem (s : State) :
    s.closeChannels.closeChannels = s.closeChannels := by
  simp only [closeChannels, map_map]
  congr 1

/-- The owner is as it was or closed, and only the record grew. -/
structure Quiet (w w' : World) : Prop where
  owner : w'.owner = w.owner ∨ w'.owner = w.owner.closeChannels
  prepared : w'.prepared = w.prepared
  applied : w'.applied = w.applied
  written : w.written <+: w'.written

variable {w w' w'' : World}

theorem Quiet.refl (w : World) : Quiet w w := ⟨.inl rfl, rfl, rfl, prefix_refl _⟩

theorem Quiet.trans (h : Quiet w w') (h' : Quiet w' w'') : Quiet w w'' where
  owner := by
    rcases h'.owner with h' | h' <;> rcases h.owner with h | h <;> simp [h, h']
  prepared := h'.prepared.trans h.prepared
  applied := h'.applied.trans h.applied
  written := h.written.trans h'.written

theorem quiet_close (w : World) : Quiet w { w with owner := w.owner.closeChannels } :=
  ⟨.inr rfl, rfl, rfl, prefix_refl _⟩

/-- However a program ends it was quiet; where it ends with a value more is known. -/
def Quietly {α : Type} (p : Owned α) (w : World) (Q : α → World → Prop) : Prop :=
  Wp p ⟨fun a w' => Quiet w w' ∧ Q a w', fun _ => Quiet w, Quiet w⟩ w

section

variable {α β : Type} {p : Owned α} {Q : α → World → Prop}

theorem quietly_pure {a : α} (h : Q a w) : Quietly (pure a) w Q := wp_pure.mpr ⟨.refl w, h⟩

theorem quietly_fail {e : DelegationError} : Quietly (fail e : Owned α) w Q :=
  wp_fail.mpr (.refl w)

theorem quietly_ofExcept {x : Except DelegationError α} (h : ∀ a, x = .ok a → Q a w) :
    Quietly (ofExcept x) w Q := wp_ofExcept (fun a ha => ⟨.refl w, h a ha⟩) fun _ _ => .refl w

theorem Quietly.mono {R : α → World → Prop} (h : Quietly p w Q)
    (hs : ∀ a w', Quiet w w' → Q a w' → R a w') : Quietly p w R :=
  Wp.mono h (fun a w' ha => ⟨ha.1, hs a w' ha.1 ha.2⟩) (fun _ _ hw => hw) fun _ hw => hw

theorem Quietly.bind {f : α → Owned β} {R : β → World → Prop} (h : Quietly p w Q)
    (hf : ∀ a w', Quiet w w' → Q a w' → Quietly (f a) w' R) : Quietly (p >>= f) w R := by
  apply wp_bind
  refine Wp.mono h (fun a w' ha => ?_) (fun _ _ hw => hw) fun _ hw => hw
  exact Wp.mono (hf a w' ha.1 ha.2) (fun _ _ hb => ⟨ha.1.trans hb.1, hb.2⟩)
    (fun _ _ hb => ha.1.trans hb) fun _ hb => ha.1.trans hb

theorem Quietly.handle {hn : DelegationError → Owned α} (h : Quietly p w Q)
    (hh : ∀ e w', Quiet w w' → Quietly (hn e) w' Q) : Quietly (handle p hn) w Q := by
  apply wp_handle
  refine Wp.mono h (fun a w' ha => ha) (fun e w' hw => ?_) fun _ hw => hw
  exact Wp.mono (hh e w' hw) (fun _ _ ha => ⟨hw.trans ha.1, ha.2⟩)
    (fun _ _ ha => hw.trans ha) fun _ ha => hw.trans ha

/-- After a program that is quiet, the second one starts from where it ended. -/
theorem Quietly.wp_bind {f : α → Owned β} {po : Post World DelegationError β} (h : Quietly p w Q)
    (hv : ∀ a w', Quiet w w' → Q a w' → Wp (f a) po w') (he : ∀ e w', Quiet w w' → po.error e w')
    (hc : ∀ w', Quiet w w' → po.crashed w') : Wp (p >>= f) po w := by
  apply Program.wp_bind
  exact Wp.mono h (fun a w' ha => hv a w' ha.1 ha.2) he hc

theorem quietly_observe {l : World → α} {f : α → Owned β} {R : β → World → Prop}
    (h : Quietly (f (l w)) w R) : Quietly (observe l >>= f) w R :=
  Program.wp_bind (wp_observe.mpr h)

end

theorem quietly_close : Quietly (change closeChannels) w
    fun _ w' => w'.owner = w.owner.closeChannels :=
  wp_effect ⟨quiet_close w, rfl⟩ (.refl w)

/-- The entry of a decision is attributed to the owner's Session. -/
def State.Attributes (s : State) (decision : AuditDecision) (entry : AuditEntry) : Prop :=
  entry.sessionId = s.binding.sessionId ∧ entry.runId = s.binding.runId ∧
    entry.authorizationId = s.policy.authorizationId ∧ entry.decision = decision

/-- An entry that was recorded is written whole, and the owner is as it was. -/
theorem record_quietly (d : AuditDecision) (am : Option Nat) :
    Quietly (record d am) w fun _ w' => w'.owner = w.owner ∧
      ∃ e ∈ w'.written, w.owner.Attributes d e := by
  apply quietly_observe
  cases am with
  | none => exact quietly_fail
  | some am =>
    refine Quietly.handle ?_ fun er w' _ => quietly_close.bind fun _ _ _ _ => quietly_fail
    split
    · refine wp_write ⟨⟨.inl rfl, rfl, rfl, prefix_append _ _⟩, rfl, ?_⟩ (.refl w)
        ⟨.inl rfl, rfl, rfl, prefix_append _ _⟩ (.refl w)
      exact ⟨_, mem_append_right _ (mem_singleton_self _), rfl, rfl, rfl, rfl⟩
    · exact quietly_fail

theorem deny_quietly {α : Type} (e : DelegationError) (atMs : Option Nat) :
    Quietly (deny e atMs : Owned α) w fun _ _ => False :=
  (record_quietly _ _).bind fun _ _ _ _ => quietly_fail

theorem revokeAll_quietly (am : Option Nat) :
    Quietly (revokeAll am) w fun _ w' => w'.owner.active = false := by
  apply quietly_observe
  split
  · refine quietly_close.bind fun _ w' _ hc => (record_quietly _ _).mono ?_
    rintro _ w'' - ⟨ho, -⟩
    rw [ho, hc]
    rfl
  · next h => exact quietly_pure (by simpa using h)

theorem lock_quietly : Quietly lock w fun _ w' => w' = w ∧ w.owner.poisoned = false := by
  apply quietly_observe
  split
  · exact quietly_close.bind fun _ _ _ _ => quietly_fail
  · next h => exact quietly_pure ⟨rfl, by simpa using h⟩

/-- The Agent's own authority holds at the first reading of the clock. -/
theorem parent_quietly (m : Moment) :
    Quietly (parent m) w fun _ w' => w' = w ∧ w.owner.active = true ∧
      m.now < w.owner.policy.expiresAt := by
  apply quietly_observe
  split
  · exact quietly_fail
  · next ha =>
    split
    · exact (revokeAll_quietly _).bind fun _ _ _ _ => quietly_fail
    · split
      · exact (revokeAll_quietly _).bind fun _ _ _ _ => quietly_fail
      · next hn => exact quietly_pure ⟨rfl, by simpa using ha, Nat.lt_of_not_le hn⟩

theorem checkGrant_quietly (se : KernelCredentials) (r : ToolGrantRequest) (ta : BoundProcess)
    (m : Moment) : Quietly (checkGrant se r ta m) w fun _ w' => w' = w ∧
      w.owner.active = true ∧ w.owner.admitsGrant se r ta m = .ok () := by
  refine (parent_quietly m).bind ?_
  rintro _ w' - ⟨rfl, ha, -⟩
  apply quietly_observe
  exact quietly_ofExcept fun _ h => ⟨rfl, ha, h⟩

variable {sha256 : Sha256} {lengths : Lengths}

theorem checkEffect_quietly (g : Option Nat) (se : KernelCredentials) (r : ToolExecutionRequest)
    (m : Moment) : Quietly (checkEffect sha256 lengths g se r m) w fun _ w' => w' = w ∧
      w.owner.active = true ∧ m.now < w.owner.policy.expiresAt ∧
      w.owner.admitsEffect sha256 lengths g se r m = .ok () := by
  refine (parent_quietly m).bind ?_
  rintro _ w' - ⟨rfl, ha, hn⟩
  apply quietly_observe
  exact quietly_ofExcept fun _ h => ⟨rfl, ha, hn, h⟩

theorem finish_quietly (c : CommittedEffect) (o : Except DelegationError ToolExecutionResult)
    (am : Option Nat) : Quietly (finish c o am) w fun _ _ => True := by
  refine lock_quietly.bind fun _ w' _ _ => ?_
  refine Quietly.bind (?_ : Quietly _ _ fun _ _ => True) fun _ _ _ _ => quietly_ofExcept fun _ _ =>
      trivial
  refine Quietly.handle ((record_quietly _ _).mono fun _ _ _ _ => trivial) fun e w'' _ => ?_
  cases e <;> exact quietly_fail

theorem revoke_quietly (am : Option Nat) :
    Quietly (revoke am) w fun _ w' => w'.owner.active = false :=
  lock_quietly.bind fun _ _ _ _ => revokeAll_quietly am

/-- A closed owner stays closed in what is quiet. -/
theorem Quiet.closed (h : Quiet w w') (hc : w.owner.active = false) : w'.owner.active = false := by
  rcases h.owner with h | h
  · rw [h, hc]
  · rw [h]
    rfl

/-- Once a revocation returned, whatever it reports, the owner is closed. -/
theorem revoke_closes (am : Option Nat) :
    Wp (revoke am) ⟨fun _ w' => w'.owner.active = false, fun _ w' => w'.owner.active = false,
      fun _ => True⟩ w := by
  have hr : ∀ v : World, v.owner.active = false →
      Wp (record .capabilitiesRevoked am) ⟨fun _ w' => w'.owner.active = false,
        fun _ w' => w'.owner.active = false, fun _ => True⟩ v := fun v hv =>
    Wp.mono (record_quietly _ _) (fun _ _ h => h.1.closed hv) (fun _ _ h => h.closed hv)
      fun _ _ => trivial
  apply wp_bind
  refine Program.wp_bind (wp_observe.mpr ?_)
  dsimp only
  split
  · exact Program.wp_bind (wp_effect (wp_fail.mpr rfl) trivial)
  · refine wp_pure.mpr (Program.wp_bind (wp_observe.mpr ?_))
    dsimp only
    split
    · exact Program.wp_bind (wp_effect (hr _ rfl) trivial)
    · next h => exact wp_pure.mpr (by simpa using h)

/-! ### What an admitted call does -/

/-- A check that is refused is recorded; where it passes nothing changed. -/
private theorem checked {α : Type} {p : Owned α} {Q : α → World → Prop} (h : Quietly p w Q)
    (am : Option Nat) : Quietly (handle p fun e => deny e am) w Q :=
  h.handle fun _ _ _ => (deny_quietly _ _).mono fun _ _ _ h => h.elim

/-- A grant that was installed was admitted, and its uses left the Agent's. -/
theorem delegate_installs (se : KernelCredentials) (r : ToolGrantRequest)
    (ta : BoundProcess) (a : Ambient) : Wp (delegate se r ta a)
      ⟨fun g w' => g = r.sequence ∧ w'.owner = w.owner.install r ta ∧
          w'.prepared = w.prepared ∧ w'.applied = w.applied ∧ w.written <+: w'.written ∧
          w.owner.active = true ∧ ∃ m, w.owner.admitsGrant se r ta m = .ok (),
        fun _ => Quiet w, Quiet w⟩ w := by
  refine Quietly.wp_bind lock_quietly ?_ (fun _ _ h => h) fun _ h => h
  rintro _ w₁ - ⟨rfl, -⟩
  refine Quietly.wp_bind (checked (checkGrant_quietly _ _ _ _) _) ?_ (fun _ _ h => h) fun _ h => h
  rintro _ w₂ - ⟨rfl, hc, -⟩
  refine Quietly.wp_bind (record_quietly _ _) ?_ (fun _ _ h => h) fun _ h => h
  rintro _ w₃ h₃ ⟨ho, -⟩
  refine Quietly.wp_bind (checked (checkGrant_quietly _ _ _ _) _) ?_ (fun _ _ h => h₃.trans h)
    fun _ h => h₃.trans h
  rintro _ w₄ - ⟨rfl, -, ha⟩
  refine Program.wp_bind (wp_effect (wp_pure.mpr ?_) h₃)
  rw [ho] at ha
  exact ⟨rfl, congrArg (State.install · r ta) ho, h₃.prepared, h₃.applied, h₃.written,
    hc, a.second, ha⟩

/-- An effect that was admitted has the next number of its channel and spent one use. -/
theorem prepare_spends (g : Option Nat) (pa : AuthenticatedPacket) (a : Ambient) :
    Wp (prepare sha256 lengths g pa a)
      ⟨fun pd w' => w'.owner = w.owner.spend g pd.request.sequence ∧
          w'.prepared = w.prepared ++ [pd.identity] ∧ w'.applied = w.applied ∧
          w'.written = w.written ∧ pd.grant = g ∧ w.owner.active = true ∧
          ∃ r n, w.owner.account g = .ok (r, n) ∧ pd.request.sequence = n + 1 ∧ r ≠ some 0,
        fun _ => Quiet w, Quiet w⟩ w := by
  refine Quietly.wp_bind lock_quietly ?_ (fun _ _ h => h) fun _ h => h
  rintro _ w₁ - ⟨rfl, -⟩
  refine wp_handle ?_
  have hd : ∀ (e : DelegationError) (v : World), Quiet w₁ v →
      Wp (deny e a.deniedAtMs : Owned PendingEffect)
        ⟨fun pd w' => w'.owner = w₁.owner.spend g pd.request.sequence ∧
            w'.prepared = w₁.prepared ++ [pd.identity] ∧ w'.applied = w₁.applied ∧
            w'.written = w₁.written ∧ pd.grant = g ∧ w₁.owner.active = true ∧
            ∃ r n, w₁.owner.account g = .ok (r, n) ∧ pd.request.sequence = n + 1 ∧ r ≠ some 0,
          fun _ => Quiet w₁, Quiet w₁⟩ v := fun e v hv =>
    Wp.mono (deny_quietly e _) (fun _ _ h => h.2.elim) (fun _ _ h => hv.trans h)
      fun _ h => hv.trans h
  cases pa.request with
  | none => exact wp_fail.mpr (hd _ _ (.refl _))
  | some request =>
    refine Program.wp_bind (wp_ofExcept (fun _ _ => ?_) fun _ _ => hd _ _ (.refl _))
    refine Quietly.wp_bind (checkEffect_quietly _ _ _ _) ?_ (fun _ _ h => hd _ _ h) fun _ h => h
    rintro _ w₂ - ⟨rfl, hc, -⟩
    refine Program.wp_bind (wp_observe.mpr ?_)
    refine Program.wp_bind (wp_ofExcept ?_ fun _ _ => hd _ _ (.refl _))
    rintro ⟨r, n⟩ ha
    refine Program.wp_bind (wp_ofExcept (fun _ hs => ?_) fun _ _ => hd _ _ (.refl _))
    refine Program.wp_bind (wp_ofExcept (fun _ hr => ?_) fun _ _ => hd _ _ (.refl _))
    refine Program.wp_bind (wp_effect (wp_pure.mpr ?_) (.refl _))
    refine ⟨rfl, rfl, rfl, rfl, rfl, hc, r, n, ha, ?_, ?_⟩
    · have hn := eq_of_beq (require_ok.mp hs)
      unfold addChecked at hn
      split at hn
      · exact (some.inj hn).symm
      · simp at hn
    · simpa using require_ok.mp hr

/-- A started effect has its intent on record, and all authority held at its instant. -/
structure Starts (pending : PendingEffect) (w w' : World) : Prop where
  owner : w'.owner = w.owner ∨ w'.owner = w.owner.closeChannels ∨
    w'.owner = { w.owner with poisoned := true }
  prepared : w'.prepared = w.prepared
  written : w.written <+: w'.written
  active : w.owner.active = true ∧ w.owner.poisoned = false
  applied : ∃ applied, w'.applied = w.applied ++ [applied] ∧ applied.identity = pending.identity ∧
    (∃ entry ∈ w'.written, w.owner.Attributes
      (.effectCommitIntent applied.grant applied.sequence) entry) ∧
    match applied.grant with
    | some id => ∃ grant, w.owner.grants.lookup id = some grant ∧ applied.at_ < grant.expiresAt
    | none => applied.at_ < w.owner.policy.expiresAt

/-- However a commitment ends, the effect was started under authority or not at all. -/
theorem commit_starts (pd : PendingEffect) (a : Ambient) (st : Started) :
    Wp (commit sha256 lengths pd a st)
      ⟨fun _ => Starts pd w, fun _ w' => Quiet w w' ∨ Starts pd w w',
        fun w' => Quiet w w' ∨ Starts pd w w'⟩ w := by
  refine Quietly.wp_bind lock_quietly ?_ (fun _ _ h => .inl h) fun _ h => .inl h
  rintro _ w₁ - ⟨rfl, hp⟩
  refine Quietly.wp_bind (checked (checkEffect_quietly _ _ _ _) _) ?_ (fun _ _ h => .inl h) fun _
      h => .inl h
  rintro _ w₂ - ⟨rfl, -⟩
  refine Quietly.wp_bind (record_quietly _ _) ?_ (fun _ _ h => .inl h) fun _ h => .inl h
  rintro _ w₃ h₃ ⟨ho, hi⟩
  refine Quietly.wp_bind (checked (checkEffect_quietly _ _ _ _) _) ?_
      (fun _ _ h => .inl (h₃.trans h))
    fun _ h => .inl (h₃.trans h)
  rintro _ w₄ - ⟨rfl, hac, hn, hd⟩
  refine Program.wp_bind (wp_effect ?_ (.inl h₃))
  -- what is known from here on, whatever follows the start
  have hs : ∀ v : World, Quiet { w₄ with applied := w₄.applied ++
      [⟨pd.grant, pd.request.sequence, a.second.last pd.grant⟩] } v →
      Starts pd w₂ v := by
    intro v hv
    refine ⟨?_, hv.prepared.trans h₃.prepared, h₃.written.trans hv.written,
      ⟨ho ▸ hac, hp⟩, _, hv.applied.trans (congrArg (· ++ _) h₃.applied), rfl, ?_, ?_⟩
    · rcases hv.owner with hv | hv
      · exact .inl (hv.trans ho)
      · exact .inr (.inl (hv.trans (congrArg closeChannels ho)))
    · obtain ⟨e, he, ha⟩ := hi
      exact ⟨e, hv.written.subset he, ha⟩
    · rw [ho] at hd hn
      obtain ⟨-, hr⟩ := check_ok.mp hd
      obtain ⟨-, hr⟩ := check_ok.mp hr
      obtain ⟨sc, hc, -⟩ := bind_ok.mp hr
      cases hg : pd.grant with
      | none => simpa [Moment.last, hg] using hn
      | some id =>
        simp only [scopeOf, hg] at hc
        split at hc
        · simp at hc
        · next g hl =>
          simp only [check_ok, require_ok, decide_eq_true_eq] at hc
          exact ⟨g, hl, by simpa [Moment.last] using hc.2.1⟩
  cases st with
  | ok => exact wp_pure.mpr (hs _ (.refl _))
  | failed er =>
    refine Quietly.wp_bind (finish_quietly _ _ _) (fun _ v hv _ => wp_fail.mpr (.inr (hs v hv)))
      (fun _ v hv => .inr (hs v hv)) fun v hv => .inr (hs v hv)
  | panicked =>
    have ht := hs _ (.refl _)
    refine Program.wp_bind (wp_effect (wp_pure.mpr ?_) (.inr ht))
    exact { ht with owner := .inr (.inr (by rw [← ho])) }

/-! ### What the budget is worth -/

/-- When a grant ends. -/
def State.deadline (s : State) (id : Nat) : Option Instant :=
  (s.grants.lookup id).map (·.expiresAt)

/-- The uses that the Agent and all grants have left. -/
def State.left (s : State) : Nat :=
  s.remaining.getD 0 + (s.grants.map fun item => item.2.remaining.getD 0).sum

/-- The Agent and every grant have a limit. -/
def State.Limited (s : State) : Prop :=
  s.remaining.isSome ∧ ∀ item ∈ s.grants, item.2.remaining.isSome

/-- The owners differ at most in what is open. -/
structure Alike (s s' : State) : Prop where
  binding : s'.binding = s.binding
  policy : s'.policy = s.policy
  remaining : s'.remaining = s.remaining
  agentSequence : s'.agentSequence = s.agentSequence
  grantSequence : s'.grantSequence = s.grantSequence
  grants : s'.grants.map (fun item => (item.1, item.2.close)) =
    s.grants.map fun item => (item.1, item.2.close)

variable {s s' : State} {id : Nat} {channel : Option Nat}

theorem Alike.refl (s : State) : Alike s s := ⟨rfl, rfl, rfl, rfl, rfl, rfl⟩

theorem alike_close (s : State) : Alike s s.closeChannels :=
  ⟨rfl, rfl, rfl, rfl, rfl, by simp only [closeChannels, map_map]; rfl⟩

theorem Quiet.alike (h : Quiet w w') : Alike w.owner w'.owner := by
  rcases h.owner with h | h
  · rw [h]
    exact .refl _
  · rw [h]
    exact alike_close _

theorem Starts.alike {pd : PendingEffect} (h : Starts pd w w') : Alike w.owner w'.owner := by
  rcases h.owner with h | h | h
  · rw [h]
    exact .refl _
  · rw [h]
    exact alike_close _
  · rw [h]
    exact ⟨rfl, rfl, rfl, rfl, rfl, rfl⟩

/-- What does not depend on a grant's channel is the same of both owners' grants. -/
theorem Alike.map_grants {β : Type} (h : Alike s s') {f : Nat × Grant → β}
    (hf : ∀ x, f (x.1, x.2.close) = f x) : s'.grants.map f = s.grants.map f := by
  have hc := congrArg (List.map f) h.grants
  simpa only [map_map, Function.comp_def, hf] using hc

theorem Alike.lookup {β : Type} (h : Alike s s') {f : Grant → β} (hf : ∀ g, f g.close = f g) :
    (s'.grants.lookup id).map f = (s.grants.lookup id).map f := by
  rw [← lookup_map, ← lookup_map]
  exact congrArg (List.lookup id) (h.map_grants fun x => by rw [hf])

theorem Alike.deadline (h : Alike s s') : s'.deadline id = s.deadline id := h.lookup fun _ => rfl

theorem Alike.keys (h : Alike s s') : s'.grants.map (·.1) = s.grants.map (·.1) :=
  h.map_grants fun _ => rfl

theorem Alike.left (h : Alike s s') : s'.left = s.left := by
  unfold State.left
  rw [h.remaining, h.map_grants (f := fun x => x.2.remaining.getD 0) fun _ => rfl]

theorem Alike.limited (h : Alike s s') (hl : s.Limited) : s'.Limited := by
  refine ⟨h.remaining ▸ hl.1, fun x hi => ?_⟩
  have hm := mem_map_of_mem (f := fun x => x.2.remaining) hi
  rw [h.map_grants fun _ => rfl] at hm
  obtain ⟨o, ho, heq⟩ := mem_map.mp hm
  exact heq ▸ hl.2 o ho

/-- What is left of a channel, and its last number, where there is the channel. -/
def State.line (s : State) : Option Nat → Option (Option Nat × Nat)
  | some id => (s.grants.lookup id).map fun grant => (grant.remaining, grant.sequence)
  | none => some (s.remaining, s.agentSequence)

theorem account_ok {r : Option Nat} {n : Nat} :
    s.account channel = .ok (r, n) ↔ s.line channel = some (r, n) := by
  cases channel with
  | none => simp [account, line]
  | some id =>
    unfold account line
    dsimp only
    cases hl : s.grants.lookup id <;> simp

theorem Alike.line (h : Alike s s') : s'.line channel = s.line channel := by
  cases channel with
  | none => simp only [line, h.remaining, h.agentSequence]
  | some id => exact h.lookup fun _ => rfl

/-! ### Spending and installing -/

theorem line_spend_self (n : Nat) : (s.spend channel n).line channel =
    (s.line channel).map fun l => (l.1.map (· - 1), n) := by
  cases channel with
  | none => rfl
  | some id =>
    simp only [line, spend, lookup_modifyAt_self, Option.map_map]
    rfl

theorem line_spend_of_ne {o : Option Nat} (hn : o ≠ channel) (n : Nat) :
    (s.spend channel n).line o = s.line o := by
  cases channel with
  | none =>
    cases o with
    | none => exact absurd rfl hn
    | some _ => rfl
  | some id =>
    cases o with
    | none => rfl
    | some o =>
      simp only [line, spend]
      rw [lookup_modifyAt_of_ne fun heq => hn (congrArg some heq)]

theorem keys_spend (n : Nat) : (s.spend channel n).grants.map (·.1) = s.grants.map (·.1) := by
  cases channel with
  | none => rfl
  | some id =>
    simp only [spend, modifyAt, map_map]
    refine map_congr_left fun x _ => ?_
    simp only [Function.comp_apply]
    split <;> rfl

theorem deadline_spend (n : Nat) : (s.spend channel n).deadline id = s.deadline id := by
  cases channel with
  | none => rfl
  | some o =>
    unfold deadline spend
    by_cases h : id = o
    · subst h
      rw [lookup_modifyAt_self, Option.map_map]
      rfl
    · rw [lookup_modifyAt_of_ne h]

/-- One item of a list of numbers with distinct keys that is one less makes the sum one
less. -/
private theorem sum_modifyAt {g : List (Nat × Grant)} (c : Grant → Grant) {gr : Grant}
    (hk : (g.map (·.1)).Nodup) (hl : g.lookup id = some gr)
    (hc : (c gr).remaining.getD 0 + 1 = gr.remaining.getD 0) :
    ((modifyAt id c g).map fun x => x.2.remaining.getD 0).sum + 1 =
      (g.map fun x => x.2.remaining.getD 0).sum := by
  induction g with
  | nil => simp at hl
  | cons x g ih =>
    obtain ⟨key, held⟩ := x
    obtain ⟨hf, hk⟩ := nodup_cons.mp hk
    rw [lookup_cons_ite] at hl
    by_cases h : id = key
    · subst h
      rw [if_pos rfl] at hl
      obtain rfl := some.inj hl
      have hr : modifyAt id c g = g := by
        unfold modifyAt
        refine (map_congr_left fun x hi => ?_).trans (map_id _)
        rw [if_neg, id_eq]
        exact fun heq => hf (mem_map.mpr ⟨x, hi, heq⟩)
      have hh : modifyAt id c ((id, held) :: g) =
          (id, c held) :: modifyAt id c g := by simp [modifyAt]
      rw [hh, hr, map_cons, map_cons, sum_cons, sum_cons]
      dsimp only
      omega
    · rw [if_neg h] at hl
      have hh : modifyAt id c ((key, held) :: g) =
          (key, held) :: modifyAt id c g := by simp [modifyAt, Ne.symm h]
      rw [hh, map_cons, map_cons, sum_cons, sum_cons]
      have hr := ih hk hl
      dsimp only
      omega

theorem left_spend {remaining : Option Nat} {sequence : Nat} (hk : (s.grants.map (·.1)).Nodup)
    (hl : s.Limited) (hi : s.line channel = some (remaining, sequence))
    (hs : remaining ≠ some 0) (next : Nat) : (s.spend channel next).left + 1 = s.left := by
  cases channel with
  | none =>
    obtain ⟨rfl, -⟩ := Prod.mk.inj (some.inj hi)
    obtain ⟨uses, hu⟩ := isSome_iff_exists.mp hl.1
    simp only [State.left, spend, hu, map_some, getD_some] at hs ⊢
    have : uses ≠ 0 := fun h => hs (h ▸ rfl)
    omega
  | some id =>
    obtain ⟨grant, ho, heq⟩ := map_eq_some_iff.mp hi
    obtain ⟨rfl, -⟩ := Prod.mk.inj heq
    have hm : (id, grant) ∈ s.grants := by
      obtain ⟨before, after, hg, -⟩ := lookup_eq_some_iff.mp ho
      rw [hg]
      exact mem_append_right _ mem_cons_self
    obtain ⟨uses, hu⟩ := isSome_iff_exists.mp (hl.2 _ hm)
    dsimp only at hu
    have hp : uses ≠ 0 := fun h => hs (hu.trans (h ▸ rfl))
    have hsum := sum_modifyAt (fun grant : Grant =>
      { grant with remaining := grant.remaining.map (· - 1), sequence := next }) hk ho (by
        simp only [hu, map_some, getD_some]
        omega)
    simp only [State.left, spend] at hsum ⊢
    omega

theorem limited_spend (hl : s.Limited) (n : Nat) : (s.spend channel n).Limited := by
  cases channel with
  | none => exact ⟨by simpa [spend] using hl.1, hl.2⟩
  | some id =>
    refine ⟨hl.1, fun x hi => ?_⟩
    obtain ⟨held, hh, rfl⟩ := mem_map.mp hi
    have := hl.2 held hh
    split
    · simpa using this
    · exact this

/-- The parts of a grant that was admitted. -/
theorem admitsGrant_ok {se : KernelCredentials} {r : ToolGrantRequest} {ta : BoundProcess}
    {m : Moment} (h : s.admitsGrant se r ta m = .ok ()) :
    r.sequence = s.grantSequence + 1 ∧ r.expiresAt ≤ s.policy.expiresAt ∧
      usesWithin r.scope.uses s.remaining = true := by
  unfold admitsGrant at h
  obtain ⟨-, h⟩ := check_ok.mp h
  obtain ⟨-, h⟩ := check_ok.mp h
  obtain ⟨he, h⟩ := check_ok.mp h
  obtain ⟨hs, h⟩ := check_ok.mp h
  obtain ⟨-, h⟩ := check_ok.mp h
  obtain ⟨hu, -⟩ := check_ok.mp h
  refine ⟨?_, ?_, require_ok.mp hu⟩
  · have hn := eq_of_beq (require_ok.mp he)
    unfold addChecked at hn
    split at hn
    · exact (some.inj hn).symm
    · simp at hn
  · simp only [require_ok, Bool.and_eq_true, decide_eq_true_eq] at hs
    exact hs.2

section

variable {req : ToolGrantRequest} {t : BoundProcess}

theorem line_install (hf : req.sequence ∉ s.grants.map (·.1)) : (s.install req t).line channel =
      match channel with
      | none => some ((s.install req t).remaining, s.agentSequence)
      | some id =>
        if id = req.sequence then some (req.scope.uses, 0) else s.line (some id) := by
  cases channel with
  | none => rfl
  | some id =>
    simp only [line, State.install, lookup_append]
    by_cases h : id = req.sequence
    · subst h
      rw [if_pos rfl, lookup_cons_ite, if_pos rfl, lookup_eq_none_iff.mpr]
      · rfl
      · exact fun x hi => by
          simpa using fun heq => hf (mem_map.mpr ⟨x, hi, heq.symm⟩)
    · rw [if_neg h, lookup_cons_ite, if_neg h, lookup_nil, or_none]

theorem deadline_install (hf : req.sequence ∉ s.grants.map (·.1)) : (s.install req t).deadline id =
      if id = req.sequence then some req.expiresAt else s.deadline id := by
  simp only [deadline, State.install, lookup_append]
  by_cases h : id = req.sequence
  · subst h
    rw [if_pos rfl, lookup_cons_ite, if_pos rfl, lookup_eq_none_iff.mpr]
    · rfl
    · exact fun x hi => by
        simpa using fun heq => hf (mem_map.mpr ⟨x, hi, heq.symm⟩)
  · rw [if_neg h, lookup_cons_ite, if_neg h, lookup_nil, or_none]

variable (t) in
/-- A grant's uses are the Agent's no longer. -/
theorem left_install (hl : s.Limited) (hu : usesWithin req.scope.uses s.remaining = true) :
    (s.install req t).Limited ∧ (s.install req t).left = s.left := by
  obtain ⟨remaining, he⟩ := isSome_iff_exists.mp hl.1
  rw [he] at hu
  obtain ⟨uses, hr, hle⟩ := (Option.any_eq_true _ _).mp hu
  refine ⟨⟨?_, ?_⟩, ?_⟩
  · simp [State.install, he, hr]
  · refine forall_mem_append.mpr ⟨hl.2, ?_⟩
    simp [hr]
  · have hle : uses ≤ remaining := by simpa using hle
    simp only [State.left, State.install, he, hr, getD_some, map_append,
      map_cons, map_nil, sum_append, sum_cons, sum_nil]
    omega

end

/-! ### What the owner honours -/

/-- The owner against its policy: grants are numbered and end with the policy or before, what
was admitted has numbers its channel passed and spent from the uses that the policy allows,
and what was started had its intent on record and its authority in time. -/
structure Honours (policy : DelegationPolicy) (w : World) : Prop where
  approved : w.owner.policy = policy
  keys : (w.owner.grants.map (·.1)).Nodup
  numbered : ∀ id ∈ w.owner.grants.map (·.1), id ≤ w.owner.grantSequence
  deadlines : ∀ id expiresAt, w.owner.deadline id = some expiresAt → expiresAt ≤ policy.expiresAt
  counted : ∀ channel sequence, (channel, sequence) ∈ w.prepared →
    ∃ line, w.owner.line channel = some line ∧ sequence ≤ line.2
  distinct : w.prepared.Nodup
  budget : ∀ uses, policy.scope.uses = some uses →
    w.owner.Limited ∧ w.prepared.length + w.owner.left ≤ uses
  intended : ∀ applied ∈ w.applied, ∃ entry ∈ w.written, w.owner.Attributes
    (.effectCommitIntent applied.grant applied.sequence) entry
  timely : ∀ applied ∈ w.applied, applied.at_ < policy.expiresAt ∧ ∀ id, applied.grant = some id →
      ∃ expiresAt, w.owner.deadline id = some expiresAt ∧ applied.at_ < expiresAt

variable {policy : DelegationPolicy}

theorem Alike.attributes (h : Alike s s') {d : AuditDecision} {e : AuditEntry}
    (he : s.Attributes d e) : s'.Attributes d e := by
  unfold Attributes at he ⊢
  rw [h.binding, h.policy]
  exact he

/-- What was admitted is honoured by an owner that differs in what is open. -/
theorem Honours.alike (h : Honours policy w) (ha : Alike w.owner w'.owner)
    (hp : w'.prepared = w.prepared) (hw : w.written <+: w'.written)
    (hap : w'.applied = w.applied) : Honours policy w' where
  approved := ha.policy.trans h.approved
  keys := ha.keys ▸ h.keys
  numbered := by
    rw [ha.keys, ha.grantSequence]
    exact h.numbered
  deadlines := fun id ea hi => h.deadlines id ea (ha.deadline.symm.trans hi)
  counted := fun channel n hm => by
    rw [ha.line]
    exact h.counted channel n (hp ▸ hm)
  distinct := hp ▸ h.distinct
  budget := fun u hu => by
    rw [ha.left, hp]
    exact ⟨ha.limited (h.budget u hu).1, (h.budget u hu).2⟩
  intended := fun applied hm => by
    obtain ⟨e, he, ht⟩ := h.intended applied (hap ▸ hm)
    exact ⟨e, hw.subset he, ha.attributes ht⟩
  timely := fun applied hm => by
    simp only [ha.deadline]
    exact h.timely applied (hap ▸ hm)

theorem Honours.quiet (h : Honours policy w) (hq : Quiet w w') : Honours policy w' :=
  h.alike hq.alike hq.prepared hq.written hq.applied

theorem Honours.starts {pending : PendingEffect} (h : Honours policy w)
    (hs : Starts pending w w') : Honours policy w' := by
  obtain ⟨applied, hp, -, hi, ha⟩ := hs.applied
  have hb : Honours policy { w' with applied := w.applied } :=
    h.alike hs.alike hs.prepared hs.written rfl
  refine { hb with intended := fun other ho => ?_, timely := fun other ho => ?_ }
  · rw [hp] at ho
    rcases mem_append.mp ho with ho | ho
    · exact hb.intended other ho
    · rw [mem_singleton.mp ho]
      obtain ⟨entry, he, hatt⟩ := hi
      exact ⟨entry, he, hs.alike.attributes hatt⟩
  · rw [hp] at ho
    rcases mem_append.mp ho with ho | ho
    · exact hb.timely other ho
    · rw [mem_singleton.mp ho]
      split at ha
      · next id hg =>
        obtain ⟨grant, hl, ht⟩ := ha
        have hd : w.owner.deadline id = some grant.expiresAt := by
          rw [deadline, hl, map_some]
        refine ⟨Nat.lt_of_lt_of_le ht (h.deadlines id _ hd), fun other hsa => ?_⟩
        obtain rfl : id = other := some.inj (hg.symm.trans hsa)
        exact ⟨_, hs.alike.deadline.trans hd, ht⟩
      · next hg =>
        exact ⟨h.approved ▸ ha, fun id hid => absurd (hg.symm.trans hid) (by simp)⟩

theorem Honours.spend (h : Honours policy w) {channel r : Option Nat} {n : Nat}
    (hl : w.owner.line channel = some (r, n)) (hso : r ≠ some 0) : Honours policy { w with
      owner := w.owner.spend channel (n + 1)
      prepared := w.prepared ++ [(channel, n + 1)] } where
  approved := by cases channel <;> exact h.approved
  keys := by simpa only [keys_spend] using h.keys
  numbered := by
    intro id hd
    rw [keys_spend] at hd
    cases channel <;> exact h.numbered id hd
  deadlines := fun id ea hd => h.deadlines id ea ((deadline_spend _).symm.trans hd)
  counted := fun o nu hm => by
    dsimp only
    by_cases hs : o = channel
    · subst hs
      rw [line_spend_self, hl]
      refine ⟨_, rfl, ?_⟩
      rcases mem_append.mp hm with hm | hm
      · obtain ⟨line, hl', hle⟩ := h.counted o nu hm
        obtain rfl := some.inj (hl.symm.trans hl')
        exact Nat.le_succ_of_le hle
      · exact (Prod.mk.inj (mem_singleton.mp hm)).2.le
    · rw [line_spend_of_ne hs]
      rcases mem_append.mp hm with hm | hm
      · exact h.counted o nu hm
      · exact absurd (Prod.mk.inj (mem_singleton.mp hm)).1 hs
  distinct := by
    refine nodup_append.mpr ⟨h.distinct, nodup_singleton _, fun x hi o ho => ?_⟩
    rw [mem_singleton.mp ho]
    rintro rfl
    obtain ⟨line, hl', hle⟩ := h.counted _ _ hi
    obtain rfl := some.inj (hl.symm.trans hl')
    exact absurd hle (by simp)
  budget := fun u hu => by
    obtain ⟨hli, hf⟩ := h.budget u hu
    have hp := left_spend h.keys hli hl hso (n + 1)
    refine ⟨limited_spend hli _, ?_⟩
    simp only [length_append, length_singleton]
    omega
  intended := fun a hm => by
    obtain ⟨e, he, ha⟩ := h.intended a hm
    exact ⟨e, he, by cases channel <;> exact ha⟩
  timely := fun a hm => by
    simp only [deadline_spend]
    exact h.timely a hm

theorem Honours.install (h : Honours policy w) {r : ToolGrantRequest} {ta : BoundProcess}
    {se : KernelCredentials} {m : Moment} (ha : w.owner.admitsGrant se r ta m = .ok ()) :
    Honours policy { w with owner := w.owner.install r ta } := by
  obtain ⟨hs, hx, hu⟩ := admitsGrant_ok ha
  have hf : r.sequence ∉ w.owner.grants.map (·.1) := by
    intro hm
    have := h.numbered _ hm
    omega
  have hd : ∀ id ea, w.owner.deadline id = some ea →
      (w.owner.install r ta).deadline id = some ea := by
    intro id ea hi
    rw [deadline_install hf, if_neg, hi]
    rintro rfl
    obtain ⟨g, hl, -⟩ := map_eq_some_iff.mp hi
    obtain ⟨pre, l, hg, -⟩ := lookup_eq_some_iff.mp hl
    exact hf (by simp [hg])
  refine ⟨h.approved, ?_, ?_, ?_, ?_, h.distinct, ?_, h.intended, ?_⟩
  · simp only [State.install, map_append, map_cons, map_nil]
    refine nodup_append.mpr ⟨h.keys, nodup_singleton _, fun id hi o ho => ?_⟩
    rw [mem_singleton.mp ho]
    exact fun heq => hf (heq ▸ hi)
  · simp only [State.install, map_append, map_cons, map_nil, mem_append, mem_singleton]
    rintro id (hi | rfl)
    · have := h.numbered id hi
      omega
    · exact Nat.le_refl _
  · intro id ea hi
    dsimp only at hi
    rw [deadline_install hf] at hi
    split at hi
    · rw [← some.inj hi, ← h.approved]
      exact hx
    · exact h.deadlines id ea hi
  · intro channel n hm
    obtain ⟨ln, hli, he⟩ := h.counted channel n hm
    dsimp only
    rw [line_install hf]
    cases channel with
    | none =>
      obtain rfl := some.inj hli
      exact ⟨_, rfl, he⟩
    | some id =>
      dsimp only
      rw [if_neg]
      · exact ⟨ln, hli, he⟩
      · rintro rfl
        obtain ⟨g, hl, -⟩ := map_eq_some_iff.mp hli
        obtain ⟨pre, l, hg, -⟩ := lookup_eq_some_iff.mp hl
        exact hf (by simp [hg])
  · intro u hlim
    obtain ⟨hlm, hlf⟩ := h.budget u hlim
    obtain ⟨hl', he'⟩ := left_install ta hlm hu
    exact ⟨hl', by simpa only [he'] using hlf⟩
  · intro a hm
    obtain ⟨hp, hr⟩ := h.timely a hm
    refine ⟨hp, fun id hi => ?_⟩
    obtain ⟨ea, hea, ht⟩ := hr id hi
    exact ⟨ea, hd id ea hea, ht⟩

/-! ### The system -/

/-- The owner with the admitted effects and the started ones that its callers hold, whether
a revocation returned, and whether the process is gone. -/
structure Session where
  world : World
  pending : List PendingEffect
  committed : List CommittedEffect
  revoked : Bool
  dead : Bool

/-- One call with what befalls its operations, an admitted effect that is dropped, or the
end of the process. A dropped owner is revoked. -/
inductive Event where
  | delegate (sender : KernelCredentials) (request : ToolGrantRequest) (target : BoundProcess)
      (ambient : Ambient) (faults : List Fault)
  | prepare (grant : Option Nat) (packet : AuthenticatedPacket) (ambient : Ambient)
      (faults : List Fault)
  | commit (index : Nat) (ambient : Ambient) (started : Started) (faults : List Fault)
  | drop (index : Nat)
  | finish (index : Nat) (outcome : Except DelegationError ToolExecutionResult)
      (atMs : Option Nat) (faults : List Fault)
  | revoke (atMs : Option Nat) (faults : List Fault)
  | die

namespace Session

/-- Continue from where a call ended. -/
def after {α : Type} (s : Session) (result : Ending DelegationError α × List Fault × World)
    (value : α → Session → Session) (error : Session → Session) : Session :=
  match result with
  | (.value a, _, w) => value a { s with world := w }
  | (.error _, _, w) => error { s with world := w }
  | (.crashed, _, w) => { s with world := w, dead := true }

variable (sha256 : Sha256) (lengths : Lengths)

def step (s : Session) (event : Event) : Session :=
  if s.dead then s
  else
    match event with
    | .delegate sender request target ambient faults =>
      s.after (delegate sender request target ambient faults s.world) (fun _ s => s) fun s => s
    | .prepare grant packet ambient faults =>
      s.after (prepare sha256 lengths grant packet ambient faults s.world)
        (fun pending s => { s with pending := s.pending ++ [pending] }) fun s => s
    | .commit index ambient started faults =>
      match s.pending[index]? with
      | none => s
      | some pending =>
        { s with pending := s.pending.eraseIdx index }.after
          (commit sha256 lengths pending ambient started faults s.world)
          (fun committed s => { s with committed := s.committed ++ committed.toList }) fun s => s
    | .drop index => { s with pending := s.pending.eraseIdx index }
    | .finish index outcome atMs faults =>
      match s.committed[index]? with
      | none => s
      | some committed =>
        { s with committed := s.committed.eraseIdx index }.after
          (finish committed outcome atMs faults s.world) (fun _ s => s) fun s => s
    | .revoke atMs faults =>
      s.after (revoke atMs faults s.world) (fun _ s => { s with revoked := true })
        fun s => { s with revoked := true }
    | .die => { s with dead := true }

/-- An owner that was just bound, over a record that was already there. -/
def start (owner : State) (written : List AuditEntry) : Session :=
  ⟨⟨owner, [], written, []⟩, [], [], false, false⟩

/-- Whether an event is a delegation that installs its grant. -/
def grants (s : Session) : Event → Bool
  | .delegate sender request target ambient faults =>
    match (delegate sender request target ambient faults s.world).1 with
    | .value _ => !s.dead
    | _ => false
  | _ => false

end Session

variable {session next : Session}

variable (session) in
/-- A specification of a call describes the session it leaves. -/
theorem after_of_wp {α : Type} {p : Owned α} {po : Post World DelegationError α}
    {P : Session → Prop} {value : α → Session → Session} {error : Session → Session}
    (h : Wp p po w) (fs : List Fault) (hv : ∀ a w', (p fs w).1 = .value a → po.value a w' →
      P (value a { session with world := w' }))
    (he : ∀ e w', po.error e w' → P (error { session with world := w' }))
    (hc : ∀ w', po.crashed w' → P { session with world := w', dead := true }) :
    P (session.after (p fs w) value error) := by
  have hp := h fs
  cases hr : p fs w with
  | mk en xs =>
    rw [hr] at hp
    cases en with
    | value a => exact hv a _ (by rw [hr]) hp
    | error e => exact he e _ hp
    | crashed => exact hc _ hp

/-- What one event can do to the owner and to the admitted effects. -/
inductive Turn (session : Session) (event : Event) (next : Session) : Prop where
  | quiet (hquiet : Quiet session.world next.world)
      (hpending : next.pending.Sublist session.pending)
  | granted (request : ToolGrantRequest) (target : BoundProcess) (sender : KernelCredentials)
      (moment : Moment) (hactive : session.world.owner.active = true)
      (hadmits : session.world.owner.admitsGrant sender request target moment = .ok ())
      (howner : next.world.owner = session.world.owner.install request target)
      (hprepared : next.world.prepared = session.world.prepared)
      (happlied : next.world.applied = session.world.applied)
      (hwritten : session.world.written <+: next.world.written)
      (hpending : next.pending = session.pending) (hgrants : session.grants event = true)
  | spent (pending : PendingEffect) (remaining : Option Nat) (sequence : Nat)
      (hactive : session.world.owner.active = true)
      (hline : session.world.owner.line pending.grant = some (remaining, sequence))
      (hsome : remaining ≠ some 0) (hnumber : pending.request.sequence = sequence + 1)
      (hworld : next.world = { session.world with
        owner := session.world.owner.spend pending.grant (sequence + 1)
        prepared := session.world.prepared ++ [(pending.grant, sequence + 1)] })
      (hpending : next.pending = session.pending ++ [pending])
  | started (pending : PendingEffect) (index : Nat)
      (hstarts : Starts pending session.world next.world)
      (hindex : session.pending[index]? = some pending)
      (hpending : next.pending = session.pending.eraseIdx index)

theorem turn_of_step (session : Session) (event : Event) :
    Turn session event (session.step sha256 lengths event) := by
  unfold Session.step
  split
  · exact .quiet (.refl _) (.refl _)
  · next hl =>
    cases event with
    | delegate sender request target ambient faults =>
      refine after_of_wp session (delegate_installs sender request target ambient) faults ?_
        (fun _ _ h => .quiet h (.refl _)) fun _ h => .quiet h (.refl _)
      rintro grant w' hv ⟨-, ho, hp, hap, hw, ha, moment, hd⟩
      refine .granted request target sender moment ha hd ho hp hap hw
        rfl ?_
      simp only [Session.grants, hv]
      simpa using hl
    | prepare grant packet ambient faults =>
      refine after_of_wp session (prepare_spends grant packet ambient) faults ?_
        (fun _ _ h => .quiet h (.refl _)) fun _ h => .quiet h (.refl _)
      rintro pending w' - ⟨ho, hp, hap, hw, rfl, ha, remaining, sequence, hc, hn, hs⟩
      refine .spent pending remaining sequence ha (account_ok.mp hc) hs hn ?_ rfl
      rw [hn] at ho
      rw [PendingEffect.identity, hn] at hp
      cases w'
      simp_all
    | commit index ambient started faults =>
      dsimp only
      split
      · exact .quiet (.refl _) (.refl _)
      · next pending hi =>
        refine after_of_wp { session with pending := session.pending.eraseIdx index }
          (commit_starts pending ambient started) faults
          (fun _ _ _ h => .started pending index h hi rfl) (fun _ _ h => ?_) fun _ h => ?_
        all_goals
          rcases h with h | h
          · exact .quiet h (eraseIdx_sublist ..)
          · exact .started pending index h hi rfl
    | drop index => exact .quiet (.refl _) (eraseIdx_sublist ..)
    | finish index outcome atMs faults =>
      dsimp only
      split
      · exact .quiet (.refl _) (.refl _)
      · next committed _ =>
        exact after_of_wp { session with committed := session.committed.eraseIdx index }
          (finish_quietly committed outcome atMs) faults (fun _ _ _ h => .quiet h.1 (.refl _))
          (fun _ _ h => .quiet h (.refl _)) fun _ h => .quiet h (.refl _)
    | revoke atMs faults =>
      exact after_of_wp session (revoke_quietly atMs) faults (fun _ _ _ h => .quiet h.1 (.refl _))
        (fun _ _ h => .quiet h (.refl _)) fun _ h => .quiet h (.refl _)
    | die => exact .quiet (.refl _) (.refl _)

/-! ### Every run -/

/-- The session honours its policy, each admitted effect is started at most once, and no
effect is open behind a revocation that returned. -/
structure Sound (policy : DelegationPolicy) (session : Session) : Prop where
  honours : Honours policy session.world
  once : (session.world.applied.map Applied.identity ++
    session.pending.map PendingEffect.identity).Nodup
  prepared : ∀ identity ∈ session.world.applied.map Applied.identity ++
    session.pending.map PendingEffect.identity, identity ∈ session.world.prepared
  closed : session.revoked = true → session.world.owner.active = false

/-- A flag that a call cannot raise is raised after it only if it was before. -/
private theorem after_lowered {α : Type} {p : Owned α} {fs : List Fault}
    {value : α → Session → Session} {error : Session → Session} (hl : session.revoked = false)
    (hv : ∀ a s, (value a s).revoked = s.revoked) (he : ∀ s, (error s).revoked = s.revoked) :
    (session.after (p fs w) value error).revoked = false := by
  cases hr : p fs w with
  | mk en xs =>
    cases en with
    | value a => exact (hv a _).trans hl
    | error e => exact (he _).trans hl
    | crashed => exact hl

/-- Behind a revocation that returned nothing is open any more. -/
theorem step_closed {event : Event}
    (h : session.revoked = true → session.world.owner.active = false)
    (he : (session.step sha256 lengths event).revoked = true) :
    (session.step sha256 lengths event).world.owner.active = false := by
  cases hb : session.revoked with
  | true =>
    have hc := h hb
    have ht : Turn session event (session.step sha256 lengths event) := turn_of_step session event
    cases ht with
    | quiet hq _ => exact hq.closed hc
    | granted _ _ _ _ ha => simp [hc] at ha
    | spent _ _ _ ha => simp [hc] at ha
    | started _ _ hs => exact absurd hs.active.1 (by simp [hc])
  | false =>
    revert he
    unfold Session.step
    split
    · simp [hb]
    · cases event with
      | revoke atMs faults =>
        exact after_of_wp session
          (P := fun next => next.revoked = true → next.world.owner.active = false)
          (revoke_closes atMs) faults (fun _ _ _ h _ => h) (fun _ _ h _ => h)
          fun _ _ hr => absurd (hr.symm.trans hb) (by simp)
      | delegate | prepare =>
        exact fun hr => absurd
          (hr.symm.trans (after_lowered hb (fun _ _ => rfl) fun _ => rfl)) (by simp)
      | commit | finish =>
        dsimp only
        split
        · simp [hb]
        · exact fun hr => absurd
            (hr.symm.trans (after_lowered hb (fun _ _ => rfl) fun _ => rfl)) (by simp)
      | drop | die => simp [hb]

theorem Sound.step (h : Sound policy session) (e : Event) :
    Sound policy (session.step sha256 lengths e) := by
  have hc : (session.step sha256 lengths e).revoked = true →
      (session.step sha256 lengths e).world.owner.active = false := step_closed h.closed
  have ht : Turn session e (session.step sha256 lengths e) := turn_of_step session e
  cases ht with
  | quiet hq he =>
    have hu := (List.Sublist.refl (session.world.applied.map Applied.identity)).append
      (he.map PendingEffect.identity)
    refine ⟨h.honours.quiet hq, ?_, ?_, hc⟩
    · rw [hq.applied]
      exact h.once.sublist hu
    · rw [hq.applied, hq.prepared]
      exact fun i hm => h.prepared i (hu.subset hm)
  | granted re ta se m hac hadm ho hr ha hwr he hg =>
    refine ⟨?_, ?_, ?_, hc⟩
    · refine (h.honours.install hadm).alike ?_ hr hwr ha
      rw [ho]
      exact .refl _
    · rw [ha, he]
      exact h.once
    · rw [ha, he, hr]
      exact h.prepared
  | spent pd r n hac hl hso hn hw he =>
    have hd : pd.identity = (pd.grant, n + 1) := by
      rw [PendingEffect.identity, hn]
    have hh := h.honours.spend hl hso
    -- the new identity is not among those admitted before
    have hf : pd.identity ∉ session.world.prepared := by
      rw [hd]
      exact fun hm => (nodup_append.mp hh.distinct).2.2 _ hm _ (mem_singleton_self _) rfl
    refine ⟨hw ▸ hh, ?_, ?_, hc⟩
    · rw [hw, he, map_append, ← append_assoc]
      refine nodup_append.mpr ⟨h.once, nodup_singleton _, fun o hot x hi => ?_⟩
      rintro rfl
      rw [map_singleton, mem_singleton] at hi
      exact hf (hi ▸ h.prepared _ hot)
    · rw [hw, he, map_append, ← append_assoc]
      refine forall_mem_append.mpr ⟨fun i hm => ?_, fun i hm => ?_⟩
      · exact mem_append_left _ (h.prepared i hm)
      · rw [map_singleton, mem_singleton, hd] at hm
        exact mem_append_right _ (mem_singleton.mpr hm)
  | started pd j hs hx he =>
    obtain ⟨a, ha, hd, -⟩ := hs.applied
    -- the identity of the started effect moves from one list to the other
    have hp : (session.world.applied.map Applied.identity ++
        session.pending.map PendingEffect.identity).Perm
        ((session.step sha256 lengths e).world.applied.map Applied.identity ++
          (session.step sha256 lengths e).pending.map PendingEffect.identity) := by
      rw [ha, he, map_append, append_assoc]
      refine List.Perm.append_left _ ?_
      rw [map_singleton, hd, singleton_append, ← map_cons]
      exact ((List.getElem?_eq_some_iff.mp hx).elim fun hlt hget =>
        hget ▸ (getElem_cons_eraseIdx_perm hlt).symm).map _
    refine ⟨h.honours.starts hs, hp.nodup_iff.mp h.once, fun i hm => ?_, hc⟩
    rw [hs.prepared]
    exact h.prepared i (hp.mem_iff.mpr hm)

/-- What a run never exceeds: the uses that were started and those that are left, one number
an admitted effect, an intent on record before each start, and the deadlines of the policy
and of the grant. -/
structure Conserved (policy : DelegationPolicy) (session : Session) : Prop where
  budget : ∀ uses, policy.scope.uses = some uses →
    session.world.applied.length + session.world.owner.left ≤ uses
  numbered : session.world.prepared.Nodup
  once : (session.world.applied.map Applied.identity).Nodup ∧
    session.world.applied.map Applied.identity ⊆ session.world.prepared
  intended : ∀ applied ∈ session.world.applied, ∃ entry ∈ session.world.written,
    session.world.owner.Attributes (.effectCommitIntent applied.grant applied.sequence) entry
  timely : ∀ applied ∈ session.world.applied, applied.at_ < policy.expiresAt ∧
    ∀ id, applied.grant = some id →
      ∃ expiresAt, session.world.owner.deadline id = some expiresAt ∧ applied.at_ < expiresAt

theorem Sound.conserved (h : Sound policy session) : Conserved policy session where
  budget := fun u hu => by
    have hl : session.world.applied.length ≤ session.world.prepared.length := by
      rw [← length_map Applied.identity]
      exact ((nodup_append.mp h.once).1.subperm fun i hm =>
        h.prepared i (mem_append_left _ hm)).length_le
    have := (h.honours.budget u hu).2
    omega
  numbered := h.honours.distinct
  once := ⟨(nodup_append.mp h.once).1, fun i hm =>
    h.prepared i (mem_append_left _ hm)⟩
  intended := h.honours.intended
  timely := h.honours.timely

/-- A limit is no greater than another one; without a limit there is none either. -/
def NoMore (after before : Option Nat) : Prop :=
  match before with
  | none => after = none
  | some n => ∃ m, after = some m ∧ m ≤ n

theorem NoMore.refl (l : Option Nat) : NoMore l l := by
  cases l with
  | none => rfl
  | some n => exact ⟨n, rfl, Nat.le_refl n⟩

theorem noMore_pred (l : Option Nat) : NoMore (l.map (· - 1)) l := by
  cases l with
  | none => rfl
  | some n => exact ⟨n - 1, rfl, Nat.sub_le n 1⟩

/-- What one event leaves as it is: nothing is admitted or started behind a revocation that
returned, no channel has more left than before, and only a delegation that installs its
grant makes a channel. -/
structure Narrows (session : Session) (event : Event) (next : Session) : Prop where
  final : session.revoked = true → next.world.applied = session.world.applied ∧
    next.world.prepared = session.world.prepared
  remaining : ∀ channel line, session.world.owner.line channel = some line →
    ∃ line', next.world.owner.line channel = some line' ∧ NoMore line'.1 line.1
  refused : session.grants event = false → ∀ channel,
    (next.world.owner.line channel).isSome = (session.world.owner.line channel).isSome

theorem narrows_of_alike {e : Event} (ha : Alike session.world.owner next.world.owner)
    (hf : session.revoked = true → next.world.applied = session.world.applied ∧
      next.world.prepared = session.world.prepared) : Narrows session e next where
  final := hf
  remaining := fun channel l hl => ⟨l, ha.line.trans hl, .refl _⟩
  refused := fun _ channel => by rw [ha.line]

theorem Sound.narrows (h : Sound policy session) (e : Event) :
    Narrows session e (session.step sha256 lengths e) := by
  have ht : Turn session e (session.step sha256 lengths e) := turn_of_step session e
  cases ht with
  | quiet hq _ => exact narrows_of_alike hq.alike fun _ => ⟨hq.applied, hq.prepared⟩
  | granted re ta se m ha hd ho _ _ _ _ hg =>
    have hf : re.sequence ∉ session.world.owner.grants.map (·.1) := fun hm => by
      have := h.honours.numbered _ hm
      have := (admitsGrant_ok hd).1
      omega
    refine ⟨fun hr => absurd ha (by simp [h.closed hr]), ?_, fun he => absurd hg (by simp [he])⟩
    intro channel ln hl
    rw [ho, line_install hf]
    cases channel with
    | none =>
      refine ⟨_, rfl, ?_⟩
      obtain rfl := some.inj hl
      dsimp only [State.install]
      cases session.world.owner.remaining with
      | none => rfl
      | some n =>
        cases re.scope.uses with
        | none => exact .refl _
        | some u => exact ⟨n - u, rfl, Nat.sub_le n u⟩
    | some id =>
      dsimp only
      rw [if_neg]
      · exact ⟨ln, hl, .refl _⟩
      · rintro rfl
        obtain ⟨g, hlo, -⟩ := map_eq_some_iff.mp hl
        obtain ⟨pre, l, hg, -⟩ := lookup_eq_some_iff.mp hlo
        exact hf (by simp [hg])
  | spent pd r seq ha hl hso hn hw hp =>
    refine ⟨fun hr => absurd ha (by simp [h.closed hr]), ?_, ?_⟩
    · intro channel ln hh
      rw [hw]
      dsimp only
      by_cases hs : channel = pd.grant
      · subst hs
        rw [line_spend_self, hh]
        exact ⟨_, rfl, noMore_pred _⟩
      · exact ⟨ln, (line_spend_of_ne hs _).trans hh, .refl _⟩
    · intro _ channel
      rw [hw]
      dsimp only
      by_cases hs : channel = pd.grant
      · subst hs
        rw [line_spend_self, Option.isSome_map]
      · rw [line_spend_of_ne hs]
  | started pd i hst _ _ =>
    exact narrows_of_alike hst.alike fun hr =>
      absurd hst.active.1 (by simp [h.closed hr])

/-- An owner that was just bound is sound. -/
theorem sound_start {b : CapabilityBinding} {a : BoundProcess} {l : Look} {now : Instant}
    {o : State} (wr : List AuditEntry) (hn : new b policy a l now = .ok o) :
    Sound policy (Session.start o wr) := by
  unfold new at hn
  simp only [check_ok] at hn
  obtain ⟨-, -, -, hn⟩ := hn
  obtain rfl := Except.ok.inj hn
  refine ⟨⟨rfl, nodup_nil, fun _ h => absurd h not_mem_nil,
    fun _ _ h => by simp [deadline, Session.start] at h, fun _ _ h =>
        absurd h not_mem_nil, nodup_nil, fun u hu => ⟨⟨?_, ?_⟩, ?_⟩,
    fun _ h => absurd h not_mem_nil, fun _ h => absurd h not_mem_nil⟩, nodup_nil,
    fun _ h => absurd h not_mem_nil, fun h => by simp [Session.start] at h⟩
  · simp [Session.start, hu]
  · exact fun _ h => absurd h not_mem_nil
  · simp [Session.start, State.left, hu]

/-- In every run of calls on one owner, which may stop at any operation, the effects that
were started and the uses that the Agent and all grants have left stay within the policy; an
effect has its own number, its durable intent and its authority in time; nothing is admitted
or started behind a revocation that returned, and no call gives a channel more than it had. -/
theorem delegation_conserves {binding : CapabilityBinding} {policy : DelegationPolicy}
    {agent : BoundProcess} {look : Look} {now : Instant} {owner : State}
    (hnew : new binding policy agent look now = .ok owner) (sha256 : Sha256) (lengths : Lengths)
    (written : List AuditEntry) (events : List Event) :
    Always (Session.step sha256 lengths) (Conserved policy) (Session.start owner written) events ∧
      Throughout (Session.step sha256 lengths)
        (fun session event => Narrows session event (session.step sha256 lengths event))
        (Session.start owner written) events := by
  have hs : Always (Session.step sha256 lengths) (Sound policy) (Session.start owner written)
      events :=
    always_of_throughout (fun _ event h _ => h.step event) (sound_start written hnew)
      (throughout_of_forall (fun _ _ => trivial) _ events)
  exact ⟨hs.mono fun _ h => h.conserved, hs.throughout fun _ event h => h.narrows event⟩

/-- An Agent with two uses of one command. -/
def samplePolicy : DelegationPolicy :=
    ⟨"a", ⟨.fromRaw (Vector.replicate 32 0), 1000, some 2⟩, true, 10⟩

def sampleAgent : BoundProcess := ⟨⟨1, 2, 3⟩, ⟨1, 2, 3⟩, false⟩

def sampleBinding : CapabilityBinding := ⟨"s", "r", "c", 1, 0, 2, 3, 1⟩

def sampleOwner : State := ⟨sampleBinding, samplePolicy, sampleAgent, [], some 2, 0, 0, true, false⟩

def sampleHash : Sha256 := fun _ => Vector.replicate 32 0

def sampleLengths : Lengths := ⟨fun _ => 0, fun _ => 0⟩

theorem delegation_conserves_sample :
    let events : List Event := [.revoke (some 5) [.none, .crash]]
    Always (Session.step sampleHash sampleLengths) (Conserved samplePolicy)
        (Session.start sampleOwner []) events ∧ Throughout (Session.step sampleHash sampleLengths)
        (fun session e => Narrows session e (session.step sampleHash sampleLengths e))
        (Session.start sampleOwner []) events :=
  delegation_conserves
    (rfl : new sampleBinding samplePolicy sampleAgent ⟨false, some true⟩ 3 = .ok sampleOwner)
    sampleHash sampleLengths [] _

end Louiselm.Broker.Delegation
