import Louiselm.Broker.CommandAudit

/-!
# The accounts of a command budget

What the budget of one Session is for, apart from either program that keeps it: uses the
Agent has left, shares it has given to grants for good, and the numbers that are next. A
charge is a use or a reservation. The replay of `broker/command_replay.rs` computes these
accounts from the entries of the charges.
-/

namespace Louiselm.Broker
open List
open Option (map_some some.injEq some.inj none_or)

/-- What a grant reserved, has left, and has served. -/
structure Share where
  reserved : Option Nat
  remaining : Option Nat
  sequence : Nat
deriving DecidableEq, Repr

/-- The budget of a Session and the shares of its living grants. -/
structure Accounts where
  remaining : Option Nat
  principalSequence : Nat
  dispatchSequence : Nat
  grantSequence : Nat
  grants : List (Nat × Share)
deriving DecidableEq, Repr

/-- One use by the Agent or by a grant, or the reservation of a grant. -/
inductive Charge where
  | use (grant : Option Nat) (sequence : Nat)
  | reservation (grant : Nat) (uses : Option Nat)
deriving DecidableEq, Repr

/-! ### Lists by key -/

section

variable {α : Type} {key o : Nat} {change : α → α} {xs : List (Nat × α)}

theorem lookup_cons_ite (v : α) :
    ((o, v) :: xs).lookup key = if key = o then some v else xs.lookup key := by
  by_cases h : key = o
  · simp [h]
  · rw [if_neg h, lookup_cons, beq_false_of_ne h]

theorem lookup_modifyAt_self :
    (modifyAt key change xs).lookup key = (xs.lookup key).map change := by
  induction xs with
  | nil => rfl
  | cons x xs ih =>
    obtain ⟨k, v⟩ := x
    change (((if k = key then (k, change v) else (k, v)) : Nat × α) ::
      modifyAt key change xs).lookup key = _
    by_cases h : k = key
    · rw [if_pos h, lookup_cons_ite, lookup_cons_ite, if_pos h.symm, if_pos h.symm, map_some]
    · rw [if_neg h, lookup_cons_ite, lookup_cons_ite, if_neg (Ne.symm h), if_neg (Ne.symm h), ih]

theorem lookup_modifyAt_of_ne (hn : o ≠ key) : (modifyAt key change xs).lookup o = xs.lookup o := by
  induction xs with
  | nil => rfl
  | cons x xs ih =>
    obtain ⟨k, v⟩ := x
    change (((if k = key then (k, change v) else (k, v)) : Nat × α) ::
      modifyAt key change xs).lookup o = _
    by_cases h : k = key
    · rw [if_pos h, lookup_cons_ite, lookup_cons_ite, ih, h, if_neg hn, if_neg hn]
    · rw [if_neg h, lookup_cons_ite, lookup_cons_ite, ih]

theorem length_modifyAt : (modifyAt key change xs).length = xs.length := length_map ..

theorem map_modifyAt {β : Type} (f : α → β) {c' : β → β} (h : ∀ v, f (change v) = c' (f v)) :
    (modifyAt key change xs).map (fun x => (x.1, f x.2)) =
      modifyAt key c' (xs.map fun x => (x.1, f x.2)) := by
  simp only [modifyAt, map_map]
  refine map_congr_left fun x _ => ?_
  simp only [Function.comp_apply]
  split <;> simp [h]

theorem lookup_map {β : Type} (f : α → β) :
    (xs.map fun x => (x.1, f x.2)).lookup key = (xs.lookup key).map f := by
  induction xs with
  | nil => rfl
  | cons x xs ih =>
    rw [map_cons, lookup_cons_ite, ih, ← Prod.mk.eta (p := x), lookup_cons_ite]
    split <;> rfl

end

/-! ### Charging the accounts -/

namespace Charge

/-- The audit decision that records a charge. -/
def decision (pid revision : Nat) : Charge → AuditDecision
  | .use grant sequence => .effectCommitIntent grant sequence
  | .reservation grant uses => .toolGranted grant pid revision uses

/-- One more use of a share. -/
def useShare (sequence : Nat) (share : Share) : Share :=
  { share with remaining := share.remaining.map (· - 1), sequence }

/-- The accounts after a charge. -/
def apply (s : Accounts) : Charge → Accounts
  | .use none sequence =>
    { s with
      remaining := s.remaining.map (· - 1)
      principalSequence := sequence
      dispatchSequence := s.dispatchSequence + 1 }
  | .use (some grant) sequence =>
    { s with
      grants := modifyAt grant (useShare sequence) s.grants
      dispatchSequence := s.dispatchSequence + 1 }
  | .reservation grant uses =>
    { s with
      remaining := match s.remaining, uses with
        | some remaining, some uses => some (remaining - uses)
        | remaining, _ => remaining
      grantSequence := grant
      grants := s.grants ++ [(grant, ⟨uses, uses, 0⟩)] }

/-- Whether the accounts cover a charge that is the next of its kind. -/
def Allowed (s : Accounts) : Charge → Prop
  | .use none sequence => sequence = s.principalSequence + 1 ∧ s.remaining ≠ some 0
  | .use (some grant) sequence => ∃ share, s.grants.lookup grant = some share ∧
      sequence = share.sequence + 1 ∧ share.remaining ≠ some 0
  | .reservation grant uses => grant = s.grantSequence + 1 ∧
      (∀ n, uses = some n → 1 ≤ n ∧ n < 2 ^ 32) ∧
      ∀ left, s.remaining = some left → ∃ n, uses = some n ∧ n ≤ left

end Charge

/-! ### The replay computes them -/

/-- A replay state holds the accounts that a limit and the entries so far leave. -/
structure Matches (limit : Option Nat) (entries : Nat) (r : ReplayState) (s : Accounts) : Prop where
  consumed : r.consumed = true
  capped : ∀ n, limit = some n → r.spent ≤ n ∧ s.remaining = some (n - r.spent)
  uncapped : limit = none → s.remaining = none ∧ r.spent ≤ r.dispatchSequence
  principal : s.principalSequence = r.principalSequence
  dispatch : s.dispatchSequence = r.dispatchSequence
  granted : s.grantSequence = r.grants.length
  keys : ∀ grant reserved served, r.grants.lookup grant = some (reserved, served) →
    grant ≤ r.grants.length ∧ served ≤ r.dispatchSequence
  shares : ∀ grant share, s.grants.lookup grant = some share → ∃ reserved,
    r.grants.lookup grant = some (reserved, share.sequence) ∧
      (∀ n, share.reserved = some n → reserved = n ∧
        share.remaining = some (n - share.sequence) ∧ share.sequence ≤ n) ∧
      (share.reserved = none → reserved = 2 ^ 32 - 1 ∧ share.remaining = none)
  principalLe : r.principalSequence ≤ r.dispatchSequence
  dispatchLe : r.dispatchSequence ≤ entries

namespace Matches

variable {li : Option Nat} {es : Nat} {r : ReplayState} {s : Accounts} {so : Source}

/-- More entries that charge nothing change nothing. -/
theorem mono (h : Matches li es r s) {l : Nat} (hl : es ≤ l) :
    Matches li l r s :=
  { h with dispatchLe := h.dispatchLe.trans hl }

theorem revoke (h : Matches li es r s) (revoked : Bool) : Matches li es { r with revoked } s :=
  ⟨h.consumed, h.capped, h.uncapped, h.principal, h.dispatch, h.granted, h.keys, h.shares,
    h.principalLe, h.dispatchLe⟩

private theorem addChecked_one {b n : Nat} (h : n + 1 < 2 ^ b) :
    addChecked b n 1 = some (n + 1) := if_pos h

/-- The entry of a use by the Agent replays to the accounts after it. -/
theorem useAgent (h : Matches li es r s) {seq : Nat} (hes : es < maxEntries)
    (hi : ∀ n, li = some n → n < 2 ^ 32) (ha : (Charge.use none seq).Allowed s) :
    ∃ t, r.decide so li (.effectCommitIntent none seq) = some t ∧
      Matches li (es + 1) t ((Charge.use none seq).apply s) := by
  obtain ⟨rfl, hf⟩ := ha
  have hm : maxEntries = 4096 := rfl
  have hpr := h.principalLe
  have hd := h.dispatchLe
  have hs : r.spent + 1 < 2 ^ 32 := by
    cases hl : li with
    | none =>
      have := (h.uncapped hl).2
      omega
    | some n =>
      obtain ⟨he, hr⟩ := h.capped n hl
      have := hi n hl
      rw [hr] at hf
      have : n - r.spent ≠ 0 := fun hz => hf (congrArg some hz)
      omega
  have hp : addChecked 64 r.principalSequence 1 = some (s.principalSequence + 1) := by
    rw [h.principal]
    exact addChecked_one (by omega)
  refine ⟨{ r with
    principalSequence := s.principalSequence + 1
    dispatchSequence := r.dispatchSequence + 1
    spent := r.spent + 1 }, ?_, ?_⟩
  · simp [ReplayState.decide, h.consumed, hp, addChecked_one hs,
      addChecked_one (show r.dispatchSequence + 1 < 2 ^ 64 by omega)]
  · exact {
      consumed := h.consumed
      capped := by
        intro n hl
        obtain ⟨he, hr⟩ := h.capped n hl
        rw [hr] at hf
        have hn : n - r.spent ≠ 0 := fun hz => hf (congrArg some hz)
        refine ⟨show r.spent + 1 ≤ n by omega, ?_⟩
        simp only [Charge.apply, hr, map_some]
        congr 1
      uncapped := by
        intro hl
        obtain ⟨hr, he⟩ := h.uncapped hl
        refine ⟨by simp [Charge.apply, hr], show r.spent + 1 ≤ r.dispatchSequence + 1 by omega⟩
      principal := rfl
      dispatch := by rw [Charge.apply, h.dispatch]
      granted := h.granted
      keys := by
        intro g re se hg
        have := h.keys g re se hg
        exact ⟨this.1, this.2.trans (Nat.le_succ _)⟩
      shares := h.shares
      principalLe := by
        rw [h.principal]
        exact Nat.succ_le_succ hpr
      dispatchLe := Nat.succ_le_succ hd }

/-- The entry of a use by a grant replays to the accounts after it. -/
theorem useGrant (h : Matches li es r s) {g seq : Nat}
    (hes : es < maxEntries) (ha : (Charge.use (some g) seq).Allowed s) :
    ∃ t, r.decide so li (.effectCommitIntent (some g) seq) = some t ∧
      Matches li (es + 1) t ((Charge.use (some g) seq).apply s) := by
  obtain ⟨sh, hh, rfl, hf⟩ := ha
  have hm : maxEntries = 4096 := rfl
  have hd := h.dispatchLe
  obtain ⟨re, ho, hc, hu⟩ := h.shares g sh hh
  have hse := (h.keys _ _ _ ho).2
  have hro : sh.sequence + 1 ≤ re := by
    cases hr : sh.reserved with
    | none =>
      have := (hu hr).1
      omega
    | some n =>
      obtain ⟨rfl, he, hle⟩ := hc n hr
      rw [he] at hf
      have : re - sh.sequence ≠ 0 := fun hz => hf (congrArg some hz)
      omega
  refine ⟨{ r with
    grants := modifyAt g (fun it => (it.1, sh.sequence + 1)) r.grants
    dispatchSequence := r.dispatchSequence + 1 }, ?_, ?_⟩
  · have hs : addChecked 64 sh.sequence 1 = some (sh.sequence + 1) :=
      addChecked_one (by omega)
    simpa [ReplayState.decide, ho, hs,
      addChecked_one (show r.dispatchSequence + 1 < 2 ^ 64 by omega)] using hro
  · exact {
      consumed := h.consumed
      capped := h.capped
      uncapped := fun hl => ⟨(h.uncapped hl).1, (h.uncapped hl).2.trans (Nat.le_succ _)⟩
      principal := h.principal
      dispatch := by rw [Charge.apply, h.dispatch]
      granted := by rw [length_modifyAt, Charge.apply, h.granted]
      keys := by
        intro x r' se' hg
        rw [length_modifyAt]
        by_cases hne : x = g
        · subst hne
          rw [lookup_modifyAt_self, ho] at hg
          simp only [map_some, some.injEq, Prod.mk.injEq] at hg
          obtain ⟨rfl, rfl⟩ := hg
          exact ⟨(h.keys _ _ _ ho).1, Nat.succ_le_succ hse⟩
        · rw [lookup_modifyAt_of_ne hne] at hg
          exact ⟨(h.keys _ _ _ hg).1, (h.keys _ _ _ hg).2.trans (Nat.le_succ _)⟩
      shares := by
        intro x s' hg
        rw [Charge.apply] at hg
        by_cases hne : x = g
        · subst hne
          rw [lookup_modifyAt_self, hh] at hg
          obtain rfl := some.inj hg
          refine ⟨re, by rw [lookup_modifyAt_self, ho]; rfl, ?_, ?_⟩
          · intro n hn
            obtain ⟨rfl, he, hle⟩ := hc n hn
            refine ⟨rfl, ?_, hro⟩
            simp only [Charge.useShare, he, map_some]
            congr 1
          · intro hn
            obtain ⟨hr, he⟩ := hu hn
            exact ⟨hr, by simp [Charge.useShare, he]⟩
        · rw [lookup_modifyAt_of_ne hne] at hg ⊢
          exact h.shares x s' hg
      principalLe := h.principalLe.trans (Nat.le_succ _)
      dispatchLe := Nat.succ_le_succ hd }

/-- The entry of a reservation replays to the accounts after it. -/
theorem reserve (h : Matches li es r s) {grant pid : Nat} {uses : Option Nat}
    (hi : ∀ n, li = some n → n < 2 ^ 32) (ha : (Charge.reservation grant uses).Allowed s) :
    ∃ next, r.decide so li (.toolGranted grant pid so.envelopeRevision uses) =
        some next ∧ Matches li (es + 1) next ((Charge.reservation grant uses).apply s) := by
  obtain ⟨rfl, hus, hlf⟩ := ha
  have hne : s.grantSequence + 1 = r.grants.length + 1 := by rw [h.granted]
  have hf : r.grants.lookup (s.grantSequence + 1) = none := by
    cases hg : r.grants.lookup (s.grantSequence + 1) with
    | none => rfl
    | some pair =>
      have := (h.keys _ pair.1 pair.2 hg).1
      omega
  obtain ⟨reserved, spent, hre, hp, hc, hu, hs⟩ :
      ∃ reserved spent, ReplayState.reservation li uses = some reserved ∧
        ReplayState.reserve li r.spent reserved = some spent ∧ (∀ n, li = some n → spent ≤ n ∧
          ((Charge.reservation (s.grantSequence + 1) uses).apply s).remaining = some (n - spent)) ∧
        (li = none → spent = r.spent) ∧
        (∀ n, uses = some n → reserved = n) ∧ (uses = none → reserved = 2 ^ 32 - 1) := by
    cases hl : li with
    | none =>
      refine ⟨uses.getD (2 ^ 32 - 1), r.spent, ?_, rfl, by simp, by simp, ?_, ?_⟩
      · cases uses with
        | none => rfl
        | some n =>
          have := (hus n rfl).1
          simp only [ReplayState.reservation, Option.getD_some]
          exact if_pos (by omega)
      · rintro n rfl
        rfl
      · rintro rfl
        rfl
    | some n =>
      obtain ⟨hle, he⟩ := h.capped n hl
      obtain ⟨used, rfl, huse⟩ := hlf _ he
      have hpos := (hus used rfl).1
      have hn := hi n hl
      refine ⟨used, r.spent + used, ?_, ?_, ?_, by simp, by simp, by simp⟩
      · exact if_pos (by omega)
      · have hfi : r.spent + used < 2 ^ 32 := by omega
        exact if_pos hfi
      · rintro m hm
        obtain rfl := some.inj hm
        refine ⟨by omega, ?_⟩
        simp only [Charge.apply, he]
        congr 1
        omega
  refine ⟨{ r with
    grants := r.grants ++ [(s.grantSequence + 1, reserved, 0)]
    spent }, ?_, ?_⟩
  · rw [hne] at hf ⊢
    simp [ReplayState.decide, hre, hp, h.consumed, hf]
  · exact {
      consumed := h.consumed
      capped := hc
      uncapped := by
        intro hl
        obtain ⟨he, hle⟩ := h.uncapped hl
        refine ⟨by simp [Charge.apply, he], ?_⟩
        rw [hu hl]
        exact hle
      principal := h.principal
      dispatch := h.dispatch
      granted := by simp [Charge.apply, h.granted]
      keys := by
        intro other reserved' served hg
        rw [length_append, length_singleton]
        rw [lookup_append] at hg
        cases hold : r.grants.lookup other with
        | some pair =>
          rw [hold] at hg
          obtain rfl := some.inj hg
          have := h.keys other _ _ hold
          exact ⟨by omega, this.2⟩
        | none =>
          rw [hold, none_or, lookup_cons_ite] at hg
          split at hg
          · next ho =>
            simp only [some.injEq, Prod.mk.injEq] at hg
            exact ⟨by omega, by omega⟩
          · simp at hg
      shares := by
        intro other share hg
        simp only [Charge.apply, lookup_append] at hg ⊢
        cases hold : s.grants.lookup other with
        | some share' =>
          rw [hold] at hg
          obtain rfl := some.inj hg
          obtain ⟨reserved', hlo, hr⟩ := h.shares other _ hold
          exact ⟨reserved', by rw [hlo]; rfl, hr⟩
        | none =>
          rw [hold, none_or, lookup_cons_ite] at hg
          split at hg
          · next ho =>
            obtain rfl := some.inj hg
            subst ho
            refine ⟨reserved, ?_, ?_, ?_⟩
            · rw [hf, none_or, lookup_cons_ite, if_pos rfl]
            · exact fun n hn => ⟨hs.1 n hn, by simpa using hn, Nat.zero_le _⟩
            · exact fun hn => ⟨hs.2 hn, hn⟩
          · simp at hg
      principalLe := h.principalLe
      dispatchLe := h.dispatchLe.trans (Nat.le_succ _) }

/-- The entry of any charge the accounts cover replays to the accounts after it. -/
theorem charge (h : Matches li es r s) (so : Source) {c : Charge} (pid : Nat)
    (he : es < maxEntries) (hl : ∀ n, li = some n → n < 2 ^ 32) (ha : c.Allowed s) :
    ∃ t, r.decide so li (c.decision pid so.envelopeRevision) = some t ∧
      Matches li (es + 1) t (c.apply s) := by
  match c with
  | .use none seq => exact h.useAgent he hl ha
  | .use (some g) seq => exact h.useGrant he ha
  | .reservation g u => exact h.reserve hl ha

end Matches

/-- Whether replay takes a decision for neither a consumption nor a charge. -/
def AuditDecision.inert : AuditDecision → Bool
  | .authorizationConsumed => false
  | .effectCommitIntent .. => false
  | .toolGranted .. => false
  | _ => true

/-- An inert entry changes at most whether the Session was revoked. -/
theorem ReplayState.decide_inert {source : Source} {limit : Option Nat} {r : ReplayState}
    {decision : AuditDecision} (h : decision.inert = true) :
    ∃ revoked, r.decide source limit decision = some { r with revoked } := by
  cases decision <;> first | exact ⟨_, rfl⟩ | simp [AuditDecision.inert] at h

end Louiselm.Broker
