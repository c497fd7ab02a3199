import Louiselm.Broker.CommandAccounts
import Mathlib.Algebra.Order.BigOperators.Group.List

/-!
# The ledger of a command budget

The charges of one Session in the order they became durable, and the accounts they leave.
A grant's share lasts as long as the ledger, whoever serves it, so what a ledger covers is
bounded by the uses that were approved. Replay computes the accounts of the ledger that the
record holds.
-/

namespace Louiselm.Broker
open List Accounts Charge
open Option (some.inj map_some getD_some none_or bind_eq_bind bind_some)

namespace Charge

def isUse : Charge → Bool
  | .use .. => true
  | .reservation .. => false

def isUseOf (grant : Nat) : Charge → Bool
  | .use (some other) _ => other == grant
  | _ => false

/-- What a charge takes from the budget that grants do not hold. -/
def cost : Charge → Nat
  | .use none _ => 1
  | .use (some _) _ => 0
  | .reservation _ uses => uses.getD 0

end Charge

namespace Accounts

def start (uses : Option Nat) : Accounts := ⟨uses, 0, 0, 0, []⟩

/-- The accounts that charges leave of the approved uses. -/
def total (uses : Option Nat) (charges : List Charge) : Accounts :=
  charges.foldl Charge.apply (start uses)

theorem total_append (uses : Option Nat) (ch : List Charge) (c : Charge) :
    total uses (ch ++ [c]) = c.apply (total uses ch) := by
  rw [total, foldl_append, foldl_cons, foldl_nil]
  rfl

/-- What the grants hold together. -/
def held (s : Accounts) : Nat := (s.grants.map fun item => item.2.remaining.getD 0).sum

end Accounts

variable {grant : Nat} {share : Share}

/-- A use of a share takes one from what the grants hold. -/
private theorem held_useShare (seq : Nat) {g : List (Nat × Share)} {l : Nat}
    (hl : g.lookup grant = some share) (hf : share.remaining = some (l + 1)) :
    ((modifyAt grant (useShare seq) g).map fun x => x.2.remaining.getD 0).sum + 1 ≤
        (g.map fun x => x.2.remaining.getD 0).sum := by
  have he : ∀ g : List (Nat × Share), ((modifyAt grant (useShare seq) g).map
        fun x => x.2.remaining.getD 0).sum ≤ (g.map fun x => x.2.remaining.getD 0).sum := by
    intro g
    rw [modifyAt, map_map]
    refine sum_le_sum fun x _ => ?_
    simp only [Function.comp_apply]
    split
    · cases hr : x.2.remaining <;> simp [useShare, hr]
    · exact Nat.le_refl _
  induction g with
  | nil => simp at hl
  | cons x g ih =>
    obtain ⟨key, v⟩ := x
    rw [lookup_cons_ite] at hl
    rw [modifyAt, map_cons, map_cons, map_cons, sum_cons, sum_cons, ← modifyAt]
    by_cases hk : grant = key
    · rw [if_pos hk] at hl
      obtain rfl := some.inj hl
      have := he g
      rw [if_pos hk.symm]
      simp only [useShare, hf, map_some, getD_some]
      omega
    · rw [if_neg hk] at hl
      have := ih hl
      rw [if_neg (Ne.symm hk)]
      omega

/-- The share of a grant after a charge: the one before, with one more use, or reserved. -/
theorem Charge.lookup_apply {s : Accounts} {c : Charge}
    (h : (c.apply s).grants.lookup grant = some share) :
    (s.grants.lookup grant = some share ∧ c.isUseOf grant = false) ∨
      (∃ pre seq, c = .use (some grant) seq ∧
        s.grants.lookup grant = some pre ∧ share = useShare seq pre) ∨
      ∃ r, c = .reservation grant r ∧ s.grants.lookup grant = none ∧ share = ⟨r, r, 0⟩ := by
  match c with
  | .use none _ => exact .inl ⟨h, rfl⟩
  | .use (some u) seq =>
    simp only [apply] at h
    by_cases hn : grant = u
    · subst hn
      rw [lookup_modifyAt_self, Option.map_eq_some_iff] at h
      obtain ⟨pre, hb, rfl⟩ := h
      exact .inr (.inl ⟨pre, seq, rfl, hb, rfl⟩)
    · rw [lookup_modifyAt_of_ne hn] at h
      exact .inl ⟨h, by simp [isUseOf, Ne.symm hn]⟩
  | .reservation id r =>
    simp only [apply, lookup_append] at h
    cases hold : s.grants.lookup grant with
    | some pre => exact .inl ⟨by rw [← h, hold]; rfl, rfl⟩
    | none =>
      rw [hold, none_or, lookup_cons_ite] at h
      split at h
      · next hi => exact .inr (.inr ⟨r, by rw [hi], rfl, (some.inj h).symm⟩)
      · simp at h

/-- A grant that has a share has one after any charge, from the same reservation. -/
theorem Charge.lookup_apply_of_some {s : Accounts} (c : Charge)
    (h : s.grants.lookup grant = some share) :
    ∃ l, (c.apply s).grants.lookup grant = some l ∧ l.reserved = share.reserved ∧
      (c.isUseOf grant = false → l = share) := by
  match c with
  | .use none _ => exact ⟨share, h, rfl, fun _ => rfl⟩
  | .use (some u) seq =>
    simp only [apply]
    by_cases hn : grant = u
    · subst hn
      exact ⟨useShare seq share, by rw [lookup_modifyAt_self, h]; rfl, rfl,
        by simp [isUseOf]⟩
    · exact ⟨share, by rw [lookup_modifyAt_of_ne hn, h], rfl, fun _ => rfl⟩
  | .reservation id reserved =>
    exact ⟨share, by simp only [apply, lookup_append, h]; rfl, rfl, fun _ => rfl⟩

/-- Every charge is covered by what the charges before it left. -/
inductive Covered (uses : Option Nat) : List Charge → Prop
  | nil : Covered uses []
  | snoc {charges : List Charge} {c : Charge} : Covered uses charges →
      c.Allowed (total uses charges) → Covered uses (charges ++ [c])

/-- A share is what its reservation set aside, less the uses of the grant. -/
structure Held (limit : Option Nat) (served : Nat) (share : Share) : Prop where
  sequence : share.sequence = served
  capped : ∀ n, share.reserved = some n → served ≤ n ∧ share.remaining = some (n - served)
  limited : limit ≠ none → share.reserved ≠ none

namespace Covered

variable {us : Option Nat} {cs : List Charge}

variable {grant : Nat} {share : Share}

/-- A grant is numbered before it has a share. -/
theorem key_le (h : Covered us cs) (hs : (total us cs).grants.lookup grant = some share) :
    grant ≤ (total us cs).grantSequence := by
  induction h generalizing share with
  | nil => simp [total, start] at hs
  | @snoc cs c _ ha ih =>
    rw [total_append] at hs ⊢
    have hl : (total us cs).grantSequence ≤ (c.apply (total us cs)).grantSequence := by
      match c with
      | .use none _ => exact Nat.le_refl _
      | .use (some _) _ => exact Nat.le_refl _
      | .reservation id _ => exact ha.1 ▸ Nat.le_succ _
    rcases lookup_apply hs with ⟨hold, _⟩ | ⟨pre, _, rfl, hb, _⟩ |
      ⟨reserved, rfl, _⟩
    · exact (ih hold).trans hl
    · exact (ih hb).trans hl
    · exact Nat.le_refl _

/-- The next grant has no share yet. -/
theorem fresh (h : Covered us cs) : (total us cs).grants.lookup
      ((total us cs).grantSequence + 1) = none := by
  refine Option.eq_none_iff_forall_ne_some.mpr fun share hs => ?_
  have := h.key_le hs
  omega

/-- A grant without a share serves nothing. -/
theorem served_of_fresh (h : Covered us cs) (hn : (total us cs).grants.lookup grant = none) :
    cs.countP (isUseOf grant) = 0 := by
  induction h with
  | nil => rfl
  | @snoc cs c _ ha ih =>
    rw [total_append] at hn
    have hb : (total us cs).grants.lookup grant = none := by
      refine Option.eq_none_iff_forall_ne_some.mpr fun share hs => ?_
      obtain ⟨l, hf, _⟩ := c.lookup_apply_of_some hs
      rw [hn] at hf
      contradiction
    rw [countP_append, countP_singleton, ih hb]
    match c with
    | .use none _ => rfl
    | .use (some u) _ =>
      obtain ⟨share, hs, _⟩ := ha
      have he : u ≠ grant := by
        rintro rfl
        rw [hb] at hs
        contradiction
      simp [isUseOf, he]
    | .reservation _ _ => rfl

variable {n : Nat}

/-- Under a limit the budget is the approved uses less what every charge cost. -/
theorem remaining_eq (h : Covered (some n) cs) : (cs.map cost).sum ≤ n ∧
      (total (some n) cs).remaining = some (n - (cs.map cost).sum) := by
  induction h with
  | nil => exact ⟨Nat.zero_le _, rfl⟩
  | @snoc cs c _ ha ih =>
    obtain ⟨he, hr⟩ := ih
    rw [total_append, map_append, sum_append, map_singleton, sum_singleton]
    match c with
    | .use none _ =>
      obtain ⟨_, hl⟩ := ha
      rw [hr] at hl
      have hn : n - (cs.map cost).sum ≠ 0 := fun hz => hl (congrArg some hz)
      simp only [Charge.apply, cost, hr, map_some]
      exact ⟨by omega, congrArg some (by omega)⟩
    | .use (some _) _ => exact ⟨he, hr⟩
    | .reservation _ r =>
      obtain ⟨_, _, hl⟩ := ha
      obtain ⟨m, rfl, hm⟩ := hl _ hr
      simp only [Charge.apply, cost, hr, getD_some]
      exact ⟨by omega, congrArg some (by omega)⟩

/-- Every share is its reservation less what its grant served. -/
theorem held_of_lookup (h : Covered us cs) (hs : (total us cs).grants.lookup grant = some share) :
    Held us (cs.countP (isUseOf grant)) share := by
  induction h generalizing share with
  | nil => simp [total, start] at hs
  | @snoc cs c hc ha ih =>
    rw [total_append] at hs
    rw [countP_append, countP_singleton]
    rcases lookup_apply hs with ⟨hold, ho⟩ | ⟨pre, seq, rfl, hb, rfl⟩ |
      ⟨reserved, rfl, hno, rfl⟩
    · simpa [ho] using ih hold
    · obtain ⟨f, hf, hx, hl⟩ := ha
      obtain rfl : pre = f := some.inj (hb.symm.trans hf)
      have hh := ih hb
      have he := hh.sequence
      rw [if_pos (by simp [isUseOf])]
      refine ⟨by rw [useShare, hx, he], ?_, hh.limited⟩
      intro n hn
      obtain ⟨hle, hr⟩ := hh.capped n hn
      rw [hr] at hl
      have hne : n - cs.countP (isUseOf grant) ≠ 0 :=
        fun hz => hl (congrArg some hz)
      refine ⟨by omega, ?_⟩
      simp only [useShare, hr, map_some]
      congr 1
    · rw [hc.served_of_fresh hno]
      refine ⟨rfl, fun n hn => ⟨Nat.zero_le _, hn⟩, fun hi => ?_⟩
      obtain ⟨l, rfl⟩ := Option.ne_none_iff_exists'.mp hi
      obtain ⟨n, rfl, _⟩ := ha.2.2 _ hc.remaining_eq.2
      simp

/-- A reservation has its share as long as the ledger lasts. -/
theorem lookup_of_mem (h : Covered us cs) {r : Option Nat} (hm : reservation grant r ∈ cs) :
    ∃ share, (total us cs).grants.lookup grant = some share ∧ share.reserved = r := by
  induction h with
  | nil => simp at hm
  | @snoc cs c hc ha ih =>
    rw [total_append]
    rw [mem_append, mem_singleton] at hm
    rcases hm with hm | rfl
    · obtain ⟨share, hs, hr⟩ := ih hm
      obtain ⟨l, hf, hsa, _⟩ := c.lookup_apply_of_some hs
      exact ⟨l, hf, hsa.trans hr⟩
    · obtain ⟨rfl, _⟩ := ha
      refine ⟨⟨r, r, 0⟩, ?_, rfl⟩
      simp only [Charge.apply]
      rw [lookup_append, hc.fresh, none_or, lookup_cons_ite, if_pos rfl]

/-- A share comes from a reservation in the ledger. -/
theorem mem_of_lookup (h : Covered us cs) (hs : (total us cs).grants.lookup grant = some share) :
    reservation grant share.reserved ∈ cs := by
  induction h generalizing share with
  | nil => simp [total, start] at hs
  | @snoc cs c _ ha ih =>
    rw [total_append] at hs
    rcases lookup_apply hs with ⟨hold, _⟩ | ⟨pre, _, rfl, hb, rfl⟩ |
      ⟨reserved, rfl, _, rfl⟩
    · exact mem_append_left _ (ih hold)
    · have hm := ih hb
      exact mem_append_left _ hm
    · exact mem_append_right _ (mem_singleton_self _)

/-- Only a grant that is reserved serves. -/
theorem exists_reservation (h : Covered us cs) (he : 0 < cs.countP (isUseOf grant)) :
    ∃ r, reservation grant r ∈ cs := by
  cases hs : (total us cs).grants.lookup grant with
  | none =>
    rw [h.served_of_fresh hs] at he
    contradiction
  | some share => exact ⟨share.reserved, h.mem_of_lookup hs⟩

/-- A grant serves no more than it reserved. -/
theorem served_le (h : Covered us cs) (hm : reservation grant (some n) ∈ cs) :
    cs.countP (isUseOf grant) ≤ n := by
  obtain ⟨share, hs, hr⟩ := h.lookup_of_mem hm
  exact ((h.held_of_lookup hs).capped n hr).1

/-- The uses taken, those left and those held by grants fit in the approved uses. -/
theorem budget (h : Covered (some n) cs) : cs.countP isUse + (n - (cs.map cost).sum) +
      (total (some n) cs).held ≤ n := by
  induction h with
  | nil => simp [total, start, held]
  | @snoc cs c hc ha ih =>
    obtain ⟨hle, he⟩ := hc.remaining_eq
    rw [total_append, countP_append, map_append, sum_append,
      map_singleton, sum_singleton, countP_singleton]
    match c with
    | .use none _ =>
      obtain ⟨_, hl⟩ := ha
      rw [he] at hl
      have hn : n - (cs.map cost).sum ≠ 0 := fun hz => hl (congrArg some hz)
      change _ + 1 + (n - (_ + 1)) + (total (some n) cs).held ≤ n
      omega
    | .use (some u) seq =>
      obtain ⟨share, hs, _, hl⟩ := ha
      have hh := hc.held_of_lookup hs
      obtain ⟨r, hr⟩ := Option.ne_none_iff_exists'.mp (hh.limited (by simp))
      obtain ⟨_, hsl⟩ := hh.capped r hr
      rw [hsl] at hl
      obtain ⟨l, hu⟩ : ∃ l, share.remaining = some (l + 1) := by
        refine ⟨r - cs.countP (isUseOf u) - 1, ?_⟩
        have hn : r - cs.countP (isUseOf u) ≠ 0 :=
          fun hz => hl (congrArg some hz)
        rw [hsl, Nat.sub_add_cancel (by omega)]
      have ht := held_useShare seq hs hu
      change _ + 1 + (n - (_ + 0)) + held ⟨_, _, _, _, modifyAt u _ _⟩ ≤ n
      simp only [held] at ih ⊢
      omega
    | .reservation _ r =>
      obtain ⟨_, _, hl⟩ := ha
      obtain ⟨m, rfl, hm⟩ := hl _ he
      simp only [isUse, cost, Charge.apply, held, map_append,
        sum_append, map_singleton, sum_singleton, getD_some] at ih ⊢
      simp only [Bool.false_eq_true, if_false]
      omega

/-- No more commands are charged than were approved. -/
theorem uses_le (h : Covered (some n) cs) : cs.countP isUse ≤ n := by
  have := h.budget
  omega

end Covered

/-! ### The ledger of a record -/

/-- The charge a decision records. -/
def AuditDecision.charge? : AuditDecision → Option Charge
  | .effectCommitIntent grant sequence => some (.use grant sequence)
  | .toolGranted grant _ _ uses => some (.reservation grant uses)
  | _ => none

theorem AuditDecision.charge?_of_inert {d : AuditDecision} (h : d.inert = true) :
    d.charge? = none := by
  cases d <;> first | rfl | simp [inert] at h

theorem Charge.charge?_decision (c : Charge) (pid rev : Nat) :
    (c.decision pid rev).charge? = some c := by
  cases c <;> rfl

variable {source : Source} {uses : Option Nat} {entries : List AuditEntry}

/-- The charges that a record holds of one Session. -/
def charges (source : Source) (entries : List AuditEntry) : List Charge :=
  entries.filterMap fun entry =>
    if entry.sessionId = source.sessionId then entry.decision.charge? else none

/-- An entry of another Session, or one of this lifetime that charges nothing. -/
def Bystander (source : Source) (entry : AuditEntry) : Prop :=
  entry.sessionId ≠ source.sessionId ∨
    ReplayState.attributed source entry = true ∧ entry.decision.inert = true

variable {entry : AuditEntry}

theorem charges_append_bystander (h : Bystander source entry) :
    charges source (entries ++ [entry]) = charges source entries := by
  rw [charges, filterMap_append]
  rcases h with ho | ⟨_, hi⟩
  · simp [charges, ho]
  · simp [charges, AuditDecision.charge?_of_inert hi]

theorem charges_append_charge (entries : List AuditEntry) {c : Charge} {pid rev : Nat}
    (hs : entry.sessionId = source.sessionId) (hd : entry.decision = c.decision pid rev) :
    charges source (entries ++ [entry]) = charges source entries ++ [c] := by
  rw [charges, filterMap_append]
  simp [charges, hs, hd, charge?_decision]

/-- A bystander's entry changes at most whether the Session was revoked. -/
theorem ReplayState.next_bystander (uses : Option Nat) (h : Bystander source entry)
    (r : ReplayState) : ∃ revoked, r.next source uses entry = some { r with revoked } := by
  rcases h with ho | ⟨ha, hi⟩
  · exact ⟨r.revoked, if_pos ho⟩
  · by_cases ho : entry.sessionId ≠ source.sessionId
    · exact ⟨r.revoked, if_pos ho⟩
    · rw [next, if_neg ho, if_pos ha]
      exact decide_inert hi

/-- Entries of bystanders change at most whether the Session was revoked. -/
theorem ReplayState.foldlM_bystanders (uses : Option Nat)
    (h : ∀ entry ∈ entries, Bystander source entry) (r : ReplayState) :
    ∃ revoked, entries.foldlM (ReplayState.next source uses) r = some { r with revoked } := by
  induction entries generalizing r with
  | nil => exact ⟨r.revoked, rfl⟩
  | cons entry entries ih =>
    obtain ⟨first, hf⟩ := next_bystander uses (h entry (mem_cons_self ..)) r
    obtain ⟨revoked, hr⟩ := ih (fun entry he => h entry (mem_cons_of_mem _ he))
      { r with revoked := first }
    exact ⟨revoked, by rw [foldlM_cons, hf]; exact hr⟩

/-- A record with one consumption of the Session's authorization, among bystanders. -/
def Begun (source : Source) (entries : List AuditEntry) : Prop :=
  ∃ before consumption after, entries = before ++ consumption :: after ∧
    (∀ entry ∈ before ++ after, Bystander source entry) ∧ consumption.sessionId = source.sessionId ∧
    ReplayState.attributed source consumption = true ∧ consumption.decision = .authorizationConsumed

/-- A record whose charges are covered, and whose replay computes the accounts they leave
while it can be read back. -/
structure Kept (source : Source) (uses : Option Nat) (entries : List AuditEntry) : Prop where
  covered : Covered uses (charges source entries)
  replayed : entries.length ≤ maxEntries → ∃ r,
    entries.foldlM (ReplayState.next source uses) .start = some r ∧
      Matches uses entries.length r (total uses (charges source entries))

private theorem charges_bystanders (h : ∀ entry ∈ entries, Bystander source entry) :
    charges source entries = [] := by
  refine filterMap_eq_nil_iff.mpr fun entry he => ?_
  rcases h entry he with ho | ⟨_, hi⟩
  · exact if_neg ho
  · simp [AuditDecision.charge?_of_inert hi]

theorem Begun.charges (h : Begun source entries) : charges source entries = [] := by
  obtain ⟨pre, c, l, rfl, hb, _, _, hc⟩ := h
  rw [Broker.charges, filterMap_append, filterMap_cons, ← Broker.charges,
    ← Broker.charges, charges_bystanders fun entry he => hb entry (mem_append_left _ he),
    charges_bystanders fun entry he => hb entry (mem_append_right _ he)]
  simp [hc, AuditDecision.charge?]

namespace Kept

/-- A record that has begun is kept: it charges nothing. -/
theorem of_begun (h : Begun source entries) : Kept source uses entries := by
  refine ⟨h.charges ▸ .nil, fun _ => ?_⟩
  rw [h.charges]
  obtain ⟨before, consumption, after, rfl, hb, hs, ha, hc⟩ := h
  obtain ⟨first, hf⟩ := ReplayState.foldlM_bystanders uses
    (fun entry he => hb entry (mem_append_left _ he)) .start
  obtain ⟨revoked, hl⟩ := ReplayState.foldlM_bystanders uses
    (fun entry he => hb entry (mem_append_right _ he))
    { ReplayState.start with consumed := true, revoked := first }
  have hne : ({ ReplayState.start with revoked := first } : ReplayState).next source uses
      consumption = some { ReplayState.start with consumed := true, revoked := first } := by
    rw [ReplayState.next, if_neg (not_not.mpr hs), if_pos ha, hc]
    rfl
  refine ⟨{ ReplayState.start with consumed := true, revoked }, ?_, ?_⟩
  · rw [foldlM_append, hf, bind_eq_bind, bind_some, foldlM_cons, hne]
    exact hl
  · exact {
      consumed := rfl
      capped := fun n hn => ⟨Nat.zero_le _, hn⟩
      uncapped := fun hn => ⟨hn, Nat.le_refl _⟩
      principal := rfl
      dispatch := rfl
      granted := rfl
      keys := by simp [ReplayState.start]
      shares := by simp [total, start]
      principalLe := Nat.le_refl _
      dispatchLe := Nat.zero_le _ }

theorem bystander (h : Kept source uses entries) {entry : AuditEntry}
    (he : Bystander source entry) : Kept source uses (entries ++ [entry]) := by
  refine ⟨?_, fun hl => ?_⟩
  · rw [charges_append_bystander he]
    exact h.covered
  · rw [length_append, length_singleton] at hl ⊢
    obtain ⟨r, hr, hm⟩ := h.replayed (by omega)
    obtain ⟨revoked, hn⟩ := ReplayState.next_bystander uses he r
    refine ⟨{ r with revoked }, ?_, ?_⟩
    · rw [foldlM_append, hr, bind_eq_bind, bind_some, foldlM_cons, hn]
      rfl
    · rw [charges_append_bystander he]
      exact (hm.revoke revoked).mono (Nat.le_succ _)

/-- A record with one more charge that its ledger covers is kept. -/
theorem charge (h : Kept source uses entries) {entry : AuditEntry} {c : Charge} {pid : Nat}
    (hs : entry.sessionId = source.sessionId) (ht : ReplayState.attributed source entry = true)
    (hd : entry.decision = c.decision pid source.envelopeRevision)
    (hu : ∀ n, uses = some n → n < 2 ^ 32) (ha : c.Allowed (total uses (charges source entries))) :
    Kept source uses (entries ++ [entry]) := by
  have hc := charges_append_charge entries hs hd
  refine ⟨hc ▸ .snoc h.covered ha, fun hl => ?_⟩
  rw [length_append, length_singleton] at hl ⊢
  obtain ⟨r, hr, hm⟩ := h.replayed (by omega)
  obtain ⟨ne, hn, hf⟩ := hm.charge source pid (Nat.lt_of_succ_le hl) hu ha
  refine ⟨ne, ?_, ?_⟩
  · rw [foldlM_append, hr, bind_eq_bind, bind_some, foldlM_cons,
      ReplayState.next, if_neg (not_not.mpr hs), if_pos ht, hd, hn]
    rfl
  · rw [hc, total_append]
    exact hf

end Kept

/-! ### One lifetime's part of the accounts -/

/-- Accounts that agree with others but may not have the grants of earlier lifetimes. -/
structure Tracks (s t : Accounts) : Prop where
  remaining : s.remaining = t.remaining
  principalSequence : s.principalSequence = t.principalSequence
  dispatchSequence : s.dispatchSequence = t.dispatchSequence
  grantSequence : s.grantSequence = t.grantSequence
  grants : ∀ grant share, s.grants.lookup grant = some share → t.grants.lookup grant = some share

namespace Tracks

variable {s t : Accounts}

/-- What one lifetime's accounts cover, those of the whole Session cover. -/
theorem allowed (h : Tracks s t) {c : Charge} (ha : c.Allowed s) : c.Allowed t := by
  match c with
  | .use none _ => exact ⟨h.principalSequence ▸ ha.1, h.remaining ▸ ha.2⟩
  | .use (some grant) _ =>
    obtain ⟨share, hs, hr⟩ := ha
    exact ⟨share, h.grants grant share hs, hr⟩
  | .reservation _ _ => exact ⟨h.grantSequence ▸ ha.1, ha.2.1, h.remaining ▸ ha.2.2⟩

/-- A charge keeps one lifetime's accounts in step with those of the Session. -/
theorem apply (h : Tracks s t) {c : Charge} (ha : c.Allowed s)
    (hf : t.grants.lookup (t.grantSequence + 1) = none) : Tracks (c.apply s) (c.apply t) := by
  refine ⟨?_, ?_, ?_, ?_, fun grant share hs => ?_⟩
  · match c with
    | .use none _ => exact congrArg (Option.map (· - 1)) h.remaining
    | .use (some _) _ => exact h.remaining
    | .reservation _ _ => simp only [Charge.apply, h.remaining]
  · match c with
    | .use none _ => rfl
    | .use (some _) _ => exact h.principalSequence
    | .reservation _ _ => exact h.principalSequence
  · match c with
    | .use none _ => exact congrArg (· + 1) h.dispatchSequence
    | .use (some _) _ => exact congrArg (· + 1) h.dispatchSequence
    | .reservation _ _ => exact h.dispatchSequence
  · match c with
    | .use none _ => exact h.grantSequence
    | .use (some _) _ => exact h.grantSequence
    | .reservation _ _ => rfl
  · rcases lookup_apply hs with ⟨hold, ho⟩ | ⟨pre, seq, rfl, hb, rfl⟩ |
      ⟨reserved, rfl, hno, rfl⟩
    · obtain ⟨l, ht, _, hsa⟩ := c.lookup_apply_of_some (h.grants grant share hold)
      rw [ht, hsa ho]
    · simp only [Charge.apply]
      rw [lookup_modifyAt_self, h.grants grant pre hb]
      rfl
    · obtain ⟨hn, _⟩ := ha
      simp only [Charge.apply]
      rw [lookup_append, hn, h.grantSequence, hf, none_or, lookup_cons_ite, if_pos rfl]

end Tracks
end Louiselm.Broker
