import Louiselm.Provider.BudgetRuns

/-!
# The Provider expiry along extensions

`extended` of `skills-core/src/broker/provider_service.rs` takes the expiry of the latest
recorded extension that gives one. An extension is only compared with the clock and the launch
expiry, so one that was approved for more units can move the expiry earlier.
-/

namespace Louiselm.Provider.Budget
open Base
open Base.Program

/-- The expiry of a Session's permission with the latest operator-extended one applied. -/
def extended (runId : String) (grantedExpiry : UInt64) (ledger : Ledger) :
    Except BrokerError UInt64 := do
  let extensions ← extensionsLocked runId ledger
  return extendedExpiry grantedExpiry extensions

/-- A call that asks for an extension which the operator policy accepts. -/
inductive Accepts (granted : Permission) (recorded : List Extension) (spent : Nat) :
    Call → ExtensionRequest → Prop where
  | extend {request : ExtensionRequest} {operatorUid : UInt32}
    {nowMs grantedExpiry launchExpiry : UInt64} {hold : ProviderHold}
    (check : extensionCheck granted grantedExpiry launchExpiry request nowMs hold recorded spent =
      .ok ()) : Accepts granted recorded spent
        (.extend request operatorUid nowMs grantedExpiry launchExpiry) request

section

variable (runId : String) (granted : Permission) (grantedExpiry launchExpiry : UInt64)

/-- An accepted request that gives an expiry gives none before the one in effect, and none past
the launch of the Session. -/
def MovesLater (ledger : Ledger) (event : Call × List Fault) : Prop :=
  ∀ recorded spent request, extensionsLocked runId ledger = .ok recorded →
    count ledger.runs = .ok spent → Accepts granted recorded spent event.1 request →
    ∀ expiry ∈ request.expiresAtMs,
      extendedExpiry grantedExpiry recorded ≤ expiry ∧ expiry ≤ launchExpiry

/-- Along some calls the expiry of a Session never moves earlier and never passes its launch. -/
structure OnlyLater (calls : List (Call × List Fault)) : Prop where
  nondecreasing : ∀ earlier between later expiry next, calls = earlier ++ between ++ later →
    extended runId grantedExpiry (reached runId granted earlier) = .ok expiry →
    extended runId grantedExpiry (reached runId granted (earlier ++ between)) = .ok next →
    expiry ≤ next
  bounded : ∀ earlier later expiry, calls = earlier ++ later →
    extended runId grantedExpiry (reached runId granted earlier) = .ok expiry →
    expiry ≤ launchExpiry

variable {runId granted grantedExpiry launchExpiry} {ledger : Ledger} {spent holdCount : Nat}
  {recorded : List Extension}

/-- An extension without an expiry leaves the one in effect. -/
theorem extendedExpiry_append_singleton (grantedExpiry : UInt64) (recorded : List Extension)
    (e : Extension) : extendedExpiry grantedExpiry (recorded ++ [e]) =
      e.request.expiresAtMs.getD (extendedExpiry grantedExpiry recorded) := by
  rw [extendedExpiry, List.reverse_append, List.reverse_singleton, List.singleton_append,
    List.findSome?_cons]
  cases e.request.expiresAtMs with
  | none => rfl
  | some ex => rfl

/-! ### One call -/

variable (runId granted ledger spent recorded) in
/-- The extensions are as they were, or one that the policy accepted was appended. -/
def Appends (call : Call) (after : Ledger) : Prop :=
  after.extensions = ledger.extensions ∨ ∃ extension,
    after.extensions = ledger.extensions.insert recorded.length extension ∧
    extensionsLocked runId ledger = .ok recorded ∧ count ledger.runs = .ok spent ∧
    Accepts granted recorded spent call extension.request

/-- Whatever befalls it, an extension is recorded as the policy accepted it, or not at all. -/
theorem wp_extend_appends (h : Balanced runId granted ledger spent holdCount recorded)
    (req : ExtensionRequest) (ou : UInt32) (ms tg tl : UInt64) : Wp (Budget.extend runId req ou ms
        (extensionCheck granted tg tl req ms))
      (let appends := Appends runId granted ledger spent recorded (.extend req ou ms tg tl)
      (.ends appends)) ledger := by
  have hs : Appends runId granted ledger spent recorded (.extend req ou ms tg tl) ledger := .inl rfl
  unfold Budget.extend
  apply wp_bind
  refine wp_query (fun p hr => ?_) (fun _ _ => hs) hs hs
  obtain rfl := h.extensionsLocked_ok hr
  dsimp only
  split
  · apply wp_bind
    exact wp_ofExcept (fun _ _ => wp_pure.mpr hs) (fun _ _ => hs)
  refine (reads_heldLocked h).wp_bind ?_ (fun _ => hs) hs
  intro f _
  cases f with
  | none => exact wp_fail.mpr hs
  | some hold =>
  apply wp_bind
  refine wp_query (fun c hc => ?_) (fun _ _ => hs) hs hs
  obtain rfl := (count_eq_ok.mp hc).1.unique h.runs
  apply wp_bind
  refine wp_ofExcept (fun _ hh => ?_) (fun _ _ => hs)
  apply wp_bind
  refine wp_probe ?_ hs hs
  apply wp_bind
  have hd : Appends runId granted ledger c p (.extend req ou ms tg tl)
      (ledger.withExtension p.length ⟨runId, req, ou, ms, hold⟩) :=
    .inr ⟨_, rfl, hr, hc, .extend (mapError_ok.mp hh)⟩
  exact wp_writeNewRecord (fun _ => ⟨wp_pure.mpr hd, hd⟩) hs hs hs

theorem step_appends (h : Balanced runId granted ledger spent holdCount recorded)
    (e : Call × List Fault) :
    Appends runId granted ledger spent recorded e.1 (step runId granted ledger e) := by
  obtain ⟨c, fs⟩ := e
  cases c with
  | reserve si ms =>
    have hp : ∀ l, l = ledger ∨ Spends runId granted ledger spent recorded si ms l →
        l.extensions = ledger.extensions := by
      rintro l (rfl | ⟨-, rfl⟩)
      · rfl
      · rfl
    exact .inl (((wp_reserve h si ms).mono (fun _ s hs => hp s (.inr hs.2))
      (fun _ => hp) hp).leaves fs)
  | hold r ms =>
    refine .inl ?_
    rcases (wp_hold h r ms).leaves fs with heq | ⟨-, heq⟩
    · exact congrArg Ledger.extensions heq
    · exact (congrArg Ledger.extensions heq).trans rfl
  | extend req ou ms tg tl =>
    exact (wp_extend_appends h req ou ms tg tl).leaves fs
  | withUnheld a =>
    refine .inl (congrArg Ledger.extensions ?_)
    have hr : Reads (withUnheld runId (ofExcept a)) ledger fun _ => True := by
      refine (reads_heldLocked h).bind fun f _ => ?_
      cases f with
      | none => exact reads_check
      | some hold => exact reads_fail
    have hl : Wp (withUnheld runId (ofExcept a))
        ⟨fun _ s => s = ledger, fun _ s => s = ledger, fun s => s = ledger⟩ ledger :=
      Wp.mono hr (fun _ _ hs => hs.1) (fun _ _ hs => hs) (fun _ hs => hs)
    exact hl.leaves fs

/-- What a call makes of the recorded extensions. -/
theorem Appends.recorded_cases {c : Call} {l : Ledger} {s' ho' : Nat} {r' : List Extension}
    (ha : Appends runId granted ledger spent recorded c l)
    (h : Balanced runId granted ledger spent holdCount recorded)
    (h' : Balanced runId granted l s' ho' r') : r' = recorded ∨ ∃ e, r' = recorded ++ [e] ∧
      extensionsLocked runId ledger = .ok recorded ∧ count ledger.runs = .ok spent ∧
      Accepts granted recorded spent c e.request := by
  rcases ha with hs | ⟨e, hi, hr, hc, hacc⟩
  · refine .inl (List.ext_getElem? fun n => ?_)
    rw [← h'.complete, ← h.complete, hs]
  · refine .inr ⟨e, List.ext_getElem? fun n => ?_, hr, hc, hacc⟩
    rw [← h'.complete, hi]
    rcases Nat.lt_trichotomy n recorded.length with hl | rfl | hg
    · rw [AList.lookup_insert_ne (by omega), h.complete, List.getElem?_append_left hl]
    · rw [AList.lookup_insert, List.getElem?_concat_length]
    · rw [AList.lookup_insert_ne (by omega), h.complete,
        List.getElem?_eq_none (by omega), List.getElem?_eq_none (by simp; omega)]

/-! ### Runs of calls -/

variable (runId granted grantedExpiry launchExpiry) in
/-- The records add up and the expiry in effect lies in a range. -/
def InForce (earliest : UInt64) (ledger : Ledger) : Prop :=
  ∃ spent holdCount recorded, Balanced runId granted ledger spent holdCount recorded ∧
    earliest ≤ extendedExpiry grantedExpiry recorded ∧
    extendedExpiry grantedExpiry recorded ≤ launchExpiry

theorem InForce.step {ea : UInt64} {e : Call × List Fault}
    (h : InForce runId granted grantedExpiry launchExpiry ea ledger)
    (hla : MovesLater runId granted grantedExpiry launchExpiry ledger e) :
    InForce runId granted grantedExpiry launchExpiry ea (step runId granted ledger e) := by
  obtain ⟨spent, holdCount, recorded, h, he, hl⟩ := h
  obtain ⟨s', ho', r', h'⟩ := (step_follows ⟨_, _, _, h⟩ e).sound
  refine ⟨s', ho', r', h', ?_⟩
  rcases (step_appends h e).recorded_cases h h' with rfl |
    ⟨extension, rfl, hr, hc, ha⟩
  · exact ⟨he, hl⟩
  · rw [extendedExpiry_append_singleton]
    cases hx : extension.request.expiresAtMs with
    | none => exact ⟨he, hl⟩
    | some ex =>
      obtain ⟨hle, hb⟩ := hla recorded spent _ hr hc ha ex hx
      exact ⟨UInt64.le_trans he hle, hb⟩

theorem InForce.run {e : UInt64} {c : List (Call × List Fault)}
    (h : InForce runId granted grantedExpiry launchExpiry e ledger)
    (hl : Throughout (Budget.step runId granted)
      (MovesLater runId granted grantedExpiry launchExpiry) ledger c) :
    InForce runId granted grantedExpiry launchExpiry e
      (c.foldl (Budget.step runId granted) ledger) :=
  (always_of_throughout (fun _ _ hs hc => InForce.step hs hc) h hl).last

/-- The expiry that is read is the one in effect. -/
theorem extended_ok (h : Balanced runId granted ledger spent holdCount recorded) {e : UInt64}
    (hr : extended runId grantedExpiry ledger = .ok e) :
    e = extendedExpiry grantedExpiry recorded := by
  obtain ⟨ex, he, heq⟩ := bind_ok.mp hr
  rw [← h.extensionsLocked_ok he]
  exact (Except.ok.inj heq).symm

end

/-! ### An extension that shortens the permission -/

/-- A Run of one request, whose unit is spent and whose operator approves one more. -/
def hastyCalls (expiresAtMs : Option UInt64) : List (Call × List Fault) :=
  [(.reserve "session" 1, []), (.hold .exhausted 2, []),
    (.extend ⟨"more", 1, expiresAtMs⟩ 1000 3 100 1000, [])]

end Louiselm.Provider.Budget
