import Louiselm.Base.JsonCompact
import Louiselm.Capture.Generation
import Louiselm.Capture.Records

/-!
# What a refused generation costs

`generate_with` of `capture-service/src/generation.rs` reserves a unit of the Run's budget and
checks the arguments only then. A command that could not be started gives its unit back; one
whose arguments are refused does not, and its mutation stays pending.
-/

namespace Louiselm.Capture
open Base Canonical List
open Base.Program GenerateRequest

/-! ### Budgets -/

/-- What a mutation cost a Run is unchanged. Only units of other mutations that were pending can
have been consumed meanwhile. -/
structure Uncharged (mutationId : String) (before after : Run) : Prop where
  pending : after.generatedWork.pending.filter (·.mutationId == mutationId) =
    before.generatedWork.pending.filter (·.mutationId == mutationId)
  outputs : after.generatedWork.outputs.filter (·.mutationId == mutationId) =
    before.generatedWork.outputs.filter (·.mutationId == mutationId)
  occupied : after.generatedWork.consumed + after.generatedWork.reserved =
    before.generatedWork.consumed + before.generatedWork.reserved
  idle : before.generatedWork.pending = [] → after.generatedWork = before.generatedWork

theorem Uncharged.refl (mutationId : String) (run : Run) : Uncharged mutationId run run :=
  ⟨rfl, rfl, rfl, fun _ => rfl⟩

/-- A Run in which a unit can be reserved for a mutation. -/
structure Grantable (sha256 : Sha256) (token mutationId : String) (run : Run) : Prop where
  token : verifyToken sha256 run token = .ok ()
  fresh : ¬ SpokenFor mutationId run
  active : run.state = "active"
  room : run.generatedWork.consumed.toNat + run.generatedWork.reserved.toNat + 1 ≤
    run.generatedWork.ceiling.toNat

/-- The Run with a unit reserved. -/
def reservedRun (mutationId : String) (run : Run) : Run :=
  { run with
    revision := run.revision + 1
    generatedWork := { run.generatedWork with
      reserved := run.generatedWork.reserved + 1
      pending := run.generatedWork.pending ++ [⟨mutationId, "beads_issue", 1⟩] } }

/-- The Run with that unit given back. -/
def releasedRun (run : Run) : Run := { run with revision := run.revision + 1 + 1 }

/-- What reconciling makes of a Run, seen from one mutation: an output of it came, or what it
cost is unchanged. -/
structure Settled (mutationId : String) (run next : Run) : Prop where
  shape : next = { run with revision := next.revision, generatedWork := next.generatedWork }
  ceiling : next.generatedWork.ceiling = run.generatedWork.ceiling
  revision : run.revision.toNat ≤ next.revision.toNat
  charge : mutationId ∈ next.outputIds ∨ Uncharged mutationId run next
  outputs : mutationId ∈ run.outputIds → mutationId ∈ next.outputIds
  total : next.generatedWork.consumed.toNat + next.generatedWork.reserved.toNat < 2 ^ 64 →
    next.generatedWork.consumed.toNat + next.generatedWork.reserved.toNat =
      run.generatedWork.consumed.toNat + run.generatedWork.reserved.toNat

variable {uuid : String → Option String} {sha256 : Sha256} {fmt : JsonFormat}
  {database token mutationId : String} {run next last : Run} {store : RunStore}

theorem Uncharged.trans (h : Uncharged mutationId run next) (h' : Uncharged mutationId next last) :
    Uncharged mutationId run last where
  pending := h'.pending.trans h.pending
  outputs := h'.outputs.trans h.outputs
  occupied := h'.occupied.trans h.occupied
  idle := fun hi => by
    have hs := h.idle hi
    exact (h'.idle (by rw [hs, hi])).trans hs

theorem Settled.refl (mutationId : String) (run : Run) : Settled mutationId run run :=
  ⟨rfl, rfl, le_rfl, .inr (.refl mutationId run), id, fun _ => rfl⟩

theorem Settled.trans (h : Settled mutationId run next) (h' : Settled mutationId next last) :
    Settled mutationId run last where
  shape := by
    have hs := h'.shape
    rw [h.shape] at hs
    exact hs
  ceiling := h'.ceiling.trans h.ceiling
  revision := h.revision.trans h'.revision
  charge := by
    rcases h.charge with ho | hc
    · exact .inl (h'.outputs ho)
    · exact h'.charge.imp_right hc.trans
  outputs := h'.outputs ∘ h.outputs
  total := fun hf => by
    have ht := h'.total hf
    rw [ht]
    exact h.total (ht ▸ hf)

/-- Where a unit can be reserved after reconciling, it could before. -/
theorem Grantable.of_settled (h : Grantable sha256 token mutationId next)
    (hs : Settled mutationId run next) : Grantable sha256 token mutationId run := by
  have hn : mutationId ∉ next.outputIds := fun ho => h.fresh (.inr ho)
  have hc := hs.charge.resolve_left hn
  have hh := hs.shape
  constructor
  · have ht := h.token
    rw [hh] at ht
    exact ht
  · rintro (hp | ho)
    · refine h.fresh (.inl ?_)
      obtain ⟨p, hm, hi⟩ := mem_map.mp hp
      have hf : p ∈ run.generatedWork.pending.filter (·.mutationId == mutationId) :=
        mem_filter.mpr ⟨hm, beq_iff_eq.mpr hi⟩
      rw [← hc.pending] at hf
      exact mem_map.mpr ⟨p, (mem_filter.mp hf).1, hi⟩
    · exact hn (hs.outputs ho)
  · rw [← h.active, hh]
  · have hr := h.room
    have he := next.generatedWork.ceiling.toNat_lt
    have hto := hs.total (by omega)
    rw [hs.ceiling] at hr
    omega

/-! ### Reserving and giving back -/

theorem checkedAdd_eq_some_of_lt {a b : UInt64} (h : a.toNat + b.toNat < 2 ^ 64) :
    checkedAdd a b = some (a + b) := if_pos h

/-- A revision is advanced where there is one left. -/
theorem advanceRevision_eq_ok_iff : advanceRevision run = .ok next ↔
    run.revision.toNat + 1 < 2 ^ 64 ∧ next = { run with revision := run.revision + 1 } := by
  unfold advanceRevision
  by_cases h : run.revision.toNat + 1 < 2 ^ 64
  · have hs : checkedAdd run.revision 1 = some (run.revision + 1) := if_pos h
    rw [hs, and_iff_right h]
    exact ⟨fun heq => (Except.ok.inj heq).symm, fun heq => heq ▸ rfl⟩
  · have hn : checkedAdd run.revision 1 = none := if_neg h
    rw [hn]
    exact ⟨fun heq => by simp at heq, fun ha => absurd ha.1 h⟩

variable {request : GenerateRequest}

/-- The unit that a request reserves. -/
theorem reservePlan_of_grantable (ms : UInt64)
    (h : Grantable sha256 request.token request.mutationId run)
    (he : run.revision.toNat + 1 < 2 ^ 64) : reservePlan sha256 request.reservation ms run =
      .ok ⟨some (reservedRun request.mutationId run), .reserved⟩ := by
  have hf : run.generatedWork.outputs.any (·.mutationId == request.mutationId) = false ∧
      run.generatedWork.pending.any (·.mutationId == request.mutationId) = false := by
    have hn := h.fresh
    simp only [SpokenFor, Run.pendingIds, Run.outputIds, not_or, mem_map, not_exists, not_and] at hn
    constructor
    · simpa using hn.2
    · simpa using hn.1
  have hc := run.generatedWork.ceiling.toNat_lt
  have hr := h.room
  have hs := checkedAdd_eq_some_of_lt (a := run.generatedWork.consumed)
    (b := run.generatedWork.reserved) (by omega)
  have hsn := checkedAdd_eq_some hs
  have ho := checkedAdd_eq_some_of_lt (b := 1)
    (a := run.generatedWork.consumed + run.generatedWork.reserved) (by simp; omega)
  have hi : ¬ run.generatedWork.consumed + run.generatedWork.reserved + 1 >
      run.generatedWork.ceiling := by
    have ht := checkedAdd_eq_some ho
    simp only [UInt64.toNat_one] at ht
    rw [gt_iff_lt, UInt64.lt_iff_toNat_lt]
    omega
  have hre := checkedAdd_eq_some_of_lt (a := run.generatedWork.reserved) (b := 1) (by simp; omega)
  have ha : (run.state ≠ "active") = False := by simp [h.active]
  unfold reservePlan
  simp only [reservation, h.token, ok_bind, hf.1, hf.2, ha, hs,
    Option.bind_some, ho, hi, hre, Bool.false_eq_true, if_false]
  exact bind_ok.mpr ⟨_, advanceRevision_eq_ok_iff.mpr ⟨he, rfl⟩, rfl⟩

variable {plan : Plan ReserveResult}

/-- A reservation is answered as made only where a unit can be reserved. -/
theorem grantable_of_reservePlan {ms : UInt64}
    (h : reservePlan sha256 request.reservation ms run = .ok plan)
    (hp : plan.answer = .reserved) : Grantable sha256 request.token request.mutationId run ∧
      run.revision.toNat + 1 < 2 ^ 64 ∧ plan.next = some (reservedRun request.mutationId run) := by
  cases reservePlan_planned h with
  | @reserved o reserved _ ht hac hou hpe hoc hf he ha =>
    obtain ⟨hv, rfl⟩ := advanceRevision_eq_ok_iff.mp ha
    obtain ⟨sum, hu, hc⟩ := Option.bind_eq_some_iff.mp hoc
    have hs := checkedAdd_eq_some hu
    have ho := checkedAdd_eq_some hc
    have hl : o.toNat ≤ run.generatedWork.ceiling.toNat :=
      UInt64.le_iff_toNat_le.mp (UInt64.not_lt.mp hf)
    refine ⟨⟨ht, ?_, hac, ?_⟩, hv, ?_⟩
    · simpa [SpokenFor, Run.pendingIds, Run.outputIds, not_or, reservation] using And.intro hpe hou
    · simp [reservation] at ho
      omega
    · have hr : reserved = run.generatedWork.reserved + 1 := by
        unfold checkedAdd at he
        split at he
        · exact (Option.some.inj he).symm
        · simp at he
      simp [reservedRun, reservation, hr]
  | _ => cases hp

/-- A reservation of a confirmed mutation writes nothing. -/
theorem consumed_of_reservePlan {ms : UInt64}
    (h : reservePlan sha256 request.reservation ms run = .ok plan) (hp : plan.answer = .consumed) :
    plan.next = none ∧ (run.generatedIssue request.mutationId).isSome = true := by
  cases reservePlan_planned h with
  | consumed hk =>
    refine ⟨rfl, ?_⟩
    rw [Run.generatedIssue, Option.isSome_map, List.find?_isSome]
    exact any_eq_true.mp hk
  | _ => cases hp

theorem locate_append_self {p : List PendingGeneration} (u : PendingGeneration)
    (h : u.mutationId ∉ p.map (·.mutationId)) :
    locate u.mutationId (p ++ [u]) = some (p, u, []) := by
  induction p with
  | nil => simp [locate]
  | cons x xs ih =>
    rw [map_cons, mem_cons, not_or] at h
    rw [cons_append, locate, if_neg (Ne.symm h.1), ih h.2]
    rfl

/-- Giving back a unit that was reserved leaves nothing but the revision. -/
theorem releasePlan_reservedRun {plan : Plan Unit} (h : Grantable sha256 token mutationId run)
    (hp : releasePlan sha256 token mutationId (reservedRun mutationId run) = .ok plan) :
    (reservedRun mutationId run).revision.toNat + 1 < 2 ^ 64 ∧
      plan.next = some (releasedRun run) := by
  have hl := locate_append_self ⟨mutationId, "beads_issue", 1⟩ (fun hm => h.fresh (.inl hm))
  unfold releasePlan at hp
  obtain ⟨-, hp⟩ := check_ok.mp hp
  simp only [reservedRun, hl] at hp
  obtain ⟨c, hc, heq⟩ := bind_ok.mp hp
  obtain rfl := Except.ok.inj heq
  obtain ⟨hr, rfl⟩ := advanceRevision_eq_ok_iff.mp hc
  exact ⟨hr, by simp [releasedRun]⟩

/-- A confirmation settles a unit of its mutation. -/
theorem settled_of_confirmPlan {confirmed issueId : String} (mutationId : String)
    (h : confirmPlan sha256 token confirmed issueId run = .ok ⟨some next, ()⟩) :
    Settled mutationId run next := by
  obtain ⟨_, hr, hh⟩ := confirmPlan_begins "" h
  obtain ⟨he, rfl⟩ := advanceRevision_eq_ok_iff.mp hh
  cases hr with
  | @confirm _ _ _ _ _ before pending after consumed _ hl hc =>
    obtain ⟨hp, hd⟩ := locate_eq_some hl
    have ht := checkedAdd_eq_some hc
    have ha : consumed = run.generatedWork.consumed + 1 := by
      unfold checkedAdd at hc
      split at hc
      · exact (Option.some.inj hc).symm
      · simp at hc
    rw [UInt64.toNat_one] at ht
    refine ⟨rfl, rfl, ?_, ?_, ?_, ?_⟩
    · rw [UInt64.toNat_add, UInt64.toNat_one, Nat.mod_eq_of_lt he]
      exact Nat.le_succ _
    · by_cases hs : confirmed = mutationId
      · exact .inl (by simp [Run.outputIds, hs])
      · have hn : (pending.mutationId == mutationId) = false := by
          rw [hd]
          simpa using hs
        refine .inr ⟨?_, ?_, ?_, fun hi => by simp [hp] at hi⟩
        · rw [hp]
          simp only [filter_append, filter_cons, hn, Bool.false_eq_true, if_false]
          split <;> simp [hn]
        · simp [hs]
        · rw [ha]
          grind
    · intro ho
      simp only [Run.outputIds, map_append, mem_append] at ho ⊢
      exact .inl ho
    · intro hf
      dsimp only at hf ⊢
      by_cases hz : run.generatedWork.reserved.toNat = 0
      · have hw : (run.generatedWork.reserved - 1).toNat = 2 ^ 64 - 1 := by
          rw [UInt64.toNat_inj.mp (hz.trans UInt64.toNat_zero.symm)]
          rfl
        omega
      · have hu : (run.generatedWork.reserved - 1).toNat = run.generatedWork.reserved.toNat - 1 :=
          toNat_sub (by rw [UInt64.toNat_one]; omega)
        omega

/-! ### Refused requests -/

/-- An error that says that nothing was executed for the command. -/
def GenerationError.refuses : GenerationError → Bool
  | .invalid _ => true
  | .start _ => true
  | _ => false

section

variable (uuid : String → Option String) (sha256 : Sha256) (request : GenerateRequest)

/-- The next reservation of a request is answered as made. -/
def Reservable (store : RunStore) : Prop := ∀ nowMs, ∃ after,
  Program.Returns (reserveGeneratedWork uuid sha256 request.reservation nowMs) store .reserved after

/-- A request that cost its Run nothing. Its mutation can be reserved as it could before, while
the Run has a revision left. -/
structure Costless (before after : RunStore) : Prop where
  runs : ∀ run, before.lookup request.runId = some run → ∃ next,
    after.lookup request.runId = some next ∧ Uncharged request.mutationId run next
  reservable : Reservable uuid sha256 request before →
    (∀ run, after.lookup request.runId = some run → run.revision.toNat + 1 < 2 ^ 64) →
    Reservable uuid sha256 request after

/-- The store grants the request a unit. -/
structure Grants (store : RunStore) (run : Run) : Prop where
  reservation : validateReservation uuid request.reservation = .ok ()
  loads : Loads uuid request.runId store run
  attached : run.sessionId.isSome = true
  grantable : Grantable sha256 request.token request.mutationId run
  revision : run.revision.toNat + 1 < 2 ^ 64

/-- A well-formed request that is granted a unit for arguments that are refused. -/
structure Leaks (store : RunStore) : Prop where
  wellFormed : validateRequest uuid request = .ok ()
  refused : ∃ error, suppliedArguments request.command request.arguments = .error error
  granted : ∃ run, Grants uuid sha256 request store run

variable {uuid sha256 request}

theorem Costless.refl (store : RunStore) : Costless uuid sha256 request store store :=
  ⟨fun run hr => ⟨run, hr, .refl _ run⟩, fun h _ => h⟩

theorem Grants.returns_reserve (h : Grants uuid sha256 request store run) (ms : UInt64) :
    Returns (reserveGeneratedWork uuid sha256 request.reservation ms) store .reserved
      (store.insert run.id (reservedRun request.mutationId run)) := by
  refine returns_bind (returns_ofExcept h.reservation store) ?_
  exact h.loads.returns_update (reservePlan_of_grantable ms h.grantable h.revision)

/-! ### Steps of the broker -/

variable {P : RunStore → Prop}

/-- An error of the Run store is passed on and is no refusal. -/
theorem wp_mapError_run {α : Type} {p : Action α} {Q : α → RunStore → Prop}
    (h : Wp p ⟨Q, fun _ _ => True, fun _ => True⟩ store) : Wp (p.mapError GenerationError.run)
      ⟨Q, fun error s => error.refuses = true → P s, fun _ => True⟩ store := by
  refine wp_mapError (h.mono (fun _ _ hq => hq) ?_ (fun _ _ => trivial))
  intro error s _ hr
  simp [GenerationError.refuses] at hr

variable {error : GenerationError}

theorem wp_fail_of_not_refuses {α : Type} {Q : α → RunStore → Prop} (h : error.refuses = false) :
    Wp (Program.fail error) ⟨Q, fun error s => error.refuses = true → P s, fun _ => True⟩ store :=
  wp_fail.mpr fun hr => absurd (h.symm.trans hr) (by decide)

variable {ri : String}

theorem wp_confirmListed (mutationId : String) (i : List Json) (p : List String)
    (h : Loads uuid ri store run) : Wp (confirmListed uuid sha256 ri token i p)
      ⟨fun _ s => ∃ next, Loads uuid ri s next ∧ Settled mutationId run next,
        fun error s => error.refuses = true → P s, fun _ => True⟩ store := by
  induction p generalizing store run with
  | nil => exact wp_pure.mpr ⟨run, h, .refl mutationId run⟩
  | cons x xs ih =>
    rw [confirmListed]
    split
    · exact ih h
    · next id _ =>
      apply wp_bind
      refine wp_mapError_run ?_
      unfold confirmGeneratedWork
      apply wp_bind
      refine wp_ofExcept (fun _ _ => ?_) (fun _ _ => trivial)
      refine (wp_update_loads _ _).mono ?_ (fun _ _ _ => trivial) (fun _ _ => trivial)
      rintro _ _ ⟨f, ⟨n, _⟩, hf, hp, -, rfl⟩
      obtain rfl := h.unique hf
      cases n with
      | none => exact ih h
      | some next =>
        have he := settled_of_confirmPlan mutationId hp
        have hr : next.revision ≠ 0 := by
          have hv := h.valid
          simp only [Bool.and_eq_true, bne_iff_ne] at hv
          intro hz
          have hle := he.revision
          rw [hz, UInt64.toNat_zero] at hle
          exact hv.1.1.1.2 (UInt64.toNat_inj.mp (by simpa using hle))
        have hl := h.advance next (by rw [he.shape]) (by rw [he.shape])
          he.ceiling (by rw [he.shape]) hr
        refine (ih hl).mono ?_ (fun _ _ hs => hs) (fun _ hs => hs)
        rintro _ s ⟨last, hla, ha⟩
        exact ⟨last, hla, he.trans ha⟩

theorem wp_reconcileWith (mutationId : String) (e : Execute) :
    Wp (reconcileWith uuid sha256 fmt database ri token e)
      ⟨fun _ s => ∃ run next, Loads uuid ri store run ∧ Loads uuid ri s next ∧
          Settled mutationId run next,
        fun error s => error.refuses = true → s = store, fun _ => True⟩ store := by
  unfold reconcileWith
  apply wp_bind
  refine wp_mapError_run ?_
  unfold pendingGenerationIds
  refine (reads_loads ri).wp_bind ?_ (fun _ => trivial) trivial
  intro run hl
  apply wp_bind
  refine wp_ofExcept (fun _ _ => ?_) (fun _ _ => trivial)
  refine wp_pure.mpr ?_
  dsimp only
  split
  · exact wp_pure.mpr ⟨run, run, hl, hl, .refl mutationId run⟩
  split
  · exact wp_fail.mpr fun _ => rfl
  · split
    · exact wp_fail_of_not_refuses rfl
    split
    · exact wp_fail_of_not_refuses rfl
    · refine (wp_confirmListed mutationId _ _ hl).mono ?_ (fun _ _ hs => hs) (fun _ hs => hs)
      rintro _ s ⟨next, hn, he⟩
      exact ⟨run, next, hl, hn, he⟩

variable {ini : RunStore}

/-- What is granted after reconciling was granted before. -/
theorem Grants.of_settled (h : Grants uuid sha256 request store next)
    (hi : Loads uuid request.runId ini run) (hs : Settled request.mutationId run next) :
    Grants uuid sha256 request ini run where
  reservation := h.reservation
  loads := hi
  attached := by
    have ha := h.attached
    rw [hs.shape] at ha
    exact ha
  grantable := h.grantable.of_settled hs
  revision := by
    have hr := h.revision
    have hl := hs.revision
    omega

theorem toNat_revision_reservedRun (mutationId : String) (h : run.revision.toNat + 1 < 2 ^ 64) :
    (reservedRun mutationId run).revision.toNat = run.revision.toNat + 1 := by
  rw [reservedRun, UInt64.toNat_add, UInt64.toNat_one, Nat.mod_eq_of_lt h]

/-- The record with the unit loads. -/
theorem Grants.loads_reserved (h : Grants uuid sha256 request store run) :
    Loads uuid request.runId (store.insert run.id (reservedRun request.mutationId run))
      (reservedRun request.mutationId run) := by
  refine h.loads.advance (reservedRun request.mutationId run) rfl rfl rfl rfl fun hz => ?_
  have hn := toNat_revision_reservedRun request.mutationId h.revision
  rw [hz] at hn
  simp at hn

/-- A released unit costs nothing. -/
theorem Grants.costless_released (h : Grants uuid sha256 request store next)
    (hi : Loads uuid request.runId ini run) (hs : Settled request.mutationId run next)
    (he : (reservedRun request.mutationId next).revision.toNat + 1 < 2 ^ 64) :
    Costless uuid sha256 request ini
      ((store.insert next.id (reservedRun request.mutationId next)).insert next.id
        (releasedRun next)) := by
  have ht : request.mutationId ∉ next.outputIds := fun ho =>
    h.grantable.fresh (.inr ho)
  have hc := hs.charge.resolve_left ht
  have hl : Loads uuid request.runId
      ((store.insert next.id (reservedRun request.mutationId next)).insert next.id
        (releasedRun next)) (releasedRun next) := by
    refine h.loads_reserved.advance (releasedRun next) rfl rfl rfl rfl fun hz => ?_
    have hn : (releasedRun next).revision.toNat = (next.revision + 1).toNat + 1 := by
      rw [releasedRun, UInt64.toNat_add (next.revision + 1), UInt64.toNat_one]
      exact Nat.mod_eq_of_lt he
    rw [hz] at hn
    simp at hn
  constructor
  · intro f hf
    obtain rfl := Option.some.inj (hi.stored.symm.trans hf)
    refine ⟨releasedRun next, hl.stored, hc.trans ?_⟩
    exact ⟨rfl, rfl, rfl, fun _ => rfl⟩
  · intro _ hr ms
    have hg : Grants uuid sha256 request _ (releasedRun next) :=
      ⟨h.reservation, hl, h.attached,
        ⟨h.grantable.token, h.grantable.fresh, h.grantable.active, h.grantable.room⟩,
        hr _ hl.stored⟩
    exact ⟨_, hg.returns_reserve ms⟩

/-- Executing behind a reservation gives the unit back when nothing was started. -/
theorem wp_executeReserved {a : String} {e : Execute} (he : validateRequest uuid request = .ok ())
    (hi : Loads uuid request.runId ini run) (hs : Settled request.mutationId run next)
    (hg : Grants uuid sha256 request store next) :
    Wp (executeReserved uuid sha256 fmt database request a e)
      ⟨fun _ _ => True, fun error s => error.refuses = true →
        Costless uuid sha256 request ini s ∨ Leaks uuid sha256 request ini,
        fun _ => True⟩ (store.insert next.id (reservedRun request.mutationId next)) := by
  unfold executeReserved
  dsimp only
  apply wp_bind
  refine wp_ofExcept (fun ar _ => ?_) (fun error herr _ => ?_)
  · dsimp only
    split
    · -- Nothing was started, so the unit is released.
      apply wp_bind
      refine wp_mapError_run ?_
      unfold releaseGeneratedWork
      apply wp_bind
      refine wp_ofExcept (fun _ _ => ?_) (fun _ _ => trivial)
      refine (wp_update_loads _ _).mono ?_ (fun _ _ _ => trivial) (fun _ _ => trivial)
      rintro _ _ ⟨f, plan, hf, hp, -, rfl⟩
      obtain rfl := hg.loads_reserved.unique hf
      obtain ⟨hl, hn⟩ := releasePlan_reservedRun hg.grantable hp
      rw [hn]
      exact wp_fail.mpr fun _ =>
        .inl (hg.costless_released hi hs hl)
    · split
      · exact wp_fail_of_not_refuses rfl
      split
      · exact wp_fail_of_not_refuses rfl
      · apply wp_bind
        exact wp_mapError_run (wp_trivial.mono (fun _ _ _ => wp_pure.mpr trivial)
          (fun _ _ _ => trivial) (fun _ _ => trivial))
  · rcases bind_eq_error.mp herr with hr | ⟨_, -, ho⟩
    · exact .inr ⟨he, ⟨error, hr⟩, run, hg.of_settled hi hs⟩
    · simp [pure, Except.pure] at ho

/-- The issue of a confirmed mutation is found. -/
theorem wp_confirmedIssue (h : Loads uuid request.runId store run)
    (hi : (run.generatedIssue request.mutationId).isSome = true) :
    Wp (confirmedIssue uuid request) ⟨fun _ _ => True,
      fun error s => error.refuses = true → P s, fun _ => True⟩ store := by
  unfold confirmedIssue
  apply wp_bind
  refine wp_mapError_run (Wp.mono (reads_loads _) ?_ (fun _ _ _ => trivial) (fun _ _ => trivial))
  rintro f _ ⟨rfl, hf⟩
  obtain rfl := h.unique hf
  obtain ⟨id, hd⟩ := Option.isSome_iff_exists.mp hi
  dsimp only
  rw [hd]
  exact wp_pure.mpr trivial

variable (fmt database) in
/-- Whatever the execution answers and whatever befalls the store, a refused request cost nothing,
unless its arguments are refused behind a reservation. -/
theorem wp_generateWith (ms : UInt64) (e : Execute) :
    Wp (generateWith uuid sha256 fmt database request ms e)
      ⟨fun _ _ => True, fun error s => error.refuses = true →
        Costless uuid sha256 request store s ∨ Leaks uuid sha256 request store,
        fun _ => True⟩ store := by
  unfold generateWith
  apply wp_bind
  refine wp_ofExcept (fun _ he => ?_) (fun _ _ _ => .inl (.refl store))
  apply wp_bind
  refine (wp_reconcileWith request.mutationId e).mono ?_ ?_ (fun _ _ => trivial)
  · rintro _ r ⟨run, next, hi, hn, hse⟩
    apply wp_bind
    refine wp_mapError_run ?_
    unfold generationActor
    refine (reads_loads _).wp_bind ?_ (fun _ => trivial) trivial
    intro f hf
    obtain rfl := hn.unique hf
    apply wp_bind
    refine wp_ofExcept (fun _ _ => ?_) (fun _ _ => trivial)
    split
    · exact wp_fail.mpr trivial
    next ac ha =>
    refine wp_pure.mpr ?_
    dsimp only
    apply wp_bind
    refine wp_mapError_run ?_
    unfold reserveGeneratedWork
    apply wp_bind
    refine wp_ofExcept (fun _ hr => ?_) (fun _ _ => trivial)
    refine (wp_update_loads _ _).mono ?_ (fun _ _ _ => trivial) (fun _ _ => trivial)
    rintro a _ ⟨f, plan, hf, hp, rfl, rfl⟩
    obtain rfl := hn.unique hf
    cases hans : plan.answer with
    | exhausted => exact wp_fail_of_not_refuses rfl
    | pending => exact wp_fail_of_not_refuses rfl
    | consumed =>
      obtain ⟨hno, ho⟩ := consumed_of_reservePlan hp hans
      rw [hno]
      exact wp_confirmedIssue hn ho
    | reserved =>
      obtain ⟨hg, hv, hso⟩ := grantable_of_reservePlan hp hans
      rw [hso]
      exact wp_executeReserved he hi hse ⟨hr, hn, by rw [ha]; rfl, hg, hv⟩
  · intro error s hs hre
    rw [hs hre]
    exact .inl (.refl store)

/-! ### Units that are lost -/

/-- An execution that lists no issues. -/
def listsNone (fmt : JsonFormat) : Execute := fun _ => .ok ⟨true, fmt.print (.arr []), ""⟩

theorem returns_confirmListed_nil (ri : String) (p : List String) : Returns
    (confirmListed uuid sha256 ri token [] p) store () store := by
  induction p with
  | nil => exact returns_pure () store
  | cons x xs ih =>
    rw [confirmListed]
    exact ih

theorem returns_reconcileWith (h : Loads uuid ri store run)
    (ht : verifyToken sha256 run token = .ok ()) : Returns
    (reconcileWith uuid sha256 fmt database ri token (listsNone fmt)) store () store := by
  have hp : Returns (pendingGenerationIds uuid sha256 ri token) store
      (run.generatedWork.pending.map (·.mutationId)) store := by
    refine returns_bind h.returns ?_
    exact returns_bind (returns_ofExcept ht store) (returns_pure _ store)
  have hi : parseIssues fmt (fmt.print (.arr [])) = some [] := by
    rw [parseIssues, fmt.read_print _ ((Json.fits_arr 126 []).mpr (by simp))]
  refine returns_bind (hp.mapError _) ?_
  split
  · exact returns_pure () store
  · simp only [listsNone, hi]
    exact returns_confirmListed_nil ri _

/-- Refused arguments are an invalid request. -/
theorem refuses_of_suppliedArguments {c : String} {s : List String}
    (h : suppliedArguments c s = .error error) : error.refuses = true := by
  have hc : ∀ {a : List String}, rejectControlFlags a = .error error → error.refuses = true := by
    intro a hr
    unfold rejectControlFlags at hr
    split at hr
    · rw [← Except.error.inj hr]
      rfl
    · simp at hr
  have hl : ∀ {o t a : List String}, quickLoop o t a = .error error → error.refuses = true := by
    intro o t a hq
    fun_induction quickLoop o t a with
    | case1 => simp at hq
    | case2 o t xs ih => exact ih hq
    | case3 => exact Except.error.inj hq ▸ rfl
    | case4 o t v _ _ next xs ih => exact ih hq
    | case5 => exact Except.error.inj hq ▸ rfl
    | case6 o t v xs _ _ _ ih => exact ih hq
  unfold suppliedArguments at h
  split at h
  · unfold quickToCreate at h
    rcases bind_eq_error.mp h with hr | ⟨_, -, h⟩
    · exact hc hr
    rcases bind_eq_error.mp h with hq | ⟨_, -, h⟩
    · exact hl hq
    rcases bind_eq_error.mp h with ht | ⟨_, -, h⟩
    · rw [require_error ht]
      rfl
    · simp [pure, Except.pure] at h
  · rcases bind_eq_error.mp h with hr | ⟨_, -, h⟩
    · exact hc hr
    · simp [pure, Except.pure] at h

variable (fmt database) in
/-- A request that leaks is refused, and its unit stays reserved. -/
theorem generateWith_of_leaks {r : GenerationError} (ms : UInt64)
    (he : validateRequest uuid request = .ok ())
    (hr : suppliedArguments request.command request.arguments = .error r)
    (h : Grants uuid sha256 request store run) :
    generateWith uuid sha256 fmt database request ms (listsNone fmt) [] store =
      (.error r, [], store.insert run.id (reservedRun request.mutationId run)) := by
  obtain ⟨a, ha⟩ := Option.isSome_iff_exists.mp h.attached
  have hg : Returns (generationActor uuid sha256 request.runId request.token) store a store := by
    refine returns_bind h.loads.returns ?_
    refine returns_bind (returns_ofExcept h.grantable.token store) ?_
    rw [ha]
    exact returns_pure a store
  unfold generateWith
  rw [(returns_ofExcept he store).bind_eq,
    (returns_reconcileWith h.loads h.grantable.token).bind_eq,
    (hg.mapError _).bind_eq, ((h.returns_reserve ms).mapError _).bind_eq]
  unfold executeReserved generationArguments
  rw [hr]
  rfl

/-- A unit that stays reserved is no refusal without costs. -/
theorem Grants.not_costless_reserved (h : Grants uuid sha256 request store run) :
    ¬ Costless uuid sha256 request store
      (store.insert run.id (reservedRun request.mutationId run)) := by
  intro hc
  obtain ⟨next, hn, hh⟩ := hc.runs run h.loads.stored
  obtain rfl := Option.some.inj (h.loads_reserved.stored.symm.trans hn)
  have hp := hh.pending
  simp [reservedRun] at hp

variable (uuid sha256) in
/-- What generation costs where it is refused: a request whose arguments are refused although
a unit was granted loses it, and no other refused request costs anything. -/
theorem refused_costless_iff (fmt : JsonFormat) (database : String) (request : GenerateRequest)
    (nowMs : UInt64) (store : RunStore) :
    (∀ (execute : Execute) (faults : List Fault) (error : GenerationError),
      (generateWith uuid sha256 fmt database request nowMs execute faults store).1 =
        .error error → error.refuses = true → Costless uuid sha256 request store
        ((generateWith uuid sha256 fmt database request nowMs execute).leaves faults store)) ↔
      ¬ Leaks uuid sha256 request store := by
  constructor
  · rintro h ⟨hq, ⟨error, hr⟩, run, hg⟩
    have he := generateWith_of_leaks fmt database nowMs hq hr hg
    have hc := h (listsNone fmt) [] error (by rw [he]) (refuses_of_suppliedArguments hr)
    rw [Program.leaves, he] at hc
    exact hg.not_costless_reserved hc
  · intro hl execute faults error herr hre
    have hw := (wp_generateWith fmt database nowMs execute).error_of herr
    exact (hw hre).resolve_right hl

end

/-! ### A lost unit -/

/-- A request to create an issue under the Agent's own name. -/
def actorRequest : GenerateRequest where
  runId := "00000000-0000-4000-8000-000000000001"
  token := "0123456789abcdef"
  mutationId := "00000000-0000-4000-8000-000000000002"
  command := "create"
  arguments := ["--title", "Work", "--actor=me"]

/-- A hash for a Run with a single capability. -/
def blankHash : Sha256 := fun _ => Vector.replicate 32 0

/-- An attached Run that may generate one issue. -/
def attachedRun : Run :=
  { admittedRun blankHash ⟨actorRequest.runId, 1, 1⟩ actorRequest.token with
    sessionId := some "codex/session-1"
    state := "active" }

theorem grants_attachedRun : Grants some blankHash actorRequest
    (AList.insert attachedRun.id attachedRun ∅) attachedRun where
  reservation := by decide +kernel
  loads := ⟨by decide +kernel, AList.lookup_insert ∅, by decide +kernel⟩
  attached := rfl
  grantable := ⟨by decide +kernel, by simp [SpokenFor, Run.pendingIds, Run.outputIds, attachedRun,
    admittedRun], rfl, by decide⟩
  revision := by decide

/-- The refused request keeps the only unit of its Run reserved. -/
theorem refused_actor_leaks : ¬ ∀ (execute : Execute) (faults : List Fault)
    (error : GenerationError),
    (generateWith some blankHash Compact.format "/beads.db" actorRequest 0 execute faults
      (AList.insert attachedRun.id attachedRun ∅)).1 = .error error → error.refuses = true →
    Costless some blankHash actorRequest (AList.insert attachedRun.id attachedRun ∅)
      ((generateWith some blankHash Compact.format "/beads.db" actorRequest 0
        execute).leaves faults (AList.insert attachedRun.id attachedRun ∅)) := by
  intro h
  have hrefused : suppliedArguments actorRequest.command actorRequest.arguments =
      .error (.invalid "broker owns control flag '--actor=me'") := by decide +kernel
  have hresult := generateWith_of_leaks Compact.format "/beads.db" 0 (by decide +kernel)
    hrefused grants_attachedRun
  have hcostless := h (listsNone Compact.format) [] _ (by rw [hresult]) rfl
  rw [Program.leaves, hresult] at hcostless
  exact grants_attachedRun.not_costless_reserved hcostless

end Louiselm.Capture
