import Mathlib.Algebra.GroupWithZero.Nat
import Louiselm.Capture.Writes

/-!
# Generated-work accounting

Every step on a Run of `capture-service/src/runs.rs` replaces its record by a later one, and
the counters, the pending reservations and the outputs of every record add up.
-/

namespace Louiselm.Capture
open Base Canonical List Run

/-! ### One record -/

/-- Units reserved by a list of reservations. -/
def unitsOf (pending : List PendingGeneration) : Nat := (pending.map (·.units.toNat)).sum

def Run.pendingIds (run : Run) : List String := run.generatedWork.pending.map (·.mutationId)

def Run.outputIds (run : Run) : List String := run.generatedWork.outputs.map (·.mutationId)

/-- The counters agree with the reservations and the outputs, within the ceiling. -/
structure Accounted (run : Run) : Prop where
  reserved : run.generatedWork.reserved.toNat = unitsOf run.generatedWork.pending
  units : ∀ pending ∈ run.generatedWork.pending, 1 ≤ pending.units.toNat
  distinct : run.pendingIds.Nodup
  consumed : run.generatedWork.consumed.toNat = run.generatedWork.outputs.length
  bounded : run.generatedWork.consumed.toNat + run.generatedWork.reserved.toNat ≤
    run.generatedWork.ceiling.toNat

/-- A mutation id has a reservation or an output. -/
def SpokenFor (mutationId : String) (run : Run) : Prop :=
  mutationId ∈ run.pendingIds ∨ mutationId ∈ run.outputIds

/-- A later record of a Run. Only the mutation ids of `freed` may lose their reservation
without an output. -/
structure Advance (freed : String → Prop) (run next : Run) : Prop where
  id : next.id = run.id
  revision : run.revision.toNat < next.revision.toNat
  ceiling : run.generatedWork.ceiling.toNat ≤ next.generatedWork.ceiling.toNat
  accounted : Accounted run → Accounted next
  spokenFor : ∀ mutationId, SpokenFor mutationId run → ¬ freed mutationId →
    SpokenFor mutationId next

/-- Nothing is freed. -/
def noneFreed : String → Prop := fun _ => False

variable {run next : Run}

theorem Advance.mono {f mo : String → Prop} (h : Advance f run next)
    (hu : ∀ mid, f mid → mo mid) : Advance mo run next :=
  ⟨h.id, h.revision, h.ceiling, h.accounted, fun mid hs hm =>
    h.spokenFor mid hs fun hf => hm (hu mid hf)⟩

theorem Advance.trans {f : String → Prop} {mi : Run}
    (h : Advance f run mi) (h' : Advance f mi next) : Advance f run next where
  id := h'.id.trans h.id
  revision := h.revision.trans h'.revision
  ceiling := h.ceiling.trans h'.ceiling
  accounted := h'.accounted ∘ h.accounted
  spokenFor := fun mid hs hf => h'.spokenFor mid (h.spokenFor mid hs hf) hf

/-- A record replaced by one with new accounting. -/
theorem advance_of_revision {f : String → Prop} {c : Run} (h : advanceRevision c = .ok next)
    (hi : c.id = run.id) (he : c.revision = run.revision)
    (hce : run.generatedWork.ceiling.toNat ≤ c.generatedWork.ceiling.toNat)
    (hac : Accounted run → Accounted c) (hp : ∀ mid, SpokenFor mid run → ¬ f mid →
      SpokenFor mid c) : Advance f run next := by
  obtain ⟨hi', hw, hl⟩ := advanceRevision_ok h
  refine ⟨hi'.trans hi, he ▸ hl, hw ▸ hce, ?_, ?_⟩
  · intro ha
    obtain ⟨hr, hu, hd, hc, hb⟩ := hac ha
    rw [← hw] at hr hu hc hb
    rw [pendingIds, ← hw] at hd
    exact ⟨hr, hu, hd, hc, hb⟩
  · intro mid hs hf
    have := hp mid hs hf
    rwa [SpokenFor, pendingIds, outputIds, ← hw] at this

/-- A record replaced by one with the same accounting. -/
theorem advance_of_same_work {c : Run} (h : advanceRevision c = .ok next)
    (hi : c.id = run.id) (he : c.revision = run.revision)
    (hw : c.generatedWork = run.generatedWork) : Advance noneFreed run next := by
  refine advance_of_revision h hi he (by rw [hw]) ?_ ?_
  · rintro ⟨hr, hu, hd, hc, hb⟩
    rw [← hw] at hr hu hc hb
    rw [pendingIds, ← hw] at hd
    exact ⟨hr, hu, hd, hc, hb⟩
  · intro mid hs _
    rwa [SpokenFor, pendingIds, outputIds, hw]

/-! ### What a step decides -/

theorem unitsOf_append (xs ys : List PendingGeneration) :
    unitsOf (xs ++ ys) = unitsOf xs + unitsOf ys := by
  simp [unitsOf]

theorem unitsOf_cons (p : PendingGeneration) (xs : List PendingGeneration) :
    unitsOf (p :: xs) = p.units.toNat + unitsOf xs := by
  simp [unitsOf]

theorem unitsOf_nil : unitsOf [] = 0 := rfl

/-- No reservation exceeds what is reserved, so nothing underflows. -/
theorem Accounted.units_le (h : Accounted run) {p : PendingGeneration}
    (hm : p ∈ run.generatedWork.pending) : p.units.toNat ≤ run.generatedWork.reserved.toNat := by
  obtain ⟨before, after, hs⟩ := append_of_mem hm
  rw [h.reserved, hs, unitsOf_append, unitsOf_cons]
  omega

/-- The mutation id that a request takes from its reservation without an output. -/
def Call.frees (run : Run) : Call → String → Prop
  | .release _ _ released => fun mutationId =>
    mutationId = released ∧ released ∈ run.pendingIds ∧ released ∉ run.outputIds
  | _ => noneFreed

section

/-- A reservation counts its units, for a mutation that had none. -/
theorem advance_of_reserve {reservation : GeneratedWorkReservation} {occupied reserved : UInt64}
    (hu : reservation.units ≠ 0)
    (hou : ¬run.generatedWork.outputs.any (·.mutationId == reservation.mutationId))
    (hp : ¬run.generatedWork.pending.any (·.mutationId == reservation.mutationId))
    (hoc : (checkedAdd run.generatedWork.consumed run.generatedWork.reserved).bind
      (checkedAdd · reservation.units) = some occupied) (hf : ¬occupied > run.generatedWork.ceiling)
    (hre : checkedAdd run.generatedWork.reserved reservation.units = some reserved)
    (hn : advanceRevision { run with
      generatedWork := { run.generatedWork with
        reserved
        pending := run.generatedWork.pending ++
          [⟨reservation.mutationId, reservation.kind, reservation.units⟩] } } = .ok next) :
    Advance noneFreed run next := by
  have he : ¬ SpokenFor reservation.mutationId run := by
    simpa [SpokenFor, pendingIds, outputIds, not_or] using And.intro hp hou
  refine advance_of_revision hn rfl rfl le_rfl (fun ha => ?_) fun mutationId hs _ => ?_
  · obtain ⟨sum, hsum, hc⟩ := Option.bind_eq_some_iff.mp hoc
    have hr := checkedAdd_eq_some hre
    have hs := checkedAdd_eq_some hsum
    have ho := checkedAdd_eq_some hc
    have hl : occupied.toNat ≤ run.generatedWork.ceiling.toNat :=
      UInt64.le_iff_toNat_le.mp (UInt64.not_lt.mp hf)
    refine ⟨?_, ?_, ?_, ha.consumed, ?_⟩
    · simp only [unitsOf_append, unitsOf_cons, unitsOf_nil]
      have := ha.reserved
      omega
    · intro pending hm
      rcases mem_append.mp hm with hm | hm
      · exact ha.units pending hm
      · obtain rfl := mem_singleton.mp hm
        have : reservation.units.toNat ≠ 0 := fun h0 => hu (UInt64.toNat_inj.mp h0)
        dsimp only
        omega
    · simp only [pendingIds, map_append, map_cons, map_nil]
      rw [nodup_append]
      refine ⟨ha.distinct, by simp, ?_⟩
      intro id hi other ht heq
      obtain rfl := mem_singleton.mp ht
      exact he (.inl (heq ▸ hi))
    · dsimp only
      omega
  · exact hs.imp_left fun hs => by simp [pendingIds] at hs ⊢; exact .inl hs

/-- The record after a request is a later one. -/
theorem Begins.advance {call : Call} (h : Begins call run next) :
    Advance (call.frees run) run next := by
  obtain ⟨changed, hr, hn⟩ := h
  cases hr with
  | reserve hu hou hp hoc hfi hre =>
    exact advance_of_reserve hu hou hp hoc hfi hre hn
  | @confirm _ _ mutationId _ _ before pending after consumed _ hl hco =>
    obtain ⟨hsp, hi⟩ := locate_eq_some hl
    refine advance_of_revision hn rfl rfl le_rfl ?_ ?_
    · intro ha
      have he : pending ∈ run.generatedWork.pending := by simp [hsp]
      have hone := ha.units pending he
      have hle := ha.units_le he
      have hm := ha.reserved
      have hc := checkedAdd_eq_some hco
      have hb := ha.bounded
      have hlen := ha.consumed
      have hd := ha.distinct
      have hu := ha.units
      have hsub : (run.generatedWork.reserved - 1).toNat = run.generatedWork.reserved.toNat - 1 :=
        toNat_sub (by simp; omega)
      have hsu : (pending.units - 1).toNat = pending.units.toNat - 1 :=
        toNat_sub (by simp; omega)
      rw [pendingIds] at hd
      rw [hsp] at hm hd hu
      rw [unitsOf_append, unitsOf_cons] at hm
      simp only [UInt64.toNat_one] at hc
      dsimp only
      split
      · next hz =>
        rw [hz, UInt64.toNat_zero] at hsu
        refine ⟨?_, ?_, ?_, ?_, ?_⟩
        · simp only [append_nil, unitsOf_append]
          omega
        · intro other ho
          exact hu other (by simp at ho ⊢; tauto)
        · simp only [pendingIds, append_nil]
          refine hd.sublist ?_
          rw [map_append, map_append]
          exact List.Sublist.append_left (sublist_cons_self _ _) _
        · simp only [length_append, length_cons, length_nil]
          omega
        · dsimp only
          omega
      · next hne =>
        have hpos : (pending.units - 1).toNat ≠ 0 := fun h0 => hne (UInt64.toNat_inj.mp h0)
        refine ⟨?_, ?_, ?_, ?_, ?_⟩
        · simp only [unitsOf_append, unitsOf_cons, unitsOf_nil]
          omega
        · intro other ho
          simp only [append_assoc, mem_append, mem_cons, not_mem_nil, or_false] at ho
          rcases ho with ho | rfl | ho
          · exact hu other (by simp [ho])
          · dsimp only
            omega
          · exact hu other (by simp [ho])
        · simpa [pendingIds] using hd
        · simp only [length_append, length_cons, length_nil]
          omega
        · dsimp only
          omega
    · rintro other (hs | hs) _
      · rw [pendingIds, hsp] at hs
        by_cases heq : other = mutationId
        · exact .inr (by simp [outputIds, heq])
        · refine .inl ?_
          simp only [map_append, map_cons, mem_append, mem_cons, hi, heq, false_or] at hs
          simp only [pendingIds, map_append, mem_append]
          tauto
      · exact .inr (by simp [outputIds] at hs ⊢; exact .inl hs)
  | @release _ _ mutationId _ before pending after hl =>
    obtain ⟨hsp, hi⟩ := locate_eq_some hl
    refine advance_of_revision hn rfl rfl le_rfl ?_ ?_
    · intro ha
      have he : pending ∈ run.generatedWork.pending := by simp [hsp]
      have hle := ha.units_le he
      have hm := ha.reserved
      have hb := ha.bounded
      have hd := ha.distinct
      have hu := ha.units
      have hsub : (run.generatedWork.reserved - pending.units).toNat =
          run.generatedWork.reserved.toNat - pending.units.toNat := toNat_sub hle
      rw [pendingIds] at hd
      rw [hsp] at hm hd hu
      rw [unitsOf_append, unitsOf_cons] at hm
      refine ⟨?_, ?_, ?_, ha.consumed, ?_⟩
      · simp only [unitsOf_append]
        omega
      · intro other ho
        exact hu other (by simp at ho ⊢; tauto)
      · simp only [pendingIds]
        refine hd.sublist ?_
        rw [map_append, map_append]
        exact List.Sublist.append_left (sublist_cons_self _ _) _
      · dsimp only
        omega
    · rintro other (hs | hs) hf
      · have hp := hs
        rw [pendingIds, hsp] at hs
        by_cases heq : other = mutationId
        · subst heq
          exact .inr (not_not.mp fun ht => hf ⟨rfl, hp, ht⟩)
        · refine .inl ?_
          simpa [pendingIds, hi, heq] using hs
      · exact .inr hs
  | raise hh =>
    have hle := UInt64.le_iff_toNat_le.mp (UInt64.le_of_lt hh)
    refine advance_of_revision hn rfl rfl hle ?_ fun _ hs _ => hs
    rintro ⟨hre, hu, hd, hcn, hbo⟩
    exact ⟨hre, hu, hd, hcn, hbo.trans hle⟩
  | _ => exact advance_of_same_work hn rfl rfl rfl

end

/-! ### The store -/

/-- Every record is under its own id and its accounting adds up. -/
def Sound (store : RunStore) : Prop :=
  ∀ id run, store.lookup id = some run → run.id = id ∧ Accounted run

/-- A record is the same or a later one. -/
def Later (freed : String → Prop) (run next : Run) : Prop := next = run ∨ Advance freed run next

/-- A store that follows another one: soundness is kept and no record is lost or goes back. -/
structure Keeps (freed : String → String → Prop) (before after : RunStore) : Prop where
  sound : Sound before → Sound after
  later : ∀ id run, before.lookup id = some run →
    ∃ next, after.lookup id = some next ∧ Later (freed id) run next

/-- No Run loses a reservation without an output. -/
def nothingFreed : String → String → Prop := fun _ => noneFreed

variable {fr : String → String → Prop} {before m after : RunStore}

theorem Later.trans {fr : String → Prop} {m : Run} (h : Later fr run m)
    (h' : Later fr m next) : Later fr run next := by
  rcases h with rfl | h
  · exact h'
  · rcases h' with rfl | h'
    · exact .inr h
    · exact .inr (h.trans h')

theorem Keeps.refl (fr : String → String → Prop) (store : RunStore) : Keeps fr store store :=
  ⟨id, fun _ run hr => ⟨run, hr, .inl rfl⟩⟩

theorem Keeps.trans (h : Keeps fr before m) (h' : Keeps fr m after) :
    Keeps fr before after := by
  refine ⟨h'.sound ∘ h.sound, ?_⟩
  intro id run hr
  obtain ⟨next, hn, hl⟩ := h.later id run hr
  obtain ⟨l, ha, hl'⟩ := h'.later id next hn
  exact ⟨l, ha, hl.trans hl'⟩

/-- Replacing a record by a later one. -/
theorem keeps_insert {id : String} (hr : before.lookup id = some run) (hi : run.id = id)
    (h : Advance (fr id) run next) : Keeps fr before (before.insert next.id next) := by
  have hn : next.id = id := h.id.trans hi
  refine ⟨?_, ?_⟩
  · intro hs o f hf
    by_cases ho : o = next.id
    · subst ho
      obtain rfl := Option.some.inj ((AList.lookup_insert before).symm.trans hf)
      exact ⟨rfl, h.accounted (hs id run hr).2⟩
    · rw [AList.lookup_insert_ne ho] at hf
      exact hs o f hf
  · intro o f hf
    by_cases ho : o = next.id
    · subst ho
      rw [hn] at hf ⊢
      obtain rfl := Option.some.inj (hr.symm.trans hf)
      exact ⟨next, AList.lookup_insert before, .inr h⟩
    · exact ⟨f, by rw [AList.lookup_insert_ne ho, hf], .inl rfl⟩

/-- A Run's first record. -/
theorem keeps_insert_new (hr : before.lookup run.id = none) (h : Accounted run) :
    Keeps fr before (before.insert run.id run) := by
  refine ⟨?_, ?_⟩
  · intro hs o f hf
    by_cases ho : o = run.id
    · subst ho
      obtain rfl := Option.some.inj ((AList.lookup_insert before).symm.trans hf)
      exact ⟨rfl, h⟩
    · rw [AList.lookup_insert_ne ho] at hf
      exact hs o f hf
  · intro o f hf
    by_cases ho : o = run.id
    · subst ho
      simp [hr] at hf
    · exact ⟨f, by rw [AList.lookup_insert_ne ho, hf], .inl rfl⟩

/-! ### Runs of the service -/

section

variable {uuid : String → Option String} {sha256 : Sha256} {store : RunStore}

theorem accounted_admittedRun (a : RunAdmission) (t : String) :
    Accounted (admittedRun sha256 a t) := by
  refine ⟨rfl, ?_, ?_, rfl, ?_⟩ <;> simp [admittedRun, pendingIds]

/-- What a request may free: a release frees its mutation id where it finds a reservation
and no output. -/
def freedBy (store : RunStore) : Call → String → String → Prop
  | .release runId _ released => fun id mutationId =>
    id = runId ∧ mutationId = released ∧
      ∃ run, store.lookup runId = some run ∧ released ∈ run.pendingIds ∧ released ∉ run.outputIds
  | _ => nothingFreed

/-- Whatever befalls a request, every record stays or is replaced by a later one. -/
theorem step_keeps (c : Call) (fs : List Fault) :
    Keeps (freedBy store c) store (step uuid sha256 store (c, fs)) := by
  refine step_keeps_of_replaces fs (.refl _ store) ?_ ?_
  · intro a t _ _ hfr
    exact keeps_insert_new hfr (accounted_admittedRun a t)
  · intro s run next hf hu hr hs
    refine hs.trans (keeps_insert hu rfl (hr.begins.advance.mono fun mid hm => ?_))
    cases hr with
    | release _ =>
      obtain rfl : s = store := hf.resolve_right id
      obtain ⟨rfl, hi, ho⟩ := hm
      exact ⟨rfl, rfl, run, hu, hi, ho⟩
    | _ => exact False.elim hm

/-- A mutation id of a stored Run has a reservation or an output. -/
def Claimed (store : RunStore) (id mutationId : String) : Prop :=
  ∃ run, store.lookup id = some run ∧ SpokenFor mutationId run

/-- A reservation is answered as made only for a mutation id that had none. -/
theorem reserved_claims {r : GeneratedWorkReservation} {ms : UInt64} {fs : List Fault}
    (h : (reserveGeneratedWork uuid sha256 r ms fs store).1 = .value .reserved) :
    ¬ Claimed store r.runId r.mutationId ∧
      Claimed (step uuid sha256 store (.reserve r ms, fs)) r.runId
        r.mutationId := by
  suffices hwp : Program.Wp (reserveGeneratedWork uuid sha256 r ms) ⟨fun a s => a = .reserved →
          ¬ Claimed store r.runId r.mutationId ∧ Claimed s r.runId r.mutationId,
        fun _ _ => True, fun _ => True⟩ store from hwp.value_of h rfl
  unfold reserveGeneratedWork
  apply Program.wp_bind
  refine Program.wp_ofExcept ?_ (fun _ _ => trivial)
  intro _ _
  refine (wp_update _ _).mono ?_ (fun _ _ _ => trivial) (fun _ _ => trivial)
  rintro _ s ⟨run, p, hr, hi, hp, rfl, rfl⟩ hn
  cases reservePlan_planned hp with
  | @reserved _ _ next _ _ ho he _ _ _ ha =>
    obtain ⟨hsa, hw, -⟩ := advanceRevision_ok ha
    refine ⟨?_, next, ?_, .inl (by simp [pendingIds, hw])⟩
    · rintro ⟨f, hf, hs⟩
      obtain rfl := Option.some.inj (hr.symm.trans hf)
      revert hs
      simpa [SpokenFor, pendingIds, outputIds, not_or] using And.intro he ho
    · rw [← hi, ← show next.id = run.id from hsa]
      exact AList.lookup_insert store
  | _ => cases hn

/-- A mutation id stays spoken for until a release frees it. -/
theorem step_claimed {id mid : String} {c : Call} {fs : List Fault} (h : Claimed store id mid)
    (hf : ¬ freedBy store c id mid) : Claimed (step uuid sha256 store (c, fs)) id mid := by
  obtain ⟨run, hr, hs⟩ := h
  have hk : Keeps (freedBy store c) store (step uuid sha256 store (c, fs)) :=
    step_keeps c fs
  obtain ⟨next, hn, hl⟩ := hk.later id run hr
  rcases hl with rfl | ha
  · exact ⟨next, hn, hs⟩
  · exact ⟨next, hn, ha.spokenFor mid hs hf⟩

variable (uuid sha256) in
/-- Between two reservations of one mutation id that were both made, a release found the
first one and no output for it. -/
theorem release_between_reservations (store : RunStore) (x a : GeneratedWorkReservation)
    (ms lm : UInt64) (fs lf : List Fault) (b : List (Call × List Fault)) (hi : a.runId = x.runId)
    (hm : a.mutationId = x.mutationId)
    (hfi : (reserveGeneratedWork uuid sha256 x ms fs store).1 = .value .reserved)
    (hg : (reserveGeneratedWork uuid sha256 a lm lf
      (b.foldl (step uuid sha256) (step uuid sha256 store (.reserve x ms, fs)))).1 =
        .value .reserved) : ∃ before t r after,
      b = before ++ (.release x.runId t x.mutationId, r) :: after ∧
      ∃ run, (before.foldl (step uuid sha256)
          (step uuid sha256 store (.reserve x ms, fs))).lookup x.runId = some run ∧
        x.mutationId ∈ run.pendingIds ∧ x.mutationId ∉ run.outputIds := by
  obtain ⟨-, hl⟩ := reserved_claims hfi
  obtain ⟨hf, -⟩ := reserved_claims hg
  rw [hi, hm] at hf
  have hn : ¬ Throughout (step uuid sha256) (fun s e => ¬ freedBy s e.1 x.runId x.mutationId)
      (step uuid sha256 store (.reserve x ms, fs)) b := by
    intro hc
    have ha : Always (step uuid sha256) (fun s => Claimed s x.runId x.mutationId) _ b :=
      always_of_throughout (fun _ _ => step_claimed) hl hc
    exact hf ha.last
  obtain ⟨before, ⟨c, r⟩, after, rfl, hca⟩ := exists_of_not_throughout hn
  replace hca := not_not.mp hca
  cases c with
  | release runId t mutationId =>
    obtain ⟨rfl, rfl, run, hr, hin, ho⟩ := hca
    exact ⟨before, t, r, after, rfl, run, hr, hin, ho⟩
  | _ => exact hca.elim

variable (uuid sha256) in
/-- Generated-work accounting holds in every reachable store. In every record the reserved
units are those of the pending reservations, each of at least one unit and of its own
mutation, the consumed ones are the outputs, both together keep within the ceiling, and no
reservation is more than what is reserved, so that nothing underflows. Each step leaves a
record as it is or gives it a higher revision and no lower ceiling. A mutation id is reserved
again only after a release that found no output for it. -/
theorem generatedWork_accounting (calls : List (Call × List Fault)) : Always (step uuid sha256)
      (fun store => ∀ id run, store.lookup id = some run →
        Accounted run ∧ ∀ pending ∈ run.generatedWork.pending,
          pending.units.toNat ≤ run.generatedWork.reserved.toNat) ∅ calls ∧
    (∀ earlier event later, calls = earlier ++ event :: later →
      ∀ id run, (earlier.foldl (step uuid sha256) ∅).lookup id = some run →
        ∃ next, (step uuid sha256 (earlier.foldl (step uuid sha256) ∅) event).lookup id =
            some next ∧ (next = run ∨ run.revision < next.revision ∧
            run.generatedWork.ceiling ≤ next.generatedWork.ceiling)) ∧
    (∀ earlier first nowMs faults between again laterMs laterFaults later,
      calls = earlier ++ (.reserve first nowMs, faults) ::
        (between ++ (.reserve again laterMs, laterFaults) :: later) →
      again.runId = first.runId → again.mutationId = first.mutationId →
      (reserveGeneratedWork uuid sha256 first nowMs faults
        (earlier.foldl (step uuid sha256) ∅)).1 = .value .reserved →
      (reserveGeneratedWork uuid sha256 again laterMs laterFaults
        (between.foldl (step uuid sha256) (step uuid sha256
          (earlier.foldl (step uuid sha256) ∅) (.reserve first nowMs, faults)))).1 =
        .value .reserved → ∃ before token released after,
        between = before ++ (.release first.runId token first.mutationId, released) :: after ∧
        ∃ run, (before.foldl (step uuid sha256) (step uuid sha256
            (earlier.foldl (step uuid sha256) ∅) (.reserve first nowMs, faults))).lookup
              first.runId = some run ∧
          first.mutationId ∈ run.pendingIds ∧ first.mutationId ∉ run.outputIds) := by
  refine ⟨?_, ?_, ?_⟩
  · have hs : Always (step uuid sha256) Sound ∅ calls :=
      always_of_throughout (fun _ event h _ => (step_keeps event.1 event.2).sound h)
        (fun id run h => by simp at h) (throughout_of_forall (fun _ _ => trivial) _ _)
    refine hs.mono fun store h id run hr => ?_
    obtain ⟨-, ha⟩ := h id run hr
    exact ⟨ha, fun pending => ha.units_le⟩
  · intro earlier event later _ id run hr
    obtain ⟨next, hn, hl⟩ := (step_keeps event.1 event.2).later id run hr
    refine ⟨next, hn, hl.imp_right fun h => ⟨?_, ?_⟩⟩
    · exact UInt64.lt_iff_toNat_lt.mpr h.revision
    · exact UInt64.le_iff_toNat_le.mpr h.ceiling
  · intro earlier first nowMs faults between again laterMs laterFaults later _ hi hm
    exact release_between_reservations uuid sha256 _ first again nowMs laterMs faults
      laterFaults between hi hm

end
end Louiselm.Capture
