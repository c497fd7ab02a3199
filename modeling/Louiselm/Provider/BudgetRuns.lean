import Louiselm.Base.Runs
import Louiselm.Provider.Budget

/-!
# The Provider budget over whole runs

What holds of the records of `skills-core/src/broker/provider_requests.rs` after any
interleaving of its operations, each with any failures: spent units stay within the extended
grant, and holds and extensions alternate.
-/

namespace Louiselm.Provider.Budget
open Base List
open Base.Program Budget Ledger

/-! ### The records of a Run -/

/-- Units that recorded extensions add. -/
def unitsOf (recorded : List Extension) : Nat :=
  (recorded.map (·.request.additionalRequests)).sum

/-- The records of a Run: `spent` attempts, `holdCount` holds and the extensions `recorded`. -/
structure Balanced (runId : String) (granted : Permission) (ledger : Ledger)
    (spent holdCount : Nat) (recorded : List Extension) : Prop where
  runs : ledger.runs.Upto spent
  holds : ledger.holds.Upto holdCount
  extensions : ledger.extensions.Upto recorded.length
  alternate : holdCount = recorded.length ∨ holdCount = recorded.length + 1
  first : ∀ first, ledger.runs.lookup 0 = some first →
    first.runId = runId ∧ first.maxRunRequests = granted.maxRunRequests
  held : ∀ number hold, ledger.holds.lookup number = some hold → hold.runId = runId
  complete : ∀ number, ledger.extensions.lookup number = recorded[number]?
  lifts : ∀ (number : Nat) extension, recorded[number]? = some extension →
    extension.runId = runId ∧ ledger.holds.lookup number = some extension.lifts
  within : spent ≤ granted.maxRunRequests + unitsOf recorded
  bounded : granted.maxRunRequests + unitsOf recorded ≤ maxRunRequests
  distinct : (recorded.map (·.request.requestId)).Nodup

/-- Every record of a Run is still there. -/
structure Keeps (before after : Ledger) : Prop where
  runs : before.runs.Extends after.runs
  holds : before.holds.Extends after.holds
  extensions : before.extensions.Extends after.extensions

theorem Keeps.refl (ledger : Ledger) : Keeps ledger ledger := ⟨.refl _, .refl _, .refl _⟩

/-- A ledger with one more spent unit. -/
def Ledger.withReservation (ledger : Ledger) (number : Nat) (reservation : Reservation) : Ledger :=
  { ledger with runs := ledger.runs.insert number reservation }

/-- A ledger with one more hold. -/
def Ledger.withHold (ledger : Ledger) (number : Nat) (hold : ProviderHold) : Ledger :=
  { ledger with holds := ledger.holds.insert number hold }

/-- A ledger with one more extension. -/
def Ledger.withExtension (ledger : Ledger) (number : Nat) (extension : Extension) : Ledger :=
  { ledger with extensions := ledger.extensions.insert number extension }

@[simp] theorem Ledger.withReservation_runs (ledger : Ledger) (number : Nat) (r : Reservation) :
    (ledger.withReservation number r).runs = ledger.runs.insert number r := rfl

@[simp] theorem Ledger.withHold_holds (ledger : Ledger) (number : Nat) (hold : ProviderHold) :
    (ledger.withHold number hold).holds = ledger.holds.insert number hold := rfl

@[simp] theorem Ledger.withExtension_extensions (ledger : Ledger) (number : Nat)
    (extension : Extension) : (ledger.withExtension number extension).extensions =
      ledger.extensions.insert number extension := rfl

/-- A ledger on which no operation has run. -/
def Ledger.empty : Ledger := ⟨∅, ∅, ∅⟩

section

variable {runId : String} {gr : Permission} {le : Ledger} {sp nh : Nat} {rs : List Extension}

theorem balanced_empty (runId : String) (gr : Permission) : Balanced runId gr .empty 0 0 [] where
  runs := Numbered.upto_empty
  holds := Numbered.upto_empty
  extensions := Numbered.upto_empty
  alternate := .inl rfl
  first := fun _ h => by simp [empty] at h
  held := fun _ _ h => by simp [empty] at h
  complete := fun _ => by simp [empty]
  lifts := fun _ _ h => by simp at h
  within := Nat.zero_le _
  bounded := by simpa [unitsOf] using gr.bounded
  distinct := nodup_nil

/-- A count succeeds on the first numbers, as long as they are within the ceiling. -/
theorem count_eq_ok {α : Type} {f : Numbered α} {n : Nat} :
    count f = .ok n ↔ f.Upto n ∧ n ≤ maxRunRequests := by
  have ha : ∀ n, f.Upto n → ((f.keys.all (· < maxRunRequests)) = true ↔ n ≤ maxRunRequests) := by
    intro n hn
    simp only [all_eq_true, decide_eq_true_eq]
    constructor
    · intro h
      by_contra ht
      have := h maxRunRequests (AList.mem_keys.mp ((hn _).mpr (by omega)))
      omega
    · intro h number hu
      have := (hn number).mp (AList.mem_keys.mpr hu)
      omega
  unfold count
  split
  · next hb =>
    cases hc : contiguous f.keys with
    | none =>
      simp only [reduceCtorEq, false_iff, not_and]
      intro hn
      rw [Numbered.contiguous_eq_some.mpr hn] at hc
      simp at hc
    | some m =>
      have hm := Numbered.contiguous_eq_some.mp hc
      simp only [Except.ok.injEq]
      constructor
      · rintro rfl
        exact ⟨hm, (ha m hm).mp hb⟩
      · exact fun h => hm.unique h.1
  · next hb =>
    simp only [reduceCtorEq, false_iff, not_and]
    intro hn hl
    exact hb ((ha n hn).mpr hl)

theorem readHold_ok {number : Nat} {hold : Option ProviderHold}
    (h : readHold runId le number = .ok hold) : le.holds.lookup number = hold := by
  simp only [readHold, check_ok] at h
  exact Except.ok.inj h.2

namespace Balanced

theorem readHold (h : Balanced runId gr le sp nh rs) (number : Nat) :
    Budget.readHold runId le number = .ok (le.holds.lookup number) := by
  have ho : (le.holds.lookup number).all (·.runId == runId) = true := by
    cases hh : le.holds.lookup number with
    | none => rfl
    | some hold => simpa using h.held number hold hh
  simp [Budget.readHold, require, ho, pure, Except.pure, bind, Except.bind]

/-- While the directory can be counted the extensions read are those recorded. -/
theorem extensionsLocked (h : Balanced runId gr le sp nh rs) : Budget.extensionsLocked runId le =
      if rs.length ≤ maxRunRequests then .ok rs else .error .invalidGrant := by
  split
  · next he =>
    rw [Budget.extensionsLocked, count_eq_ok.mpr ⟨h.extensions, he⟩]
    simp only [ok_bind]
    rw [mapM_ok, forall₂_iff_get]
    refine ⟨by simp, ?_⟩
    intro number hm hr
    have hg : rs[number]? = some (rs.get ⟨number, hr⟩) := by simp [hr]
    obtain ⟨hu, hl⟩ := h.lifts number _ hg
    simp only [get_eq_getElem, getElem_range] at hg hu hl ⊢
    rw [readExtension, h.complete, hg]
    simp [h.readHold, hl, hu, require, pure, Except.pure, bind, Except.bind]
  · next ht =>
    have hc : count le.extensions = .error .invalidGrant := by
      cases hc : count le.extensions with
      | error error =>
        unfold count at hc
        split at hc
        · split at hc
          · exact hc.symm
          · simp at hc
        · exact hc.symm
      | ok n =>
        obtain ⟨hn, he⟩ := count_eq_ok.mp hc
        exact absurd (hn.unique h.extensions ▸ he) ht
    rw [Budget.extensionsLocked, hc]
    rfl

theorem extensionsLocked_ok (h : Balanced runId gr le sp nh rs)
    {e : List Extension} (hr : Budget.extensionsLocked runId le = .ok e) : e = rs := by
  rw [h.extensionsLocked] at hr
  split at hr
  · exact (Except.ok.inj hr).symm
  · simp at hr

/-- The hold that stands, if any. -/
theorem lookup_hold (h : Balanced runId gr le sp nh rs) :
    le.holds.lookup rs.length = none ↔ nh = rs.length := by
  rw [AList.lookup_eq_none, h.holds]
  have := h.alternate
  omega

/-- A ledger that keeps the records of an earlier one has at least as many, and the earlier
extensions come first. -/
theorem grows (h : Balanced runId gr le sp nh rs) {l : Ledger} {s' ho' : Nat} {r' : List Extension}
    (h' : Balanced runId gr l s' ho' r') (hk : Keeps le l) : sp ≤ s' ∧ rs <+: r' := by
  constructor
  · by_contra hl
    have hm := hk.runs.mem ((h.runs s').mpr (by omega))
    have := (h'.runs _).mp hm
    omega
  · rw [prefix_iff_getElem?]
    intro number hn
    have hg := (h.complete number).trans (List.getElem?_eq_getElem hn)
    exact (h'.complete number).symm.trans (hk.extensions number _ hg)

/-! ### New records -/

theorem spend (h : Balanced runId gr le sp nh rs) (hs : sp < gr.maxRunRequests + unitsOf rs)
    (si : String) (nowMs : UInt64) : Balanced runId gr (le.withReservation sp
        ⟨runId, si, sp, gr.maxRunRequests, nowMs⟩) (sp + 1) nh rs :=
  { h with
    runs := h.runs.create _
    first := by
      intro first hf
      by_cases hz : sp = 0
      · subst hz
        rw [withReservation_runs, AList.lookup_insert] at hf
        obtain rfl := Option.some.inj hf
        exact ⟨rfl, rfl⟩
      · rw [withReservation_runs, AList.lookup_insert_ne (Ne.symm hz)] at hf
        exact h.first first hf
    within := hs }

theorem hold (h : Balanced runId gr le sp nh rs) (hn : nh = rs.length) (r : HoldReason)
    (ha : UInt64) : Balanced runId gr (le.withHold rs.length ⟨runId, r, ha⟩) sp (nh + 1)
      rs :=
  { h with
    holds := hn ▸ h.holds.create _
    alternate := .inr (by rw [hn])
    held := by
      intro number hold hh
      by_cases hu : number = rs.length
      · subst hu
        rw [withHold_holds, AList.lookup_insert] at hh
        rw [← Option.some.inj hh]
      · rw [withHold_holds, AList.lookup_insert_ne hu] at hh
        exact h.held number hold hh
    lifts := by
      intro number extension hr
      have hl : number < rs.length := (List.getElem?_eq_some_iff.mp hr).1
      rw [withHold_holds, AList.lookup_insert_ne (by omega)]
      exact h.lifts number extension hr }

theorem unitsOf_append_singleton (rs : List Extension) (extension : Extension) :
    unitsOf (rs ++ [extension]) = unitsOf rs + extension.request.additionalRequests := by
  simp [unitsOf]

theorem extend (h : Balanced runId gr le sp nh rs) (extension : Extension)
    (hr : extension.runId = runId) (hl : le.holds.lookup rs.length = some extension.lifts)
    (hw : ∀ p ∈ rs, p.request.requestId ≠ extension.request.requestId)
    (hb : gr.maxRunRequests + unitsOf rs +
      extension.request.additionalRequests ≤ maxRunRequests) : Balanced runId gr
      (le.withExtension rs.length extension) sp nh (rs ++ [extension]) :=
  { h with
    extensions := by
      rw [length_append, length_singleton]
      exact h.extensions.create _
    alternate := by
      have hne : nh ≠ rs.length := fun he => by
        rw [h.lookup_hold.mpr he] at hl
        simp at hl
      have := h.alternate
      simp only [length_append, length_singleton]
      omega
    complete := by
      intro number
      by_cases hn : number = rs.length
      · subst hn
        simp
      · rw [withExtension_extensions, AList.lookup_insert_ne hn, h.complete]
        rcases Nat.lt_or_gt_of_ne hn with ht | hg
        · rw [List.getElem?_append_left ht]
        · rw [List.getElem?_eq_none (by omega), List.getElem?_eq_none (by simp; omega)]
    lifts := by
      intro number f hf
      by_cases hn : number < rs.length
      · rw [List.getElem?_append_left hn] at hf
        exact h.lifts number f hf
      · have ht := (List.getElem?_eq_some_iff.mp hf).1
        have heq : number = rs.length := by simp at ht; omega
        subst heq
        obtain rfl : extension = f := by simpa using hf
        exact ⟨hr, hl⟩
    within := by
      have := h.within
      rw [unitsOf_append_singleton]
      omega
    bounded := by
      rw [unitsOf_append_singleton]
      omega
    distinct := by
      rw [map_append, nodup_append]
      refine ⟨h.distinct, by simp, ?_⟩
      rintro id hi o ho rfl
      obtain ⟨p, hp, rfl⟩ := mem_map.mp hi
      simp only [map_cons, map_nil, mem_singleton] at ho
      exact hw p hp ho }

end Balanced

/-! ### Operations -/

/-- The records of a Run add up, for some numbers of them. -/
def Sound (runId : String) (granted : Permission) (ledger : Ledger) : Prop :=
  ∃ spent holdCount recorded, Balanced runId granted ledger spent holdCount recorded

/-- A sound ledger that keeps the records of an earlier one. -/
structure Follows (runId : String) (granted : Permission) (before after : Ledger) : Prop where
  keeps : Keeps before after
  sound : Sound runId granted after

theorem Sound.follows (h : Sound runId gr le) : Follows runId gr le le :=
  ⟨.refl le, h⟩

theorem wp_writeNewRecord {α : Type} {f : Ledger → Numbered α} {put : Ledger → Numbered α → Ledger}
    {number : Nat} {r : α} {p : Program.Post Ledger BrokerError Unit} (hw : number ∉ f le →
      p.value () (put le ((f le).insert number r)) ∧
      p.error .storage (put le ((f le).insert number r))) (hd : p.error .duplicateAuthorization le)
    (hs : p.error .storage le) (hc : p.crashed le) : Wp (writeNewRecord f put number r) p le := by
  unfold writeNewRecord
  apply wp_bind
  refine wp_query ?_ ?_ hs hc
  · intro _ hf
    split at hf
    · simp at hf
    · next hn =>
      obtain ⟨hv, hu⟩ := hw hn
      exact wp_write hv hs hu hc
  · intro error he
    split at he
    · exact Except.error.inj he ▸ hd
    · simp at he

/-- What is read of the extensions. -/
theorem reads_readExtensions (h : Balanced runId gr le sp nh rs) :
    Reads (readExtensions runId) le (rs = ·) :=
  reads_query fun _ hr => (h.extensionsLocked_ok hr).symm

theorem reads_heldLocked (h : Balanced runId gr le sp nh rs) :
    Reads (heldLocked runId) le (le.holds.lookup rs.length = ·) := by
  refine (reads_readExtensions h).bind ?_
  rintro _ rfl
  exact reads_query fun _ hh => readHold_ok hh

/-- A ledger on which one more unit was spent, as the extended grant allows. -/
def Spends (runId : String) (granted : Permission) (ledger : Ledger) (spent : Nat)
    (recorded : List Extension) (sessionId : String) (nowMs : UInt64) (after : Ledger) : Prop :=
  spent < granted.maxRunRequests + unitsOf recorded ∧ after = ledger.withReservation spent
      ⟨runId, sessionId, spent, granted.maxRunRequests, nowMs⟩

theorem total_ok {e : List Extension} {l : Nat} (h : total gr.maxRunRequests e = .ok l) :
    l = gr.maxRunRequests + unitsOf e := by
  unfold total at h
  dsimp only at h
  split at h
  · exact (Except.ok.inj h).symm
  · simp at h

/-- A unit is spent under the next number, as long as one is left. -/
theorem wp_reserve (h : Balanced runId gr le sp nh rs) (si : String)
    (nowMs : UInt64) : Wp (reserve runId si gr.maxRunRequests nowMs)
      ⟨fun number l => number = sp ∧ Spends runId gr le sp rs si nowMs l,
        fun _ l => l = le ∨ Spends runId gr le sp rs si nowMs l,
        fun l => l = le ∨ Spends runId gr le sp rs si nowMs l⟩ le := by
  unfold reserve
  apply wp_bind
  refine wp_ofExcept (fun _ _ => ?_) (fun _ _ => .inl rfl)
  apply wp_bind
  refine wp_probe ?_ (.inl rfl) (.inl rfl)
  refine (reads_readExtensions h).wp_bind ?_ (fun _ => .inl rfl) (.inl rfl)
  rintro _ rfl
  apply wp_bind
  refine wp_ofExcept ?_ (fun _ _ => .inl rfl)
  intro li hl
  apply wp_bind
  refine wp_query ?_ (fun _ _ => .inl rfl) (.inl rfl) (.inl rfl)
  intro c hc
  obtain rfl := (count_eq_ok.mp hc).1.unique h.runs
  apply wp_bind
  refine wp_query (fun _ _ => ?_) (fun _ _ => .inl rfl) (.inl rfl) (.inl rfl)
  apply wp_bind
  refine wp_ofExcept ?_ (fun _ _ => .inl rfl)
  intro _ ht
  simp only [require_ok, decide_eq_true_eq, total_ok hl] at ht
  apply wp_bind
  refine wp_writeNewRecord (fun _ => ?_) (.inl rfl) (.inl rfl) (.inl rfl)
  exact ⟨wp_pure.mpr ⟨rfl, ht, rfl⟩, .inr ⟨ht, rfl⟩⟩

theorem count_error {α : Type} {f : Numbered α} {e : BrokerError}
    (h : count f = .error e) : e = .invalidGrant := by
  unfold count at h
  split at h
  · split at h
    · exact (Except.error.inj h).symm
    · simp at h
  · exact (Except.error.inj h).symm

/-- The budget is reported exhausted only when every unit is spent. -/
theorem wp_reserve_exhausted (h : Balanced runId gr le sp nh rs)
    (si : String) (nowMs : UInt64) : Wp (reserve runId si gr.maxRunRequests nowMs)
      ⟨fun _ _ => True, fun e l => e = .providerBudgetExhausted →
        l = le ∧ sp = gr.maxRunRequests + unitsOf rs, fun _ => True⟩
      le := by
  unfold reserve
  apply wp_bind
  refine wp_ofExcept (fun _ _ => ?_) ?_
  · apply wp_bind
    refine wp_probe ?_ nofun trivial
    apply wp_bind
    refine wp_query ?_ ?_ nofun trivial
    · intro ex hr
      obtain rfl := h.extensionsLocked_ok hr
      apply wp_bind
      refine wp_ofExcept ?_ ?_
      · intro li hl
        apply wp_bind
        refine wp_query ?_ ?_ nofun trivial
        · intro c hc
          obtain rfl := (count_eq_ok.mp hc).1.unique h.runs
          apply wp_bind
          refine wp_query (fun _ _ => ?_) ?_ nofun trivial
          · apply wp_bind
            refine wp_ofExcept ?_ ?_
            · intro _ _
              apply wp_bind
              exact wp_writeNewRecord (fun _ => ⟨wp_pure.mpr trivial, nofun⟩) nofun nofun trivial
            · intro e he _
              have hw := h.within
              simp only [require, decide_eq_true_eq, total_ok hl] at he
              split at he
              · simp at he
              · exact ⟨rfl, by omega⟩
          · rintro _ he rfl
            split at he
            · unfold checkFirst require at he
              split at he
              · simp at he
              · split at he <;> simp at he
            · simp at he
        · rintro _ he rfl
          simpa using count_error he
      · rintro _ he rfl
        unfold total at he
        dsimp only at he
        split at he <;> simp at he
    · rintro _ he rfl
      rw [h.extensionsLocked] at he
      split at he <;> simp at he
  · rintro _ he rfl
    unfold require at he
    split at he <;> simp at he

variable {nowMs : UInt64}

theorem Spends.follows (h : Balanced runId gr le sp nh rs) {si : String}
    {l : Ledger} (hs : Spends runId gr le sp rs si nowMs l) :
    Follows runId gr le l ∧ sp ∈ l.runs ∧ l.holds = le.holds := by
  obtain ⟨hl, rfl⟩ := hs
  have hn : sp ∉ le.runs := by
    rw [h.runs]
    omega
  refine ⟨⟨⟨Numbered.extends_insert hn _, .refl _, .refl _⟩, _, _, _, h.spend hl si nowMs⟩, ?_, rfl⟩
  simp

/-- A ledger on which a hold was written, under the number of extensions so far. -/
def Stops (runId : String) (ledger : Ledger) (holdCount : Nat) (recorded : List Extension)
    (reason : HoldReason) (nowMs : UInt64) (after : Ledger) : Prop :=
  holdCount = recorded.length ∧ after = ledger.withHold recorded.length ⟨runId, reason, nowMs⟩

/-- A hold is written once. -/
theorem wp_hold (h : Balanced runId gr le sp nh rs) (r : HoldReason)
    (nowMs : UInt64) : Wp (Budget.hold runId r nowMs)
      ⟨fun _ l => l = le ∨ Stops runId le nh rs r nowMs l,
        fun _ l => l = le ∨ Stops runId le nh rs r nowMs l,
        fun l => l = le ∨ Stops runId le nh rs r nowMs l⟩
      le := by
  unfold Budget.hold
  refine (reads_readExtensions h).wp_bind ?_ (fun _ => .inl rfl) (.inl rfl)
  rintro _ rfl
  apply wp_bind
  refine wp_query ?_ (fun _ _ => .inl rfl) (.inl rfl) (.inl rfl)
  intro e he
  replace he := readHold_ok he
  dsimp only
  split
  · apply wp_bind
    refine wp_probe ?_ (.inl rfl) (.inl rfl)
    apply wp_bind
    exact wp_probe (wp_pure.mpr (.inl rfl)) (.inl rfl) (.inl rfl)
  · apply wp_bind
    refine wp_probe ?_ (.inl rfl) (.inl rfl)
    apply wp_bind
    have hn := h.lookup_hold.mp he
    exact wp_writeNewRecord (fun _ => ⟨wp_pure.mpr (.inr ⟨hn, rfl⟩), .inr ⟨hn, rfl⟩⟩) (.inl rfl)
      (.inl rfl) (.inl rfl)

theorem Stops.follows (h : Balanced runId gr le sp nh rs) {r : HoldReason}
    {l : Ledger} (hs : Stops runId le nh rs r nowMs l) :
    Follows runId gr le l := by
  obtain ⟨hn, rfl⟩ := hs
  have hu := AList.lookup_eq_none.mp (h.lookup_hold.mpr hn)
  exact ⟨⟨.refl _, Numbered.extends_insert hu _, .refl _⟩, _, _, _, h.hold hn r nowMs⟩

variable {req : ExtensionRequest}

/-- The operator policy keeps the total within the ceiling. -/
theorem extensionCheck_bounded {ge lae : UInt64} {hold : ProviderHold} {p : List Extension}
    {sp : Nat} (h : extensionCheck gr ge lae req nowMs hold p sp = .ok ()) :
    gr.maxRunRequests + unitsOf p + req.additionalRequests ≤ maxRunRequests := by
  unfold extensionCheck at h
  obtain ⟨t, ht, h⟩ := bind_ok.mp h
  dsimp only at h
  obtain ⟨hl, -⟩ := check_ok.mp h
  simp only [require_ok, decide_eq_true_eq] at hl
  unfold total at ht
  dsimp only at ht
  split at ht
  · have := Except.ok.inj ht
    simp only [unitsOf]
    omega
  · simp [Except.mapError] at ht

/-- An extension lifts the hold that stands. -/
theorem wp_extend (h : Balanced runId gr le sp nh rs) (req : ExtensionRequest) (ou : UInt32)
    (nowMs ge lae : UInt64) : Wp (extend runId req ou nowMs (extensionCheck gr ge lae req nowMs))
      ⟨fun _ l => Follows runId gr le l ∧ l.holds = le.holds,
        fun _ l => Follows runId gr le l ∧ l.holds = le.holds,
        fun l => Follows runId gr le l ∧ l.holds = le.holds⟩
      le := by
  have hs : Follows runId gr le le ∧ le.holds = le.holds :=
    ⟨Sound.follows ⟨_, _, _, h⟩, rfl⟩
  unfold extend
  refine (reads_readExtensions h).wp_bind ?_ (fun _ => hs) hs
  rintro _ rfl
  split
  · apply wp_bind
    exact wp_ofExcept (fun _ _ => wp_pure.mpr hs) (fun _ _ => hs)
  next hf =>
  refine (reads_heldLocked h).wp_bind ?_ (fun _ => hs) hs
  intro f ho
  split
  · exact wp_fail.mpr hs
  next hold =>
  apply wp_bind
  refine wp_query (fun _ _ => ?_) (fun _ _ => hs) hs hs
  apply wp_bind
  refine wp_ofExcept ?_ (fun _ _ => hs)
  intro _ hc
  apply wp_bind
  refine wp_probe ?_ hs hs
  apply wp_bind
  refine wp_writeNewRecord ?_ hs hs hs
  intro hn
  have hb : gr.maxRunRequests + unitsOf rs + req.additionalRequests ≤
      maxRunRequests := extensionCheck_bounded (mapError_ok.mp hc)
  have he : Follows runId gr le (le.withExtension rs.length ⟨runId, req, ou, nowMs, hold⟩) := by
    refine ⟨⟨.refl _, .refl _, Numbered.extends_insert hn _⟩, _, _, _, h.extend _ rfl ho ?_ hb⟩
    intro p hp
    simpa using List.find?_eq_none.mp hf p hp
  exact ⟨wp_pure.mpr ⟨he, rfl⟩, he, rfl⟩

/-- A child is authorized only while no hold stands: otherwise nothing depends on it. -/
theorem withUnheld_held {α : Type} (h : Balanced runId gr le sp nh rs) (hh : rs.length ∈ le.holds)
    (au o : Action α) (fs : List Fault) : withUnheld runId au fs le = withUnheld runId o fs le ∧
      ∀ a, (withUnheld runId au fs le).1 ≠ .value a := by
  have hr := reads_heldLocked h fs
  change Program.bind (heldLocked runId) _ fs le = Program.bind (heldLocked runId) _ fs le ∧
    ∀ a, (Program.bind (heldLocked runId) _ fs le).1 ≠ .value a
  unfold Program.bind
  cases he : heldLocked runId fs le with
  | mk e xs =>
    rw [he] at hr
    cases e with
    | value f =>
      obtain ⟨-, hf⟩ := hr
      obtain ⟨hold, ho⟩ := Option.isSome_iff_exists.mp (AList.lookup_isSome.mpr hh)
      obtain rfl : some hold = f := ho.symm.trans hf
      exact ⟨rfl, fun _ h => nomatch h⟩
    | error error => exact ⟨rfl, fun _ h => nomatch h⟩
    | crashed => exact ⟨rfl, fun _ h => nomatch h⟩

theorem wp_withUnheld {α : Type} (h : Balanced runId gr le sp nh rs)
    (a : Except BrokerError α) : Wp (withUnheld runId (ofExcept a))
      (.ends (Follows runId gr le)) le := by
  have hs : Follows runId gr le le := Sound.follows ⟨_, _, _, h⟩
  refine (reads_heldLocked h).wp_bind ?_ (fun _ => hs) hs
  intro f _
  split
  · exact wp_fail.mpr hs
  · exact wp_ofExcept (fun _ _ => hs) (fun _ _ => hs)

/-! ### Retried extensions -/

variable {extension : Extension}

theorem Balanced.find_request (h : Balanced runId gr le sp nh rs) (hm : extension ∈ rs) :
    rs.find? (·.request.requestId == extension.request.requestId) = some extension := by
  have hs : (rs.find? (·.request.requestId == extension.request.requestId)).isSome :=
    List.find?_isSome.mpr ⟨extension, hm, beq_self_eq_true _⟩
  obtain ⟨f, hf⟩ := Option.isSome_iff_exists.mp hs
  have ha := List.find?_some hf
  have heq : f = extension := inj_on_of_nodup_map h.distinct
    (mem_of_find?_eq_some hf) hm (by simpa using ha)
  rw [hf, heq]

/-- What an extension whose identity is recorded is answered, when nothing fails: the recorded
one or a conflict, as long as the extensions can be counted. -/
theorem extend_retry (h : Balanced runId gr le sp nh rs) (hm : extension ∈ rs)
    (hi : req.requestId = extension.request.requestId) (ou : UInt32) (nowMs : UInt64)
    (c : ProviderHold → List Extension → Nat → Except ExtensionError Unit) :
    extend runId req ou nowMs c [] le = (if rs.length ≤ maxRunRequests then
        if extension.request = req ∧ extension.operatorUid = ou then .value extension
        else .error (.providerExtension .conflict)
      else .error .invalidGrant, [], le) := by
  have he := h.extensionsLocked
  change Program.bind (readExtensions runId) _ [] le = _
  rw [Program.bind, readExtensions, query, Program.nextFault]
  dsimp only
  rw [he]
  by_cases hl : rs.length ≤ maxRunRequests
  · simp only [hl, if_true, hi, h.find_request hm]
    by_cases hf : extension.request = req ∧ extension.operatorUid = ou
    · have hr : require (extension.request == req && extension.operatorUid == ou)
          (BrokerError.providerExtension .conflict) = .ok () := by simp [hf]
      rw [if_pos hf, hr]
      rfl
    · have hr : require (extension.request == req &&
          extension.operatorUid == ou) (BrokerError.providerExtension .conflict) =
            .error (.providerExtension .conflict) := by simpa [require] using hf
      rw [if_neg hf, hr]
      rfl
  · simp only [hl, if_false]

/-- Whatever befalls it, a retried extension changes nothing and can only be answered with
the recorded one, and only to the same request. -/
theorem wp_extend_retry (h : Balanced runId gr le sp nh rs) (hm : extension ∈ rs)
    (hi : req.requestId = extension.request.requestId) (ou : UInt32) (nowMs : UInt64)
    (c : ProviderHold → List Extension → Nat → Except ExtensionError Unit) :
    Reads (extend runId req ou nowMs c) le fun a =>
      a = extension ∧ extension.request = req ∧ extension.operatorUid = ou := by
  unfold extend
  refine (reads_readExtensions h).bind ?_
  rintro _ rfl
  rw [hi, h.find_request hm]
  refine (reads_ofExcept fun _ h => h).bind fun _ hf => ?_
  simp only [require_ok, Bool.and_eq_true, beq_iff_eq] at hf
  exact reads_pure ⟨rfl, hf⟩

end

/-! ### Runs -/

/-- One operation on a Run's ledger, by any of its Sessions or its operator. -/
inductive Call where
  | reserve (sessionId : String) (nowMs : UInt64)
  | hold (reason : HoldReason) (nowMs : UInt64)
  | extend (request : ExtensionRequest) (operatorUid : UInt32)
    (nowMs grantedExpiry launchExpiry : UInt64)
  | withUnheld (authorize : Except BrokerError Unit)

section

variable (runId : String) (granted : Permission)

/-- What one operation leaves, with the faults that befall it. -/
def step (ledger : Ledger) (event : Call × List Fault) : Ledger :=
  match event with
  | (.reserve sessionId nowMs, faults) =>
    (reserve runId sessionId granted.maxRunRequests nowMs).leaves faults ledger
  | (.hold reason nowMs, faults) => (hold runId reason nowMs).leaves faults ledger
  | (.extend request operatorUid nowMs grantedExpiry launchExpiry, faults) =>
    (extend runId request operatorUid nowMs
      (extensionCheck granted grantedExpiry launchExpiry request nowMs)).leaves faults ledger
  | (.withUnheld authorize, faults) =>
    (withUnheld runId (Program.ofExcept authorize)).leaves faults ledger

/-- The ledger after some operations. -/
def reached (calls : List (Call × List Fault)) : Ledger := calls.foldl (step runId granted) .empty

variable {runId granted} {ledger : Ledger}

theorem step_follows (h : Sound runId granted ledger) (e : Call × List Fault) :
    Follows runId granted ledger (step runId granted ledger e) := by
  have ha : Follows runId granted ledger ledger := h.follows
  obtain ⟨spent, holdCount, recorded, h⟩ := h
  obtain ⟨c, fs⟩ := e
  cases c with
  | reserve si nowMs =>
    have hp : ∀ l, l = ledger ∨ Spends runId granted ledger spent recorded si nowMs l →
        Follows runId granted ledger l := by
      rintro l (rfl | hs)
      · exact ha
      · exact (hs.follows h).1
    exact ((wp_reserve h si nowMs).mono (fun _ s hs => hp s (.inr hs.2)) (fun _ => hp) hp).leaves fs
  | hold r nowMs =>
    have ht : ∀ l, l = ledger ∨ Stops runId ledger holdCount recorded r nowMs l →
        Follows runId granted ledger l := by
      rintro l (rfl | hs)
      · exact ha
      · exact hs.follows h
    exact ht _ ((wp_hold h r nowMs).leaves fs)
  | extend re ou nowMs ge lae =>
    exact ((wp_extend h re ou nowMs ge lae).leaves fs).1
  | withUnheld a => exact (wp_withUnheld h a).leaves fs

theorem always_sound (h : Sound runId granted ledger) (c : List (Call × List Fault)) :
    Always (step runId granted) (Sound runId granted) ledger c :=
  always_of_throughout (fun _ e hs _ => (step_follows hs e).sound) h
    (throughout_of_forall (fun _ _ => trivial) _ _)

/-- A spent unit stays spent. -/
theorem always_spent (h : Sound runId granted ledger) {number : Nat} (hp : number ∈ ledger.runs)
    (c : List (Call × List Fault)) :
    Always (step runId granted) (fun s => Sound runId granted s ∧ number ∈ s.runs) ledger c :=
  always_of_throughout (fun _ e hs _ =>
      ⟨(step_follows hs.1 e).sound, (step_follows hs.1 e).keeps.runs.mem hs.2⟩)
    ⟨h, hp⟩ (throughout_of_forall (fun _ _ => trivial) _ _)

variable (runId granted) in
/-- The Provider budget ledger after any operations, whatever befell them. The records add
up: the spent units are the first ones, within the grant and its extensions and so within the
ceiling, and holds and extensions alternate, each extension lifting the hold of its number.
No operation changes or removes a record, a unit is never spent twice, and nothing is
authorized while a hold stands. A repeated extension can only be answered with the recorded
one, and is refused as a conflict when a field differs; it is answered exactly as long as no
more extensions are recorded than can be counted. -/
theorem budget_ledger (calls : List (Call × List Fault)) :
    let ledger := reached runId granted calls
    ∃ spent holdCount recorded, Balanced runId granted ledger spent holdCount recorded ∧
      (∀ e, Keeps ledger (step runId granted ledger e)) ∧
      (∀ si nowMs fs number (b : List (Call × List Fault)) oi om otf o,
        (reserve runId si granted.maxRunRequests nowMs fs ledger).1 = .value number →
        (reserve runId oi granted.maxRunRequests om otf (b.foldl (step runId granted)
            (step runId granted ledger (.reserve si nowMs, fs)))).1 = .value o →
        number = spent ∧ o ≠ number) ∧
      (recorded.length ∈ ledger.holds → ∀ (au o : Action Unit) (fs : List Fault),
        withUnheld runId au fs ledger = withUnheld runId o fs ledger ∧
          ∀ a, (withUnheld runId au fs ledger).1 ≠ .value a) ∧
      (∀ extension ∈ recorded, ∀ r ou nowMs c, r.requestId = extension.request.requestId →
        (∀ fs an, (extend runId r ou nowMs c fs ledger).1 = .value an →
          an = extension ∧ extension.request = r ∧ extension.operatorUid = ou) ∧
        ((extend runId r ou nowMs c [] ledger).1 =
            (if extension.request = r ∧ extension.operatorUid = ou then
              .value extension
            else .error (.providerExtension .conflict)) ↔
          recorded.length ≤ maxRunRequests)) := by
  intro ledger
  have hso : Sound runId granted ledger :=
    (always_sound ⟨_, _, _, balanced_empty runId granted⟩ calls).last
  obtain ⟨spent, holdCount, recorded, h⟩ := hso
  refine ⟨spent, holdCount, recorded, h, ?_, ?_, ?_, ?_⟩
  · exact fun e => (step_follows ⟨_, _, _, h⟩ e).keeps
  · intro si nowMs fs number b oi om otf o hfi ho
    obtain ⟨rfl, hs⟩ := (wp_reserve h si nowMs).value_of hfi
    obtain ⟨hf, hp, -⟩ := hs.follows h
    obtain ⟨⟨_, _, _, hl⟩, hm⟩ := (always_spent hf.sound hp b).last
    obtain ⟨rfl, -⟩ := (wp_reserve hl oi om).value_of ho
    have ht := (hl.runs _).mp hm
    exact ⟨rfl, by omega⟩
  · exact fun hh au o fs => withUnheld_held h hh au o fs
  · intro extension hm r ou nowMs c hi
    refine ⟨?_, ?_⟩
    · intro fs an ha
      exact ((wp_extend_retry h hm hi ou nowMs c).value_of ha).2
    · rw [extend_retry h hm hi]
      constructor
      · intro ha
        by_contra he
        rw [if_neg he] at ha
        split at ha <;> simp at ha
      · intro he
        rw [if_pos he]

end

/-! ### Extensions beyond what can be counted -/

section

variable {ri : String} {granted : Permission} {ledger : Ledger} {spent hoc : Nat}
  {recorded : List Extension} {number : Nat}

theorem returns_writeNewRecord {α : Type} {f : Ledger → Numbered α}
    {put : Ledger → Numbered α → Ledger} (r : α) (hf : number ∉ f ledger) :
    Returns (writeNewRecord f put number r) ledger () (put ledger ((f ledger).insert number r)) :=
  returns_bind (b := ()) (returns_query _ _ (if_neg hf)) (returns_write ..)

/-- A hold that nothing interrupts. -/
theorem returns_hold (h : Balanced ri granted ledger spent hoc recorded)
    (hn : hoc = recorded.length) (hl : recorded.length ≤ maxRunRequests) (r : HoldReason)
    (nowMs : UInt64) : Returns (hold ri r nowMs) ledger ⟨ri, r, nowMs⟩
      (ledger.withHold recorded.length ⟨ri, r, nowMs⟩) := by
  have hr : extensionsLocked ri ledger = .ok recorded := by
    rw [h.extensionsLocked, if_pos hl]
  have ho : readHold ri ledger recorded.length = .ok none := by
    rw [h.readHold, h.lookup_hold.mpr hn]
  have hf : recorded.length ∉ ledger.holds := AList.lookup_eq_none.mp (h.lookup_hold.mpr hn)
  unfold hold
  refine returns_bind (returns_query _ _ hr) ?_
  refine returns_bind (returns_query _ _ ho) ?_
  refine returns_bind (returns_probe ..) ?_
  exact returns_bind (returns_writeNewRecord _ hf) (returns_pure ..)

/-- An extension that nothing interrupts. -/
theorem returns_extend (h : Balanced ri granted ledger spent hoc recorded) {hold : ProviderHold}
    (hh : ledger.holds.lookup recorded.length = some hold) (hl : recorded.length ≤ maxRunRequests)
    {r : ExtensionRequest} (hn : ∀ p ∈ recorded, p.request.requestId ≠ r.requestId) (ou : UInt32)
    (nowMs : UInt64) {c : ProviderHold → List Extension → Nat → Except ExtensionError Unit}
    (hc : c hold recorded spent = .ok ()) (hs : spent ≤ maxRunRequests) :
    Returns (extend ri r ou nowMs c) ledger ⟨ri, r, ou, nowMs, hold⟩
      (ledger.withExtension recorded.length ⟨ri, r, ou, nowMs, hold⟩) := by
  have hr : extensionsLocked ri ledger = .ok recorded := by
    rw [h.extensionsLocked, if_pos hl]
  have hf : recorded.find? (·.request.requestId == r.requestId) = none := by
    rw [List.find?_eq_none]
    intro p hp
    simpa using hn p hp
  have he : readHold ri ledger recorded.length = .ok (some hold) := by
    rw [h.readHold, hh]
  have hfr : recorded.length ∉ ledger.extensions := by
    rw [h.extensions]
    omega
  unfold extend
  refine returns_bind (returns_query _ _ hr) ?_
  rw [hf]
  refine returns_bind (returns_bind (returns_query _ _ hr) (returns_query _ _ he)) ?_
  refine returns_bind (returns_query _ _ (count_eq_ok.mpr ⟨h.runs, hs⟩)) ?_
  refine returns_bind (returns_ofExcept (by rw [hc]; rfl) _) ?_
  refine returns_bind (returns_probe ..) ?_
  exact returns_bind (returns_writeNewRecord _ hfr) (returns_pure ..)

/-- A Run of one request. -/
def cycleGrant : Permission := ⟨1, le_rfl, by decide⟩

/-- An extension that only moves the expiry. -/
def cycleRequest (number : Nat) : ExtensionRequest :=
  ⟨String.ofList (List.replicate (number + 1) 'a'), 0, some (UInt64.ofNat (number + 2))⟩

/-- The expiry passes, the Run is held, and the operator moves the expiry one later. -/
def cycle (number : Nat) : List (Call × List Fault) :=
  [(.hold .expired (UInt64.ofNat (number + 1)), []),
    (.extend (cycleRequest number) 1000 (UInt64.ofNat (number + 1)) 1 20000, [])]

def cycles (number : Nat) : List (Call × List Fault) :=
  (List.range number).flatMap cycle

private theorem cycleRequest_inj {n m : Nat}
    (h : (cycleRequest n).requestId = (cycleRequest m).requestId) : n = m := by
  have hl := congrArg (fun t => t.toList.length) h
  simpa [cycleRequest] using hl

/-- After some cycles each has left its hold and its extension. -/
private structure Cycled (number : Nat) (ledger : Ledger) : Prop where
  balanced : ∃ recorded, Balanced "run" cycleGrant ledger 0 number recorded ∧
    recorded.map (·.request) = (List.range number).map cycleRequest

private theorem cycle_cycled (hle : number ≤ maxRunRequests) (h : Cycled number ledger) :
    Cycled (number + 1) ((cycle number).foldl (step "run" cycleGrant) ledger) := by
  obtain ⟨recorded, h, hq⟩ := h.balanced
  have hn : recorded.length = number := by simpa using congrArg List.length hq
  have hho := returns_hold h hn.symm (by omega) .expired (UInt64.ofNat (number + 1))
  have hh := h.hold hn.symm .expired (UInt64.ofNat (number + 1))
  have hmax : maxRunRequests = 10000 := rfl
  have hnow : (UInt64.ofNat (number + 1)).toNat = number + 1 := by
    rw [UInt64.toNat_ofNat']
    omega
  have hx : (UInt64.ofNat (number + 2)).toNat = number + 2 := by
    rw [UInt64.toNat_ofNat']
    omega
  have hc : extensionCheck cycleGrant 1 20000 (cycleRequest number)
      (UInt64.ofNat (number + 1)) ⟨"run", .expired, UInt64.ofNat (number + 1)⟩ recorded 0 =
        .ok () := by
    have hb := h.bounded
    have ht : total cycleGrant.maxRunRequests recorded =
        .ok (cycleGrant.maxRunRequests + unitsOf recorded) := if_pos hb
    have ho : 0 < cycleGrant.maxRunRequests + unitsOf recorded := by
      have := cycleGrant.positive
      omega
    have ha : UInt64.ofNat (number + 1) < UInt64.ofNat (number + 2) := by
      rw [UInt64.lt_iff_toNat_lt]
      omega
    have hl : UInt64.ofNat (number + 2) ≤ 20000 := by
      rw [UInt64.le_iff_toNat_le, hx]
      change number + 2 ≤ 20000
      omega
    unfold extensionCheck
    rw [ht]
    simp [-UInt64.ofNat_add, Except.mapError, cycleRequest, require, hb, ho, ha,
      hl, bind, Except.bind]
  have hw : ∀ p ∈ recorded, p.request.requestId ≠ (cycleRequest number).requestId := by
    intro p hp heq
    have hm := mem_map_of_mem (f := (·.request)) hp
    rw [hq] at hm
    obtain ⟨i, hi, hr⟩ := mem_map.mp hm
    rw [mem_range] at hi
    have := cycleRequest_inj ((congrArg (·.requestId) hr).trans heq)
    omega
  have hext := returns_extend hh (AList.lookup_insert _) (by omega) hw 1000
    (UInt64.ofNat (number + 1)) hc (Nat.zero_le _)
  have he := hh.extend ⟨"run", cycleRequest number, 1000,
    UInt64.ofNat (number + 1), ⟨"run", .expired, UInt64.ofNat (number + 1)⟩⟩ rfl
    (AList.lookup_insert _) hw h.bounded
  change Cycled (number + 1) ((extend "run" (cycleRequest number) 1000 (UInt64.ofNat (number + 1))
      (extensionCheck cycleGrant 1 20000 (cycleRequest number)
          (UInt64.ofNat (number + 1)))).leaves []
      ((Budget.hold "run" .expired (UInt64.ofNat (number + 1))).leaves [] ledger))
  rw [hho.leaves, hext.leaves]
  refine ⟨recorded ++ [_], he, ?_⟩
  rw [map_append, hq, range_succ, map_append]
  rfl

private theorem cycles_cycled (hl : number ≤ maxRunRequests + 1) :
    Cycled number (reached "run" cycleGrant (cycles number)) := by
  induction number with
  | zero => exact ⟨[], balanced_empty "run" cycleGrant, rfl⟩
  | succ number ih =>
    have hr : reached "run" cycleGrant (cycles (number + 1)) =
        (cycle number).foldl (step "run" cycleGrant)
          (reached "run" cycleGrant (cycles number)) := by
      simp [reached, cycles, range_succ, flatMap_append, foldl_append]
    rw [hr]
    exact cycle_cycled (by omega) (ih (by omega))

/-- One extension too many: the first of 10001 recorded extensions, repeated with the same
fields, is refused as an invalid grant instead of being answered. -/
theorem extend_retry_refused :
    let ledger := reached "run" cycleGrant (cycles 10001)
    ∃ extension, ledger.extensions.lookup 0 = some extension ∧
      (extend "run" extension.request extension.operatorUid 20000
        (extensionCheck cycleGrant 1 20000 extension.request 20000) [] ledger).1 =
          .error .invalidGrant := by
  intro ledger
  have hc : Cycled 10001 ledger := cycles_cycled (by decide)
  obtain ⟨recorded, h, hr⟩ := hc.balanced
  have hl : recorded.length = 10001 := by simpa using congrArg List.length hr
  have hp : 0 < recorded.length := by omega
  have hg : recorded[0]? = some recorded[0] := List.getElem?_eq_getElem hp
  refine ⟨recorded[0], (h.complete 0).trans hg, ?_⟩
  have ht : ¬ recorded.length ≤ maxRunRequests := by
    rw [hl]
    decide
  rw [extend_retry h (getElem_mem _) rfl, if_neg ht]

end
end Louiselm.Provider.Budget
