import Louiselm.Pairing.Delivery

/-!
# Push delivery over whole runs

What registrations, revocations and attempts did, newest first, and what the registry keeps
of it: an attempt is made for a paired and enabled device only, for a generation it was not
sent, and no earlier than the attempts before it allow.
-/

namespace Louiselm.Pairing
open Base Canonical List
open Base.Program NotificationRegistration RegistryState Progress Operation

/-! ### The record of a run -/

/-- What happened to a device: a submission with its outcome, and whether the registry kept
that; a registration that started anew; or a revocation that returned. -/
inductive Entry where
  | attempted (deviceId fid : String) (generation nowMs : UInt64)
      (outcome : Except NotificationFailure Unit) (kept : Bool)
  | registered (deviceId : String)
  | revoked (deviceId : String)
deriving DecidableEq

/-- The registry, the ids of its devices so far, and what happened to them, newest first. -/
structure Service where
  world : World
  drawn : List String
  log : List Entry

/-- Whether a program ended with a value. -/
def endedWell {α : Type} : Ending PairingError α → Bool
  | .value _ => true
  | _ => false

/-- The device ids that an operation draws. -/
def Operation.draws : Operation → List String
  | .consume _ _ _ deviceId _ => [deviceId]
  | _ => []

/-- Whether the registry has the outcome of a submission to a device. -/
def keepsOutcome (deviceId : String) (nowMs generation : UInt64)
    (outcome : Except NotificationFailure Unit) (before after : RegistryState) : Bool :=
  (before.registrationOf deviceId).any fun registration =>
    after.registrationOf deviceId ==
      some ((registration.attempted nowMs).settled nowMs generation outcome)

/-- What an operation did, from the registry before and after it. -/
def entries (sha256 : Sha256) (operation : Operation) (before after : World) (returned : Bool) :
    List Entry :=
  match operation with
  | .attempt deviceId nowMs _ send =>
    (after.sent.drop before.sent.length).map fun submission =>
      let outcome := send submission.fid submission.generation
      .attempted deviceId submission.fid submission.generation nowMs outcome
        (keepsOutcome deviceId nowMs submission.generation outcome before.file after.file)
  | .register credential _ =>
    if after.file = before.file then []
    else ((registrant sha256 credential before.file).map .registered).toList
  | .revoke deviceId => if returned then [.revoked deviceId] else []
  | _ => []

/-- One operation, with what befalls it. -/
def Service.step (parseUrl : String → Option ReceiverUrl) (sha256 : Sha256) (service : Service)
    (call : Call) : Service :=
  let result := perform parseUrl sha256 call.operation call.faults service.world
  ⟨result.2.2, service.drawn ++ call.operation.draws,
    entries sha256 call.operation service.world result.2.2 (endedWell result.1) ++ service.log⟩

/-- A registry file to start from. -/
def Service.start (file : RegistryState) : Service := ⟨⟨file, []⟩, file.ids, []⟩

/-- No device id is drawn twice. -/
def FreshIds (service : Service) (call : Call) : Prop :=
  ∀ deviceId ∈ call.operation.draws, deviceId ∉ service.drawn

/-! ### How attempts are spaced -/

/-- The delay after so many unsuccessful attempts: a minute, doubled up to six times. -/
def delayMs (attempts : Nat) : Nat := 60000 * 2 ^ min (attempts - 1) 6

/-- A time and a delay, as far as the clock goes. -/
def saturated (nowMs delay : Nat) : Nat := min (nowMs + delay) (2 ^ 64 - 1)

/-- The delay that the provider asked for. -/
def NotificationFailure.minimumMs : NotificationFailure → Nat
  | .transient retryAfterMs => retryAfterMs.toNat
  | _ => 0

/-- The unsuccessful attempts of a device since it was last served or registered. -/
def streak (deviceId : String) : List Entry → Nat
  | [] => 0
  | .attempted other _ _ _ outcome _ :: older =>
    if other = deviceId then
      match outcome with
      | .ok _ => 0
      | .error _ => streak deviceId older + 1
    else streak deviceId older
  | .registered other :: older => if other = deviceId then 0 else streak deviceId older
  | .revoked _ :: older => streak deviceId older

/-- When a device may be attempted again: after an unsuccessful attempt, the delay of its
streak later, and the provider's minimum later if the outcome of that attempt was kept. -/
def notBefore (deviceId : String) : List Entry → Nat
  | [] => 0
  | .attempted other _ _ nowMs outcome kept :: older =>
    if other = deviceId then
      match outcome with
      | .ok _ => 0
      | .error failure =>
        max (saturated nowMs.toNat (delayMs (streak deviceId older + 1)))
          (if kept then saturated nowMs.toNat failure.minimumMs else 0)
    else notBefore deviceId older
  | .registered other :: older => if other = deviceId then 0 else notBefore deviceId older
  | .revoked _ :: older => notBefore deviceId older

/-- No device is sent to after its revocation, nor before the attempts before it allow. -/
def Orderly : List Entry → Prop
  | [] => True
  | .attempted deviceId _ _ nowMs _ _ :: older =>
    .revoked deviceId ∉ older ∧ notBefore deviceId older ≤ nowMs.toNat ∧ Orderly older
  | .registered _ :: older => Orderly older
  | .revoked _ :: older => Orderly older

/-- The device whose next attempt an entry decides on. -/
def Entry.device : Entry → Option String
  | .attempted deviceId .. => some deviceId
  | .registered deviceId => some deviceId
  | .revoked _ => none

variable {deviceId : String}

theorem streak_of_ne {e : Entry} (h : e.device ≠ some deviceId) (o : List Entry) :
    streak deviceId (e :: o) = streak deviceId o := by
  cases e with
  | attempted x fid generation nowMs ou k =>
    cases ou <;> rw [streak, if_neg fun heq => h (congrArg some heq)]
  | registered x => rw [streak, if_neg fun heq => h (congrArg some heq)]
  | revoked x => rfl

theorem notBefore_of_ne {e : Entry} (h : e.device ≠ some deviceId) (o : List Entry) :
    notBefore deviceId (e :: o) = notBefore deviceId o := by
  cases e with
  | attempted x fid generation nowMs ou k =>
    cases ou <;> rw [notBefore, if_neg fun heq => h (congrArg some heq)]
  | registered x => rw [notBefore, if_neg fun heq => h (congrArg some heq)]
  | revoked x => rfl

/-- A longer streak has no shorter delay. -/
theorem delayMs_mono {few m : Nat} (h : min few 7 ≤ m) : delayMs few ≤ delayMs m := by
  unfold delayMs
  refine Nat.mul_le_mul_left _ (Nat.pow_le_pow_right (by omega) ?_)
  omega

theorem saturatingAdd_toNat (a b : UInt64) :
    (saturatingAdd a b).toNat = saturated a.toNat b.toNat := by
  unfold saturatingAdd saturated
  rw [UInt64.toNat_ofNat_of_lt']
  exact lt_of_le_of_lt (min_le_right _ _) (by decide)

theorem backoff_toNat (a : UInt32) : (backoff a).toNat = delayMs a.toNat := by
  have hp : 2 ^ min (a.toNat - 1) 6 ≤ 64 :=
    Nat.pow_le_pow_right (by omega) (min_le_right _ _)
  have hs : UInt64.size = 18446744073709551616 := rfl
  unfold backoff delayMs
  rw [UInt64.toNat_mul, UInt64.toNat_ofNat_of_lt' (by omega)]
  exact Nat.mod_eq_of_lt (by simp only [UInt64.reduceToNat]; omega)

/-! ### One attempt -/

section

variable {re : NotificationRegistration} {ms generation : UInt64}

variable (re ms) in
theorem attempted_attempts : (re.attempted ms).attempts.toNat =
    min (re.attempts.toNat + 1) (2 ^ 32 - 1) := by
  unfold attempted
  rw [UInt32.toNat_ofNat_of_lt']
  exact lt_of_le_of_lt (min_le_right _ _) (by decide)

theorem attempted_retryAtMs : (re.attempted ms).retryAtMs.toNat =
    saturated ms.toNat (delayMs (re.attempted ms).attempts.toNat) := by
  rw [← backoff_toNat, ← saturatingAdd_toNat]
  rfl

variable (re ms) in
theorem le_attempted_retryAtMs : ms.toNat ≤ (re.attempted ms).retryAtMs.toNat := by
  rw [attempted_retryAtMs]
  exact le_min (Nat.le_add_right _ _) (Nat.le_sub_one_of_lt ms.toNat_lt)

/-- An attempt and its outcome leave a registration valid, with its installation. -/
theorem attempted_valid (hn : ms ≠ 0) (h : re.valid = true) : (re.attempted ms).valid = true := by
  have ha : (re.attempted ms).attempts ≠ 0 := by
    intro heq
    have hc := attempted_attempts re ms
    rw [heq, UInt32.toNat_zero] at hc
    omega
  have hr : (re.attempted ms).retryAtMs ≠ 0 := by
    intro heq
    have hl := le_attempted_retryAtMs re ms
    rw [heq, UInt64.toNat_zero, Nat.le_zero] at hl
    exact hn (UInt64.toNat_inj.mp hl)
  simp only [valid, Bool.and_eq_true] at h ⊢
  exact ⟨h.1, by simp [ha, hr]⟩

end
private theorem toNat_max (a b : UInt64) : (max a b).toNat = max a.toNat b.toNat := by
  change (if a ≤ b then b else a).toNat = _
  split
  · next h => rw [max_eq_right (UInt64.le_iff_toNat_le.mp h)]
  · next h => rw [max_eq_left (Nat.le_of_not_le fun hl => h (UInt64.le_iff_toNat_le.mpr hl))]

variable {registration : NotificationRegistration} {generation : UInt64}

/-- Whatever the outcome of an attempt, the registration it leaves is valid. -/
theorem settled_valid {nowMs : UInt64} (hg : generation ≠ 0)
    (h : (registration.attempted nowMs).valid = true) (hn : nowMs ≠ 0)
    (o : Except NotificationFailure Unit) :
    ((registration.attempted nowMs).settled nowMs generation o).valid = true := by
  generalize ha : registration.attempted nowMs = attempted at h
  have he : nowMs.toNat ≤ attempted.retryAtMs.toNat := ha ▸ le_attempted_retryAtMs _ _
  simp only [valid, Bool.and_eq_true, Bool.or_eq_true, bne_iff_ne] at h ⊢
  obtain ⟨⟨⟨hf, hi⟩, hs⟩, ht⟩ := h
  rcases o with (ram | _ | _ | _) | _
  · refine ⟨⟨⟨hf, hi⟩, hs⟩, ?_⟩
    have hp : 0 < nowMs.toNat := Nat.pos_of_ne_zero fun heq => hn (UInt64.toNat_inj.mp heq)
    have hr : attempted.retryAtMs ≠ 0 := fun heq => by
      rw [heq, UInt64.toNat_zero] at he
      omega
    have hl : max attempted.retryAtMs (saturatingAdd nowMs ram) ≠ 0 := fun heq => by
      have hm := toNat_max attempted.retryAtMs (saturatingAdd nowMs ram)
      rw [heq, UInt64.toNat_zero] at hm
      omega
    rw [beq_eq_false_iff_ne.mpr hr] at ht
    simp only [settled, beq_eq_false_iff_ne.mpr hl]
    exact ht
  · exact ⟨⟨⟨hf, .inr rfl⟩, hs⟩, ht⟩
  · exact ⟨⟨⟨hf, hi⟩, hs⟩, ht⟩
  · exact ⟨⟨⟨hf, hi⟩, hs⟩, ht⟩
  · exact ⟨⟨⟨hf, hi⟩, by simpa [settled] using hg⟩, rfl⟩

theorem settled_fid {nowMs : UInt64} {o : Except NotificationFailure Unit} :
    (registration.settled nowMs generation o).fid = registration.fid := by
  rcases o with (ram | _ | _ | _) | _ <;> rfl

/-- A registration bears out what was done for its device. -/
structure Backs (deviceId : String) (log : List Entry) (registration : NotificationRegistration) :
    Prop where
  attempts : min (streak deviceId log) 7 ≤ registration.attempts.toNat
  retryAt : notBefore deviceId log ≤ registration.retryAtMs.toNat

section

variable {deviceId fid : String} {log : List Entry} {registration : NotificationRegistration}
  {nm generation : UInt64} {out : Except NotificationFailure Unit}

theorem saturated_mono {t few m : Nat} (h : few ≤ m) : saturated t few ≤ saturated t m :=
  min_le_min_right _ (Nat.add_le_add_left h t)

/-- Counting an attempt keeps what was required of the registration when it was due. -/
theorem Backs.attempted (h : Backs deviceId log registration)
    (hd : registration.retryAtMs ≤ nm) : Backs deviceId log (registration.attempted nm) := by
  constructor
  · have hc := h.attempts
    rw [attempted_attempts]
    omega
  · exact (h.retryAt.trans (UInt64.le_iff_toNat_le.mp hd)).trans
      (le_attempted_retryAtMs registration nm)

variable (nm) in
theorem Backs.count (h : Backs deviceId log registration) :
    min (streak deviceId log + 1) 7 ≤ (registration.attempted nm).attempts.toNat := by
  have hc := h.attempts
  rw [attempted_attempts]
  omega

variable (nm) in
/-- The count of an attempt is what its delay is computed from. -/
theorem Backs.delay (h : Backs deviceId log registration) :
    saturated nm.toNat (delayMs (streak deviceId log + 1)) ≤
      (registration.attempted nm).retryAtMs.toNat := by
  rw [attempted_retryAtMs]
  exact saturated_mono (delayMs_mono (h.count nm))

/-- An attempt that was cut has its delay, and none that the provider asked for. -/
theorem Backs.cut (h : Backs deviceId log registration) :
    Backs deviceId (.attempted deviceId fid generation nm out false :: log)
      (registration.attempted nm) := by
  constructor
  · cases out with
    | ok u => simp [streak]
    | error f =>
      rw [streak, if_pos rfl]
      exact h.count nm
  · cases out with
    | ok u => simp [notBefore]
    | error f =>
      rw [notBefore, if_pos rfl]
      simpa using h.delay nm

/-- An outcome that is kept has the provider's minimum as well. -/
theorem Backs.settled (h : Backs deviceId log registration) (k : Bool) :
    Backs deviceId (.attempted deviceId fid generation nm out k :: log)
      ((registration.attempted nm).settled nm generation out) := by
  have hd := h.delay nm
  have ho := le_attempted_retryAtMs registration nm
  cases out with
  | ok u => exact ⟨by simp [streak], by simp [notBefore]⟩
  | error f =>
    have hc := h.count nm
    have hm : ∀ {d ra : Nat}, saturated nm.toNat d ≤ ra →
        (if k then saturated nm.toNat d else 0) ≤ ra := by
      intro d ra hl
      split
      · exact hl
      · exact Nat.zero_le _
    have hn : saturated nm.toNat 0 ≤ (registration.attempted nm).retryAtMs.toNat :=
      (min_le_left _ _).trans ho
    refine ⟨?_, ?_⟩
    · rw [streak, if_pos rfl]
      cases f <;> exact hc
    · rw [notBefore, if_pos rfl, Nat.max_le]
      cases f with
      | transient ram =>
        simp only [settled, toNat_max, saturatingAdd_toNat]
        exact ⟨hd.trans (le_max_left _ _), hm (le_max_right _ _)⟩
      | invalidInstallation => exact ⟨hd, hm hn⟩
      | authentication => exact ⟨hd, hm hn⟩
      | configuration => exact ⟨hd, hm hn⟩

end

/-! ### The invariant -/

/-- The registry bears out its record: it loads, its ids differ and were all drawn, a revoked
device is not paired, and each registration backs what was done for its device. -/
structure Sound (service : Service) : Prop where
  loadable : Loadable service.world.file
  distinct : service.world.file.ids.Nodup
  drawn : ∀ deviceId ∈ service.world.file.ids, deviceId ∈ service.drawn
  revoked (deviceId : String) : .revoked deviceId ∈ service.log →
    deviceId ∈ service.drawn ∧ deviceId ∉ service.world.file.ids
  backed (deviceId : String) (registration : NotificationRegistration) :
    service.world.file.registrationOf deviceId = some registration →
      Backs deviceId service.log registration
  orderly : Orderly service.log

/-- The generation that a device was last confirmed to be sent. -/
def RegistryState.submittedTo (state : RegistryState) (deviceId : String) : Option UInt64 :=
  (state.registrationOf deviceId).bind (·.submittedGeneration)

/-- From one moment to a later one, a device that is still paired was paired before, and its
submitted generation did not decrease. -/
structure Advances (service later : Service) : Prop where
  drawn : service.drawn ⊆ later.drawn
  paired : ∀ deviceId ∈ service.drawn, deviceId ∈ later.world.file.ids →
    deviceId ∈ service.world.file.ids
  submitted (deviceId : String) (generation : UInt64) :
    service.world.file.submittedTo deviceId = some generation → deviceId ∈ later.world.file.ids →
        ∃ submitted, later.world.file.submittedTo deviceId = some submitted ∧ generation ≤ submitted

theorem Advances.refl (s : Service) : Advances s s :=
  ⟨fun _ h => h, fun _ _ h => h, fun _ generation h _ => ⟨generation, h, UInt64.le_refl _⟩⟩

variable {st : RegistryState}

/-- A device that was submitted to is paired. -/
theorem mem_ids_of_submittedTo (h : st.submittedTo deviceId = some generation) :
    deviceId ∈ st.ids := by
  by_contra hu
  rw [← progress_map_fst] at hu
  rw [submittedTo, registrationOf_progress, registrationOf_eq_none hu] at h
  simp at h

theorem Advances.trans {s m l : Service} (h : Advances s m) (h' : Advances m l)
    (hd : ∀ deviceId ∈ s.world.file.ids, deviceId ∈ s.drawn) : Advances s l where
  drawn := List.Subset.trans h.drawn h'.drawn
  paired := fun deviceId hm hl =>
    h.paired deviceId hm (h'.paired deviceId (h.drawn hm) hl)
  submitted := by
    intro deviceId generation hs hl
    have hm : deviceId ∈ s.drawn := hd _ (mem_ids_of_submittedTo hs)
    obtain ⟨b, hb, he⟩ :=
      h.submitted deviceId generation hs (h'.paired deviceId (h.drawn hm) hl)
    obtain ⟨submitted, hf, hl'⟩ := h'.submitted deviceId b hb hl
    exact ⟨submitted, hf, UInt64.le_trans he hl'⟩

/-! ### One step -/

variable {after : RegistryState}

theorem ids_of_progress (h : after.progress = st.progress) : after.ids = st.ids := by
  rw [← progress_map_fst, h, progress_map_fst]

theorem registrationOf_of_progress (h : after.progress = st.progress) (deviceId : String) :
    after.registrationOf deviceId = st.registrationOf deviceId := by
  rw [registrationOf_progress, h, ← registrationOf_progress]

theorem submittedTo_of_progress (h : after.progress = st.progress) (deviceId : String) :
    after.submittedTo deviceId = st.submittedTo deviceId := by
  rw [submittedTo, registrationOf_of_progress h, submittedTo]

section

variable {se : Service} {after : World}

/-- Nothing that the registry keeps of a device is changed. -/
theorem Sound.same (h : Sound se) (hv : after.file.schemaVersion = se.world.file.schemaVersion)
    (hp : after.file.progress = se.world.file.progress) (d : List String) :
    Sound ⟨after, se.drawn ++ d, se.log⟩ ∧ Advances se ⟨after, se.drawn ++ d, se.log⟩ := by
  have hi : after.file.ids = se.world.file.ids := ids_of_progress hp
  constructor
  · refine ⟨?_, hi ▸ h.distinct, ?_, ?_, ?_, h.orderly⟩
    · obtain ⟨ht, ha⟩ := loadable_iff.mp h.loadable
      exact loadable_iff.mpr ⟨hv.trans ht, hp.symm ▸ ha⟩
    · intro deviceId hm
      exact mem_append_left _ (h.drawn deviceId (hi ▸ hm))
    · intro deviceId hr
      obtain ⟨hd, hu⟩ := h.revoked deviceId hr
      exact ⟨mem_append_left _ hd, hi ▸ hu⟩
    · intro deviceId registration he
      rw [registrationOf_of_progress hp] at he
      exact h.backed deviceId registration he
  · refine ⟨subset_append_left _ _, fun deviceId _ hm => hi ▸ hm, ?_⟩
    intro deviceId generation hs _
    exact ⟨generation, (submittedTo_of_progress hp deviceId).trans hs, UInt64.le_refl _⟩

/-- The same for an operation that draws nothing. -/
theorem Sound.unchanged (h : Sound se) (hv : after.file.schemaVersion = se.world.file.schemaVersion)
    (hp : after.file.progress = se.world.file.progress) : Sound ⟨after, se.drawn, se.log⟩ ∧
      Advances se ⟨after, se.drawn, se.log⟩ := by
  have hs := h.same hv hp []
  rwa [append_nil] at hs

variable {deviceId : String} {new : List Entry}

theorem streak_append (h : ∀ e ∈ new, e.device ≠ some deviceId) (o : List Entry) :
    streak deviceId (new ++ o) = streak deviceId o := by
  induction new with
  | nil => rfl
  | cons e new ih =>
    rw [forall_mem_cons] at h
    rw [cons_append, streak_of_ne h.1, ih h.2]

theorem notBefore_append (h : ∀ e ∈ new, e.device ≠ some deviceId) (o : List Entry) :
    notBefore deviceId (new ++ o) = notBefore deviceId o := by
  induction new with
  | nil => rfl
  | cons e new ih =>
    rw [forall_mem_cons] at h
    rw [cons_append, notBefore_of_ne h.1, ih h.2]

/-- One device's registration is replaced by one that bears out what was done for it. -/
theorem Sound.set (h : Sound se) {registration : NotificationRegistration}
    (hm : deviceId ∈ se.world.file.ids)
    (hv : after.file.schemaVersion = se.world.file.schemaVersion)
    (hp : after.file.progress = se.world.file.progress.set deviceId registration)
    (ha : (se.world.file.progress.set deviceId registration).Valid)
    (hw : ∀ e ∈ new, e.device = some deviceId) (hb : Backs deviceId (new ++ se.log) registration)
    (hor : Orderly (new ++ se.log))
    (hs : ∀ generation, se.world.file.submittedTo deviceId = some generation →
      ∃ s, registration.submittedGeneration = some s ∧ generation ≤ s) :
    Sound ⟨after, se.drawn, new ++ se.log⟩ ∧ Advances se ⟨after, se.drawn, new ++ se.log⟩ := by
  have hi : after.file.ids = se.world.file.ids := by
    rw [← progress_map_fst, hp, map_fst_set, progress_map_fst]
  have hse : after.file.registrationOf deviceId = some registration := by
    rw [registrationOf_progress, hp]
    exact registrationOf_set_self (progress_map_fst ▸ hm)
  have ht : ∀ o, o ≠ deviceId →
      after.file.registrationOf o = se.world.file.registrationOf o := fun o hn => by
    rw [registrationOf_progress, hp, registrationOf_set_of_ne hn, ← registrationOf_progress]
  constructor
  · refine ⟨?_, hi ▸ h.distinct, fun o ho => h.drawn o (hi ▸ ho), ?_, ?_, hor⟩
    · exact loadable_iff.mpr ⟨hv.trans (loadable_iff.mp h.loadable).1, hp.symm ▸ ha⟩
    · intro o hr
      have hold : Entry.revoked o ∈ se.log := by
        refine (mem_append.mp hr).resolve_left fun hin => ?_
        have hd := hw _ hin
        simp [Entry.device] at hd
      obtain ⟨hdr, hu⟩ := h.revoked o hold
      exact ⟨hdr, hi ▸ hu⟩
    · intro o f hf
      by_cases ho : o = deviceId
      · subst ho
        rw [hse, Option.some.injEq] at hf
        exact hf ▸ hb
      · have hn : ∀ e ∈ new, e.device ≠ some o := fun e he heq =>
          ho (Option.some.inj ((heq.symm.trans (hw e he))))
        have hbef := h.backed o f (ht o ho ▸ hf)
        exact ⟨(streak_append hn se.log).symm ▸ hbef.attempts,
          (notBefore_append hn se.log).symm ▸ hbef.retryAt⟩
  · refine ⟨List.Subset.refl _, fun o _ ho => hi ▸ ho, ?_⟩
    intro o generation hsn _
    by_cases ho : o = deviceId
    · subst ho
      obtain ⟨s, heq, hl⟩ := hs generation hsn
      exact ⟨s, by rw [submittedTo, hse, Option.bind_some, heq], hl⟩
    · refine ⟨generation, ?_, UInt64.le_refl _⟩
      rw [submittedTo, ht o ho]
      exact hsn

/-- A device is added under an id that was not drawn before. -/
theorem Sound.paired (h : Sound se) (hfr : deviceId ∉ se.drawn)
    (hver : after.file.schemaVersion = se.world.file.schemaVersion)
    (hp : after.file.progress = se.world.file.progress ++ [(deviceId, none)]) :
    Sound ⟨after, se.drawn ++ [deviceId], se.log⟩ ∧
      Advances se ⟨after, se.drawn ++ [deviceId], se.log⟩ := by
  have hi : after.file.ids = se.world.file.ids ++ [deviceId] := by
    rw [← progress_map_fst, hp, map_append, progress_map_fst]
    rfl
  have hn : deviceId ∉ se.world.file.ids := fun hm => hfr (h.drawn deviceId hm)
  have hg : ∀ o, after.file.registrationOf o =
      se.world.file.registrationOf o := by
    intro o
    rw [registrationOf_progress, registrationOf_progress, hp]
    unfold Progress.registrationOf
    rw [List.find?_append]
    cases hfi : se.world.file.progress.find? (·.1 == o) with
    | some e => rfl
    | none =>
      rw [Option.none_or, List.find?_singleton]
      split <;> rfl
  obtain ⟨ht, hv⟩ := loadable_iff.mp h.loadable
  constructor
  · refine ⟨loadable_iff.mpr ⟨hver.trans ht, ?_⟩, ?_, ?_, ?_, ?_, h.orderly⟩
    · rw [hp]
      refine ⟨fun e he f hf => ?_, ?_⟩
      · rcases mem_append.mp he with he | he
        · exact hv.each e he f hf
        · rw [mem_singleton.mp he] at hf
          simp at hf
      · simpa using hv.installations
    · rw [hi]
      refine nodup_append.mpr ⟨h.distinct, nodup_singleton _, ?_⟩
      intro old hold o ho heq
      rw [mem_singleton] at ho
      exact hn (ho ▸ heq ▸ hold)
    · intro o ho
      rw [hi] at ho
      exact mem_append.mpr ((mem_append.mp ho).imp_left (h.drawn o))
    · intro o hr
      obtain ⟨hd, hu⟩ := h.revoked o hr
      refine ⟨mem_append_left _ hd, fun hm => ?_⟩
      rw [hi] at hm
      rcases mem_append.mp hm with hm | hm
      · exact hu hm
      · exact hfr (mem_singleton.mp hm ▸ hd)
    · intro o f hf
      exact h.backed o f ((hg o).symm.trans hf)
  · refine ⟨subset_append_left _ _, fun o hd ho => ?_, ?_⟩
    · rw [hi] at ho
      exact (mem_append.mp ho).resolve_right fun hm =>
        hfr (mem_singleton.mp hm ▸ hd)
    · intro o generation hs _
      refine ⟨generation, ?_, UInt64.le_refl _⟩
      rw [submittedTo, hg o]
      exact hs

/-- A device is removed, and recorded as revoked where the operation returned. -/
theorem Sound.removed (h : Sound se) (hm : deviceId ∈ se.world.file.ids)
    (hver : after.file.schemaVersion = se.world.file.schemaVersion)
    (hp : after.file.progress = se.world.file.progress.filter (·.1 != deviceId)) (r : Bool) :
    Sound ⟨after, se.drawn, (if r then [.revoked deviceId] else []) ++ se.log⟩ ∧ Advances se
        ⟨after, se.drawn, (if r then [.revoked deviceId] else []) ++ se.log⟩ := by
  have hi : after.file.ids = se.world.file.ids.filter (· != deviceId) := by
    rw [← progress_map_fst, hp, ← progress_map_fst, filter_map]
    rfl
  have hg : ∀ o, o ∈ after.file.ids →
      after.file.registrationOf o = se.world.file.registrationOf o := by
    intro o ho
    rw [hi, mem_filter, bne_iff_ne] at ho
    rw [registrationOf_progress, registrationOf_progress, hp]
    unfold Progress.registrationOf
    rw [List.find?_filter]
    congr 2
    funext e
    by_cases hid : e.1 = o
    · simp [hid, ho.2]
    · simp [hid]
  have hn : ∀ e ∈ (if r then [Entry.revoked deviceId] else []), e = .revoked deviceId := by
    intro e he
    split at he
    · exact mem_singleton.mp he
    · simp at he
  have hd : ∀ o, ∀ e ∈ (if r then [Entry.revoked deviceId] else []),
      e.device ≠ some o := fun o e he heq => by
    rw [hn e he] at heq
    simp [Entry.device] at heq
  obtain ⟨ht, hv⟩ := loadable_iff.mp h.loadable
  constructor
  · refine ⟨loadable_iff.mpr ⟨hver.trans ht, ?_⟩, ?_, ?_, ?_, ?_, ?_⟩
    · rw [hp]
      refine ⟨fun e he => hv.each e (mem_of_mem_filter he), ?_⟩
      exact hv.installations.sublist (filter_sublist.filterMap _)
    · exact hi ▸ h.distinct.filter _
    · intro o ho
      rw [hi] at ho
      exact h.drawn o (mem_of_mem_filter ho)
    · intro o hr
      rcases mem_append.mp hr with hr | hr
      · rw [Entry.revoked.inj (hn _ hr), hi]
        exact ⟨h.drawn deviceId hm, by simp⟩
      · obtain ⟨hdr, hun⟩ := h.revoked o hr
        rw [hi]
        exact ⟨hdr, fun hin => hun (mem_of_mem_filter hin)⟩
    · intro o f hf
      have ho : o ∈ after.file.ids := by
        by_contra hu
        rw [← progress_map_fst] at hu
        rw [registrationOf_progress, registrationOf_eq_none hu] at hf
        simp at hf
      have hb := h.backed o f (hg o ho ▸ hf)
      exact ⟨(streak_append (hd o) se.log).symm ▸ hb.attempts,
        (notBefore_append (hd o) se.log).symm ▸ hb.retryAt⟩
    · cases r with
      | true => exact h.orderly
      | false => exact h.orderly
  · refine ⟨List.Subset.refl _, fun o _ ho => ?_, ?_⟩
    · rw [hi] at ho
      exact mem_of_mem_filter ho
    · intro o generation hs ho
      refine ⟨generation, ?_, UInt64.le_refl _⟩
      rw [submittedTo, hg o ho]
      exact hs

end

section

variable (pu : String → Option ReceiverUrl) (sh2 : Sha256)

variable {w : World}

/-- An operation that sends nothing either stopped before its write, or made it. -/
theorem quietly_cases {Q : RegistryState → Prop} {r : Ending PairingError Unit × List Fault × World}
    (h : (Quietly w Q).Holds r) : (r.2.2 = w ∧ endedWell r.1 = false) ∨
      (r.2.2.sent = w.sent ∧ Q r.2.2.file) := by
  obtain ⟨e, fs, after⟩ := r
  cases e with
  | value a => exact .inr h
  | error error => exact h.imp_left fun heq => ⟨heq, rfl⟩
  | crashed => exact h.imp_left fun heq => ⟨heq, rfl⟩

theorem wp_perform_attempt (deviceId : String) (nowMs : UInt64)
    (l : Except PairingError (Option UInt64))
    (s : String → UInt64 → Except NotificationFailure Unit) (hi : w.file.ids.Nodup) :
    Wp (perform pu sh2 (.attempt deviceId nowMs l s)) ⟨fun _ => Attempts w deviceId nowMs s true,
        fun _ => Attempts w deviceId nowMs s false, Attempts w deviceId nowMs s false⟩ w := by
  refine wp_bind (wp_ofExcept (fun _ hn => ?_) (fun _ _ => .untouched _))
  have hp : nowMs ≠ 0 := bne_iff_ne.mp (require_ok.mp hn)
  exact wp_bind ((wp_attempt hi hp).mono
    (fun _ _ hv => wp_pure.mpr hv) (fun _ _ he => he) (fun _ hc => hc))

theorem perform_attempts (deviceId : String) (nowMs : UInt64)
    (l : Except PairingError (Option UInt64))
    (s : String → UInt64 → Except NotificationFailure Unit) (hi : w.file.ids.Nodup)
    (fs : List Fault) : let result := perform pu sh2 (.attempt deviceId nowMs l s) fs w
    Attempts w deviceId nowMs s (endedWell result.1) result.2.2 := by
  have hp := wp_perform_attempt pu sh2 deviceId nowMs l s hi fs
  intro result
  change Program.Post.Holds _ result at hp
  obtain ⟨e, xs, after⟩ := result
  cases e with
  | value a => exact hp
  | error error => exact hp
  | crashed => exact hp

variable {deviceId fid : String} {nom generation : UInt64} {registration : NotificationRegistration}

/-- A due registration keeps its submitted generation until a newer one is confirmed. -/
theorem submitted_of_due {st : RegistryState}
    (hd : DueFor st deviceId nom registration fid generation) {s : UInt64}
    (hs : st.submittedTo deviceId = some s) :
    registration.submittedGeneration = some s ∧ s < generation := by
  rw [submittedTo, hd.registered, Option.bind_some] at hs
  refine ⟨hs, ?_⟩
  have hn := hd.due
  simp only [NotificationRegistration.due, hs, Option.any_some, Bool.and_eq_true,
    Bool.not_eq_true', decide_eq_false_iff_not] at hn
  exact UInt64.not_le.mp hn.1.2

variable {ser : Service}

/-- A registration that is due is valid once it is counted, and backs what was done. -/
theorem Sound.due (h : Sound ser)
    (hd : DueFor ser.world.file deviceId nom registration fid generation) :
    (registration.attempted nom).valid = true ∧ Backs deviceId ser.log registration ∧
      registration.retryAtMs ≤ nom := by
  have he := hd.registered
  rw [registrationOf_progress] at he
  have hv := (loadable_iff.mp h.loadable).2.each _ (mem_of_registrationOf he) registration rfl
  have hr := hd.due
  simp only [NotificationRegistration.due, Bool.and_eq_true, decide_eq_true_eq] at hr
  exact ⟨attempted_valid hd.positive.1 hv, h.backed deviceId registration hd.registered, hr.2⟩

/-- What makes an attempt that was due, with what it then did, a step of the invariant. -/
private theorem Sound.attempt (h : Sound ser) {after : World} {l : NotificationRegistration}
    {new : List Entry} (hu : DueFor ser.world.file deviceId nom registration fid generation)
    (hv : after.file.schemaVersion = ser.world.file.schemaVersion)
    (hp : after.file.progress = ser.world.file.progress.set deviceId l) (ha : l.valid = true)
    (hf : l.fid = registration.fid)
    (hs : l.submittedGeneration = registration.submittedGeneration ∨ l.submittedGeneration =
    some generation)
    (hw : new = [] ∨ ∃ o k, new = [.attempted deviceId fid generation nom o k])
    (hb : Backs deviceId (new ++ ser.log) l) : Sound ⟨after, ser.drawn, new ++ ser.log⟩ ∧
      Advances ser ⟨after, ser.drawn, new ++ ser.log⟩ := by
  have he := hu.registered
  rw [registrationOf_progress] at he
  have hl : deviceId ∈ ser.world.file.ids := by
    rw [← progress_map_fst]
    exact mem_map.mpr ⟨_, mem_of_registrationOf he, rfl⟩
  have hd : (ser.world.file.progress.map (·.1)).Nodup :=
    progress_map_fst.symm ▸ h.distinct
  have hall := (loadable_iff.mp h.loadable).2.set_same hd ha he hf
  refine h.set hl hv hp hall ?_ hb ?_ ?_
  · rcases hw with rfl | ⟨o, k, rfl⟩
    · simp
    · simp [Entry.device]
  · rcases hw with rfl | ⟨o, k, rfl⟩
    · exact h.orderly
    · refine ⟨fun hre => (h.revoked deviceId hre).2 hl, ?_, h.orderly⟩
      have hr := hu.due
      simp only [NotificationRegistration.due, Bool.and_eq_true, decide_eq_true_eq] at hr
      exact (h.backed deviceId registration hu.registered).retryAt.trans
        (UInt64.le_iff_toNat_le.mp hr.2)
  · intro s hse
    obtain ⟨hbef, ht⟩ := submitted_of_due hu hse
    rcases hs with hk | hn
    · exact ⟨s, hk.trans hbef, UInt64.le_refl _⟩
    · exact ⟨generation, hn, UInt64.le_of_lt ht⟩

theorem settled_submitted {o : Except NotificationFailure Unit} :
    ((registration.attempted nom).settled nom generation o).submittedGeneration =
        registration.submittedGeneration ∨
      ((registration.attempted nom).settled nom generation o).submittedGeneration =
        some generation := by
  rcases o with (ram | _ | _ | _) | _
  · exact .inl rfl
  · exact .inl rfl
  · exact .inl rfl
  · exact .inl rfl
  · exact .inr rfl

/-- An attempt keeps the invariant, wherever it stops. -/
theorem step_attempt (h : Sound ser) {l : Except PairingError (Option UInt64)}
    {s : String → UInt64 → Except NotificationFailure Unit} (fs : List Fault) :
    Sound (ser.step pu sh2 ⟨.attempt deviceId nom l s, fs⟩) ∧ Advances ser
        (ser.step pu sh2 ⟨.attempt deviceId nom l s, fs⟩) := by
  have hl := perform_attempts pu sh2 deviceId nom l s h.distinct fs
  unfold Service.step
  dsimp only [draws, entries] at hl ⊢
  rw [append_nil]
  generalize perform pu sh2 (.attempt deviceId nom l s) fs ser.world = result at hl
  obtain ⟨e, xs, after⟩ := result
  dsimp only at hl ⊢
  generalize endedWell e = returned at hl
  cases hl with
  | untouched =>
    rw [drop_length, map_nil, nil_append]
    exact h.unchanged rfl rfl
  | @counted registration fid generation _ hd hv hp hs =>
    obtain ⟨ha, hb, hr⟩ := h.due hd
    rw [hs, drop_length, map_nil]
    exact h.attempt hd hv hp ha rfl (.inl rfl) (.inl rfl) (hb.attempted hr)
  | @cut registration fid generation _ hd hv hp hs =>
    obtain ⟨ha, hb, -⟩ := h.due hd
    rw [hs, drop_left, map_singleton]
    refine h.attempt hd hv hp ha rfl (.inl rfl) (.inr ⟨_, _, rfl⟩) ?_
    cases hk : keepsOutcome deviceId nom generation (s fid generation) ser.world.file
        after.file with
    | false => exact hb.cut
    | true =>
      have hi : deviceId ∈ ser.world.file.progress.map (·.1) :=
        mem_map.mpr ⟨_, mem_of_registrationOf
          (registrationOf_progress.symm.trans hd.registered), rfl⟩
      rw [keepsOutcome, hd.registered, Option.any_some, registrationOf_progress, hp,
        registrationOf_set_self hi, beq_iff_eq, Option.some.injEq] at hk
      rw [hk]
      exact hb.settled true
  | @settled _ registration fid generation _ hd hv hp hs =>
    obtain ⟨ha, hb, -⟩ := h.due hd
    rw [hs, drop_left, map_singleton]
    exact h.attempt hd hv hp
      (settled_valid hd.positive.2 ha hd.positive.1 _) settled_fid settled_submitted
      (.inr ⟨_, _, rfl⟩) (hb.settled _)

/-- A registration that starts anew is valid. -/
private theorem started_valid {s : Option UInt64} (hf : validFid fid = true) (hs : s ≠ some 0) :
    valid ⟨some fid, true, s, 0, 0⟩ = true := by
  simp [valid, hf, hs]

/-- No device of a valid listing was submitted generation zero. -/
private theorem Progress.Valid.submitted_ne_zero {p : Progress} (h : p.Valid) (deviceId : String) :
    (p.registrationOf deviceId).bind (·.submittedGeneration) ≠ some 0 := by
  intro hz
  obtain ⟨registration, hf, hs⟩ := Option.bind_eq_some_iff.mp hz
  have hv := h.each _ (mem_of_registrationOf hf) registration rfl
  simp [valid, hs] at hv

theorem step_quiet (h : Sound ser) {ca : Call} (hq : ca.operation.quiet = true)
    (hf : FreshIds ser ca) : Sound (ser.step pu sh2 ca) ∧ Advances ser (ser.step pu sh2 ca) := by
  obtain ⟨operation, fs⟩ := ca
  have hl := quietly_cases (wp_perform_quiet pu sh2 hq h.distinct fs)
  unfold Service.step
  dsimp only at hq hl ⊢
  generalize perform pu sh2 operation fs ser.world = result at hl
  obtain ⟨e, xs, after⟩ := result
  dsimp only at hl ⊢
  generalize endedWell e = returned at hl
  rcases hl with ⟨rfl, rfl⟩ | ⟨hse, hv, hc⟩
  · have hn : entries sh2 operation ser.world ser.world false = [] := by
      cases operation <;> simp [entries, quiet] at hq ⊢
    rw [hn, nil_append]
    exact h.same rfl rfl _
  · cases operation with
    | issue => exact h.same hv hc _
    | recordDelivery => exact h.same hv hc _
    | configure => exact h.same hv hc _
    | retry => exact h.same hv hc _
    | attempt => simp [quiet] at hq
    | consume tk dn nom deviceId c =>
      exact h.paired (hf deviceId (mem_singleton_self _)) hv hc
    | revoke deviceId =>
      dsimp only [draws]
      rw [append_nil]
      exact h.removed hc.1 hv hc.2 returned
    | register c fid =>
      obtain ⟨hi, hr⟩ := hc
      dsimp only [draws, entries]
      rw [append_nil]
      by_cases hs : after.file = ser.world.file
      · rw [if_pos hs, nil_append]
        exact h.unchanged (by rw [hs]) (by rw [hs])
      · obtain ⟨deviceId, hd, ho, hp⟩ := hr.resolve_left hs
        rw [if_neg hs, hd, Option.map_some, Option.toList_some]
        have hli : deviceId ∈ ser.world.file.ids := by
          obtain ⟨d, hfi, rfl⟩ := Option.map_eq_some_iff.mp hd
          exact mem_map.mpr ⟨d, mem_of_find?_eq_some hfi, rfl⟩
        have hdi : (ser.world.file.progress.map (·.1)).Nodup :=
          progress_map_fst.symm ▸ h.distinct
        have hst := (loadable_iff.mp h.loadable).2
        refine h.set hli hv hp ?_ ?_ ?_ h.orderly ?_
        · refine hst.set_fresh hdi ?_ ?_
          · exact started_valid hi (hst.submitted_ne_zero deviceId)
          · intro en he hne t ht
            rw [← Option.some.inj ht]
            exact ho en he hne
        · simp [Entry.device]
        · exact ⟨by simp [streak], by simp [notBefore]⟩
        · intro generation hse
          rw [submittedTo, registrationOf_progress] at hse
          exact ⟨generation, hse, UInt64.le_refl _⟩

/-- Every operation keeps the invariant and what was submitted. -/
theorem step_sound (h : Sound ser) {c : Call} (hf : FreshIds ser c) : Sound (ser.step pu sh2 c) ∧
      Advances ser (ser.step pu sh2 c) := by
  obtain ⟨op, fs⟩ := c
  by_cases hq : op.quiet = true
  · exact step_quiet pu sh2 h hq hf
  · cases op with
    | attempt deviceId nom l s => exact step_attempt pu sh2 h fs
    | _ => exact absurd rfl hq

end
/-! ### Whole runs -/

section

variable (parseUrl : String → Option ReceiverUrl) (sha256 : Sha256)

/-- A step sends nothing, or it is an attempt that sends once: to the current installation of
a paired and enabled device, a generation greater than the one submitted to it. -/
def SendsRightly (service : Service) (call : Call) : Prop :=
  let after := (service.step parseUrl sha256 call).world
  after.sent = service.world.sent ∨ ∃ deviceId nowMs latest send registration submission,
      call.operation = .attempt deviceId nowMs latest send ∧
      after.sent = service.world.sent ++ [submission] ∧ service.world.file.health = .ready ∧
      service.world.file.registrationOf deviceId = some registration ∧
      registration.enabled = true ∧ registration.fid = some submission.fid ∧
      ∀ sent, registration.submittedGeneration = some sent → sent < submission.generation

variable {nowMs : UInt64}

theorem Attempts.sends {wo after : World} {deviceId : String}
    {s : String → UInt64 → Except NotificationFailure Unit} {r : Bool}
    (h : Attempts wo deviceId nowMs s r after) :
    after.sent = wo.sent ∨ ∃ registration fid generation,
      DueFor wo.file deviceId nowMs registration fid generation ∧
        after.sent = wo.sent ++ [⟨fid, generation⟩] := by
  cases h with
  | untouched => exact .inl rfl
  | counted due v p sent => exact .inl sent
  | cut due v p sent => exact .inr ⟨_, _, _, due, sent⟩
  | settled _ due v p sent => exact .inr ⟨_, _, _, due, sent⟩

theorem Sound.sendsRightly {s : Service} (h : Sound s) (c : Call) :
    SendsRightly parseUrl sha256 s c := by
  obtain ⟨op, fs⟩ := c
  by_cases hq : op.quiet = true
  · have hl :=
      quietly_cases (wp_perform_quiet parseUrl sha256 hq h.distinct fs)
    left
    rcases hl with ⟨heq, -⟩ | ⟨hs, -⟩
    · exact congrArg World.sent heq
    · exact hs
  · cases op with
    | attempt deviceId nowMs l send =>
      have hl := perform_attempts parseUrl sha256 deviceId nowMs l send h.distinct
        fs
      rcases hl.sends with hn | ⟨registration, fid, generation, hd, hs⟩
      · exact .inl hn
      · have hr := hd.due
        simp only [NotificationRegistration.due, Bool.and_eq_true] at hr
        refine .inr ⟨deviceId, nowMs, l, send, registration, ⟨fid, generation⟩, rfl, hs,
          hd.ready, hd.registered, hr.1.1, hd.installation, fun sent hu => ?_⟩
        refine (submitted_of_due hd ?_).2
        rw [submittedTo, hd.registered, Option.bind_some, hu]
    | _ => exact absurd rfl hq

/-! ### Passes -/

/-- The attempts of a pass over a listing of devices, with what it is told at each place. -/
def passOperations (latest : Nat → Except PairingError (Option UInt64)) (nowMs : UInt64)
    (send : Nat → String → UInt64 → Except NotificationFailure Unit) :
    Nat → List DeviceStatus → List Operation
  | _, [] => []
  | place, device :: devices =>
    .attempt device.deviceId nowMs (latest place) (send place) ::
      passOperations latest nowMs send (place + 1) devices

/-- What a bind leaves: what its first part leaves, or what the second leaves from there. -/
theorem leaves_bind {σ ε α β : Type} (p : Program σ ε β) (f : β → Program σ ε α) (fs : List Fault)
    (s : σ) : (p >>= f).leaves fs s = p.leaves fs s ∨
      ∃ b xs, (p fs s).1 = .value b ∧ (p >>= f).leaves fs s = (f b).leaves xs (p.leaves fs s) := by
  change (Program.bind p f fs s).2.2 = _ ∨ ∃ b xs, _ ∧ (Program.bind p f fs s).2.2 = _
  unfold Program.bind leaves
  cases hr : p fs s with
  | mk e xs =>
    obtain ⟨fs, after⟩ := xs
    cases e with
    | value b => exact .inr ⟨b, fs, rfl, rfl⟩
    | error error => exact .inl rfl
    | crashed => exact .inl rfl

/-- The part of a pass for one device leaves what that attempt by itself leaves. -/
theorem step_attempt_world (s : Service) (deviceId : String) (ho : nowMs ≠ 0)
    (l : Except PairingError (Option UInt64))
    (send : String → UInt64 → Except NotificationFailure Unit) (fs : List Fault) :
    (s.step parseUrl sha256 ⟨.attempt deviceId nowMs l send, fs⟩).world =
      (deliverOne l nowMs send deviceId).leaves fs s.world := by
  have hc : require (nowMs != 0)
      (PairingError.rejected "notification timestamp must be positive") = .ok () :=
    require_ok.mpr (bne_iff_ne.mpr ho)
  have hp : perform parseUrl sha256 (.attempt deviceId nowMs l send) =
      (deliverOne l nowMs send deviceId >>= fun _ => pure ()) := by
    change (positiveTime nowMs >>= fun _ => deliverOne l nowMs send deviceId >>=
      fun _ => pure ()) = _
    unfold positiveTime
    rw [hc]
    rfl
  change (perform parseUrl sha256 (.attempt deviceId nowMs l send)).leaves fs s.world = _
  rw [hp]
  rcases leaves_bind (deliverOne l nowMs send deviceId) (fun _ => pure ()) fs
    s.world with h | ⟨b, rest, -, h⟩
  · exact h
  · exact h

theorem deliverAll_attempts (hp : nowMs ≠ 0) (l : Nat → Except PairingError (Option UInt64))
    (send : Nat → String → UInt64 → Except NotificationFailure Unit) (ds : List DeviceStatus)
    (p s : Nat) (fs : List Fault) (service : Service) : ∃ ca : List Call,
      ca.map (·.operation) <+: passOperations l nowMs send p ds ∧
        (deliverAll l nowMs send p ds s).leaves fs service.world =
          (ca.foldl (Service.step parseUrl sha256) service).world := by
  induction ds generalizing p s fs service with
  | nil => exact ⟨[], prefix_refl _, rfl⟩
  | cons d ds ih =>
    have ho := step_attempt_world parseUrl sha256 service d.deviceId hp (l p) (send p) fs
    rcases leaves_bind (deliverOne (l p) nowMs (send p) d.deviceId)
      (fun c => deliverAll l nowMs send (p + 1) ds
        (s + c.toNat)) fs service.world with h | ⟨c, rest, -, h⟩
    · refine ⟨[⟨.attempt d.deviceId nowMs (l p) (send p), fs⟩], ?_, ?_⟩
      · exact prefix_append [attempt d.deviceId nowMs (l p) (send p)]
          (passOperations l nowMs send (p + 1) ds)
      · exact h.trans ho.symm
    · obtain ⟨ca, hc, hl⟩ := ih (p + 1) (s + c.toNat) rest (service.step parseUrl sha256
          ⟨.attempt d.deviceId nowMs (l p) (send p), fs⟩)
      refine ⟨⟨.attempt d.deviceId nowMs (l p) (send p), fs⟩ :: ca, ?_, ?_⟩
      · exact prefix_cons_inj _ |>.mpr hc
      · rw [ho] at hl
        exact h.trans hl

/-- The listing of a pass reads the registry and changes nothing. -/
theorem wp_status {wo : World} : Wp status
    ⟨fun l after => after = wo ∧ l = (wo.file.devices.map (·.status)).insertionSort
      (·.deviceId ≤ ·.deviceId), fun _ after => after = wo, fun after => after = wo⟩ wo := by
  refine wp_withState (fun _ => rfl) rfl ?_
  refine wp_bind (wp_pure.mpr ?_)
  refine wp_bind (wp_probe ?_ rfl rfl)
  exact wp_pure.mpr ⟨rfl, rfl⟩

/-- A pass is a sequence of attempts, in the order of its listing, that may be cut short. -/
theorem deliverNotifications_attempts (l : Nat → Except PairingError (Option UInt64))
    (nowMs : UInt64) (send : Nat → String → UInt64 → Except NotificationFailure Unit)
    (fs : List Fault) (s : Service) : ∃ c : List Call,
      c.map (·.operation) <+: passOperations l nowMs send 0
        ((s.world.file.devices.map (·.status)).insertionSort (·.deviceId ≤ ·.deviceId)) ∧
        (deliverNotifications l nowMs send).leaves fs s.world =
          (c.foldl (Service.step parseUrl sha256) s).world := by
  by_cases ho : nowMs = 0
  · refine ⟨[], nil_prefix, ?_⟩
    subst ho
    rfl
  · have hh : require (nowMs != 0)
        (PairingError.rejected "notification timestamp must be positive") = .ok () :=
      require_ok.mpr (bne_iff_ne.mpr ho)
    have hp : deliverNotifications l nowMs send =
        (status >>= fun devices => deliverAll l nowMs send 0 devices 0) := by
      unfold deliverNotifications
      rw [hh]
      rfl
    have hk : status.leaves fs s.world = s.world := by
      refine Wp.leaves (Q := fun after => after = s.world) ?_ fs
      exact wp_status.mono (fun _ _ hv => hv.1) (fun _ _ he => he) (fun _ hc => hc)
    rw [hp]
    rcases leaves_bind status (fun devices => deliverAll l nowMs send 0 devices 0) fs
      s.world with h | ⟨devices, rest, hv, h⟩
    · exact ⟨[], nil_prefix, h.trans hk⟩
    · obtain ⟨-, rfl⟩ := wp_status.value_of hv
      rw [hk] at h
      obtain ⟨c, ha, hl⟩ := deliverAll_attempts parseUrl sha256 ho l send
        _ 0 0 rest s
      exact ⟨c, ha, h.trans hl⟩

/-! ### The main result -/

theorem sound_start {f : RegistryState} (hf : Loadable f) (hi : f.ids.Nodup) :
    Sound (.start f) where
  loadable := hf
  distinct := hi
  drawn := fun _ h => h
  revoked := fun _ h => absurd h not_mem_nil
  backed := fun _ _ _ => ⟨Nat.zero_le _, Nat.zero_le _⟩
  orderly := trivial

variable {parseUrl sha256} in
/-- From one moment of a run to a later one, no submitted generation decreases. -/
theorem run_advances {s : Service} (h : Sound s) {c : List Call}
    (hf : Throughout (Service.step parseUrl sha256) FreshIds s c) :
    Advances s (c.foldl (Service.step parseUrl sha256) s) := by
  induction c generalizing s with
  | nil => exact .refl s
  | cons ca c ih =>
    obtain ⟨hs, ha⟩ := step_sound parseUrl sha256 h hf.1
    exact ha.trans (ih hs hf.2) h.drawn

/-- In every run of registry operations, whatever befalls them: the registry stays loadable;
attempts keep their distances, and none follows a revocation; each submission is for a paired
and enabled device under its current installation, newer than what it was sent; submitted
generations do not decrease; and a delivery pass is such a sequence of attempts. -/
theorem deliveries_orderly {file : RegistryState} (hfile : Loadable file) (hids : file.ids.Nodup)
    {calls : List Call}
    (hfresh : Throughout (Service.step parseUrl sha256) FreshIds (.start file) calls) :
    Always (Service.step parseUrl sha256)
        (fun service => Loadable service.world.file ∧ Orderly service.log) (.start file) calls ∧
      Throughout (Service.step parseUrl sha256) (SendsRightly parseUrl sha256) (.start file) calls ∧
      (∀ before after, calls = before ++ after →
        Advances (before.foldl (Service.step parseUrl sha256) (.start file))
          (calls.foldl (Service.step parseUrl sha256) (.start file))) ∧
      ∀ latest nowMs send faults (service : Service), ∃ pass : List Call,
        pass.map (·.operation) <+: passOperations latest nowMs send 0
          ((service.world.file.devices.map (·.status)).insertionSort (·.deviceId ≤ ·.deviceId)) ∧
        (deliverNotifications latest nowMs send).leaves faults service.world =
          (pass.foldl (Service.step parseUrl sha256) service).world := by
  have ht := sound_start hfile hids
  have hs : Always (Service.step parseUrl sha256) Sound (.start file) calls :=
    always_of_throughout (fun service c h hc => (step_sound parseUrl sha256 h hc).1) ht hfresh
  refine ⟨hs.mono fun service h => ⟨h.loadable, h.orderly⟩, ?_, ?_,
    deliverNotifications_attempts parseUrl sha256⟩
  · exact hs.throughout fun service c h => h.sendsRightly parseUrl sha256 c
  · rintro before after rfl
    rw [foldl_append]
    exact run_advances (always_append.mp hs).2.first (throughout_append.mp hfresh).2

end
/-- A paired phone with a registered installation, under a ready sender. -/
def registeredPhone : RegistryState where
  schemaVersion := 3
  pending := []
  devices := [⟨⟨"phone", "phone", 1, none⟩, "",
      some ⟨some "abcdefghijklmnopqrstuv", true, none, 0, 0⟩⟩]
  health := .ready

/-- An attempt on the phone for generation seven. -/
def attemptPhone (nowMs : UInt64) (outcome : Except NotificationFailure Unit)
    (faults : List Fault) : Call :=
  ⟨.attempt "phone" nowMs (.ok (some 7)) fun _ _ => outcome, faults⟩

/-- An attempt that fails, one that comes too early, one that is due, and a revocation. -/
def phoneCalls : List Call :=
  [attemptPhone 1 (.error (.transient 5)) [], attemptPhone 60000 (.ok ()) [],
    attemptPhone 60001 (.ok ()) [], ⟨.revoke "phone", []⟩]

theorem deliveries_orderly_phone : Always (Service.step cleanUrl sampleHash)
        (fun service => Loadable service.world.file ∧ Orderly service.log)
        (.start registeredPhone) phoneCalls ∧ Throughout (Service.step cleanUrl sampleHash)
      (SendsRightly cleanUrl sampleHash) (.start registeredPhone) phoneCalls := by
  have hf : Throughout (Service.step cleanUrl sampleHash) FreshIds (.start registeredPhone)
      phoneCalls :=
    ⟨fun _ h => absurd h not_mem_nil, fun _ h => absurd h not_mem_nil,
      fun _ h => absurd h not_mem_nil, fun _ h => absurd h not_mem_nil, trivial⟩
  have h := deliveries_orderly cleanUrl sampleHash ⟨rfl, by decide +kernel⟩ (by decide) hf
  exact ⟨h.1, h.2.1⟩

/-- The early attempt sends nothing. -/
example : (phoneCalls.foldl (Service.step cleanUrl sampleHash) (.start registeredPhone)).log =
    [.revoked "phone", .attempted "phone" "abcdefghijklmnopqrstuv" 7 60001 (.ok ()) true,
      .attempted "phone" "abcdefghijklmnopqrstuv" 7 1 (.error (.transient 5)) true] := by
  decide +kernel

/-- An attempt whose process dies before it can keep the outcome: the provider's minimum is
forgotten, and the next attempt follows after the local delay alone. -/
theorem cut_attempt_forgets_minimum : ¬ ∀ calls : List Call,
      Throughout (Service.step cleanUrl sampleHash) FreshIds (.start registeredPhone) calls →
        ∀ deviceId fid later generation next (nowMs nextMs : UInt64) failure outcome kept again
          newer older,
          (calls.foldl (Service.step cleanUrl sampleHash) (.start registeredPhone)).log =
            newer ++ .attempted deviceId later next nextMs outcome again ::
              .attempted deviceId fid generation nowMs (.error failure) kept :: older →
          nowMs.toNat + delayMs (streak deviceId older + 1) ≤ nextMs.toNat ∧
            nowMs.toNat + failure.minimumMs ≤ nextMs.toNat := by
  intro h
  have hl := h [attemptPhone 1 (.error (.transient 1000000)) [.none, .none, .none, .none, .crash],
      attemptPhone 60001 (.ok ()) []]
    ⟨fun _ h => absurd h not_mem_nil, fun _ h => absurd h not_mem_nil, trivial⟩
    "phone" "abcdefghijklmnopqrstuv" "abcdefghijklmnopqrstuv" 7 7 1 60001 (.transient 1000000)
    (.ok ()) false true [] [] (by decide +kernel)
  exact absurd hl.2 (by decide)

end Louiselm.Pairing
