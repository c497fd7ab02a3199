import Mathlib.Algebra.Group.Nat.Defs
import Louiselm.Pairing.Tokens

/-!
# The operations of the registry and what they leave

Every operation of `capture-service/src/pairing.rs` and `notifications.rs` that holds the
registry's lock, each with what may befall its reads and writes. A delivery pass takes the
lock once for each device, so a pass is a sequence of attempts. What the registry keeps of a
device's notifications is its registration, listed under the device's id.
-/

namespace Louiselm.Pairing
open Base Canonical List
open Base.Program RegistryState

/-! ### Operations -/

/-- One operation under the registry's lock, with what it draws and what it is told; an
attempt is one device's part of a delivery pass. -/
inductive Operation where
  | issue (receiverUrl identity : String) (nowMs ttlMs : UInt64) (token : String)
  | consume (token deviceName : String) (nowMs : UInt64) (deviceId credential : String)
  | recordDelivery (deviceId : String) (nowMs : UInt64)
  | revoke (deviceId : String)
  | register (credential fid : String)
  | configure (health : NotificationHealth)
  | retry
  | attempt (deviceId : String) (nowMs : UInt64) (latest : Except PairingError (Option UInt64))
      (send : String → UInt64 → Except NotificationFailure Unit)

/-- One operation and what befalls its reads and writes. -/
structure Call where
  operation : Operation
  faults : List Fault

/-- The check of the time that a delivery pass makes before its first attempt. -/
def positiveTime (nowMs : UInt64) : Action Unit :=
  Program.ofExcept (require (nowMs != 0) (.rejected "notification timestamp must be positive"))

section

variable (parseUrl : String → Option ReceiverUrl) (sha256 : Sha256)

/-- Run an operation, whatever it answers. -/
def perform : Operation → Action Unit
  | .issue receiverUrl identity nowMs ttlMs token => do
    let _ ← issue parseUrl sha256 receiverUrl identity nowMs ttlMs token
  | .consume token deviceName nowMs deviceId credential => do
    let _ ← consume sha256 token deviceName nowMs deviceId credential
  | .recordDelivery deviceId nowMs => recordDelivery deviceId nowMs
  | .revoke deviceId => revoke deviceId
  | .register credential fid => registerNotificationInstallation sha256 credential fid
  | .configure health => configureNotifications health
  | .retry => retryNotifications
  | .attempt deviceId nowMs latest send => do
    positiveTime nowMs
    let _ ← deliverOne latest nowMs send deviceId

end

/-! ### Progress -/

/-- The registrations under the ids of their devices. -/
abbrev Progress := List (String × Option NotificationRegistration)

def RegistryState.progress (state : RegistryState) : Progress :=
  state.devices.map fun device => (device.status.deviceId, device.notification)

def RegistryState.ids (state : RegistryState) : List String :=
  state.devices.map (·.status.deviceId)

namespace Progress

/-- What is registered for a device. -/
def registrationOf (progress : Progress) (deviceId : String) : Option NotificationRegistration :=
  (progress.find? (·.1 == deviceId)).bind (·.2)

/-- The same with another registration for one device. -/
def set (progress : Progress) (deviceId : String) (registration : NotificationRegistration) :
    Progress :=
  progress.map fun entry => if entry.1 == deviceId then (entry.1, some registration) else entry

/-- Each registration is valid and no installation is registered twice. -/
structure Valid (progress : Progress) : Prop where
  each : ∀ entry ∈ progress, ∀ registration, entry.2 = some registration → registration.valid = true
  installations : (progress.filterMap fun entry => entry.2.bind (·.fid)).Nodup

variable {pr : Progress} {di x : String} {registration : NotificationRegistration}

@[simp] theorem map_fst_set : (pr.set di registration).map (·.1) = pr.map (·.1) := by
  unfold set
  rw [map_map]
  refine map_congr_left fun e _ => ?_
  simp only [Function.comp_apply]
  split <;> rfl

/-- A device in the listing has the registration that it was given. -/
theorem registrationOf_set_self (h : di ∈ pr.map (·.1)) :
    (pr.set di registration).registrationOf di = some registration := by
  unfold registrationOf set
  induction pr with
  | nil => simp at h
  | cons e xs ih =>
    rw [map_cons, List.find?_cons]
    by_cases hi : e.1 = di
    · simp [hi]
    · have hr : di ∈ xs.map (·.1) := by
        rw [map_cons, mem_cons] at h
        exact h.resolve_left fun heq => hi heq.symm
      have he : (e.1 == di) = false := beq_eq_false_iff_ne.mpr hi
      rw [if_neg (by simpa using hi), he]
      exact ih hr

/-- No other device is changed. -/
theorem registrationOf_set_of_ne (h : x ≠ di) :
    (pr.set di registration).registrationOf x = pr.registrationOf x := by
  unfold registrationOf set
  induction pr with
  | nil => rfl
  | cons e xs ih =>
    rw [map_cons, List.find?_cons, List.find?_cons]
    by_cases hi : e.1 = x
    · simp [hi, h]
    · have hk : ((if e.1 == di then (e.1, some registration) else e).1 == x) = false := by
        split <;> simpa using hi
      rw [hk, beq_eq_false_iff_ne.mpr hi]
      exact ih

theorem set_set {l : NotificationRegistration} :
    (pr.set di registration).set di l = pr.set di l := by
  unfold set
  rw [map_map]
  refine map_congr_left fun e _ => ?_
  simp only [Function.comp_apply]
  split <;> simp_all

/-- A registration that is found is one in the listing. -/
theorem mem_of_registrationOf (h : pr.registrationOf di = some registration) :
    (di, some registration) ∈ pr := by
  obtain ⟨e, he, hr⟩ := Option.bind_eq_some_iff.mp h
  have hi := List.find?_some he
  have hm := mem_of_find?_eq_some he
  rw [beq_iff_eq] at hi
  rw [← hi, ← hr]
  exact hm

theorem registrationOf_eq_none (h : di ∉ pr.map (·.1)) : pr.registrationOf di = none := by
  unfold registrationOf
  rw [Option.bind_eq_none_iff]
  intro e he
  have hi := List.find?_some he
  exact absurd (mem_map.mpr ⟨e, mem_of_find?_eq_some he, beq_iff_eq.mp hi⟩) h

/-- With no id twice, a device has the registration it is listed with. -/
theorem registrationOf_of_mem (hd : (pr.map (·.1)).Nodup) {f : Option NotificationRegistration}
    (hm : (di, f) ∈ pr) : pr.registrationOf di = f := by
  unfold registrationOf
  cases hf : pr.find? (·.1 == di) with
  | none => exact absurd (List.find?_eq_none.mp hf _ hm) (by simp)
  | some e =>
    have hi := List.find?_some hf
    rw [beq_iff_eq] at hi
    have hs := inj_on_of_nodup_map hd (mem_of_find?_eq_some hf) hm hi
    rw [hs]
    rfl

/-- With no id twice, what the listing has of a device is what is registered for it. -/
theorem eq_of_mem (hi : (pr.map (·.1)).Nodup) {e : String × Option NotificationRegistration}
    (hm : e ∈ pr) (h : pr.registrationOf e.1 = some registration) : e.2 = some registration := by
  have hf := mem_of_registrationOf h
  have hs := inj_on_of_nodup_map hi hm hf rfl
  rw [hs]

/-- Another valid registration with the same installation keeps a listing valid. -/
theorem Valid.set_same (h : Valid pr) (hd : (pr.map (·.1)).Nodup) (hv : registration.valid = true)
    {c : NotificationRegistration} (hc : pr.registrationOf di = some c)
    (hfid : registration.fid = c.fid) : Valid (pr.set di registration) := by
  constructor
  · intro e he f hf
    obtain ⟨pre, hb, rfl⟩ := mem_map.mp he
    split at hf
    · rw [← Option.some.inj hf]
      exact hv
    · exact h.each pre hb f hf
  · unfold set
    rw [filterMap_map]
    refine (filterMap_congr fun e he => ?_).symm ▸ h.installations
    simp only [Function.comp_apply]
    split
    · next hi =>
      rw [beq_iff_eq] at hi
      subst hi
      rw [eq_of_mem hd he hc, Option.bind_some, Option.bind_some, hfid]
    · rfl

/-- A valid registration whose installation no other device has keeps a listing valid. -/
theorem Valid.set_fresh (h : Valid pr) (hs : (pr.map (·.1)).Nodup) (hv : registration.valid = true)
    (hfr : ∀ e ∈ pr, e.1 ≠ di → ∀ fid, registration.fid = some fid →
      e.2.bind (·.fid) ≠ some fid) : Valid (pr.set di registration) := by
  constructor
  · intro e he f hf
    obtain ⟨pre, hbef, rfl⟩ := mem_map.mp he
    split at hf
    · rw [← Option.some.inj hf]
      exact hv
    · exact h.each pre hbef f hf
  · have hi := h.installations
    unfold set
    rw [filterMap_map]
    unfold List.Nodup at hi hs ⊢
    rw [pairwise_filterMap] at hi ⊢
    rw [pairwise_map] at hs
    refine (hi.and hs).imp_of_mem fun {l r} hle hri hb => ?_
    obtain ⟨ha, hn⟩ := hb
    intro fid hd f' hf' heq
    subst heq
    simp only [Function.comp_apply] at hd hf'
    split at hd
    · next hl =>
      rw [beq_iff_eq] at hl
      have hr : r.1 ≠ di := fun hr => hn (hl.trans hr.symm)
      rw [if_neg (by simpa using hr)] at hf'
      exact hfr r hri hr fid hd hf'
    · next hl =>
      split at hf'
      · exact hfr l hle (by simpa using hl) fid hf' hd
      · exact ha fid hd fid hf' rfl

end Progress

section

variable {s : RegistryState} {dei : String} {registration : NotificationRegistration}

@[simp] theorem progress_map_fst : s.progress.map (·.1) = s.ids := by
  unfold progress ids
  rw [map_map]
  rfl

theorem registrationOf_progress : s.registrationOf dei = s.progress.registrationOf dei := by
  unfold registrationOf Progress.registrationOf progress
  rw [List.find?_map]
  have hs : ((fun e : String × Option NotificationRegistration => e.1 == dei) ∘
      fun d : DeviceRecord => (d.status.deviceId, d.notification)) =
        fun d => d.status.deviceId == dei := rfl
  rw [hs]
  cases s.devices.find? (·.status.deviceId == dei) with
  | none => rfl
  | some d => rfl

/-- Changing the first of the devices whose ids differ is changing the one with an id. -/
private theorem map_modifyFirst {ds : List DeviceRecord}
    (hi : (ds.map (·.status.deviceId)).Nodup) : (modifyFirst (·.status.deviceId == dei)
        (fun device => { device with notification := some registration }) ds).map
      (fun device => (device.status.deviceId, device.notification)) =
    Progress.set (ds.map fun device => (device.status.deviceId, device.notification)) dei
      registration := by
  induction ds with
  | nil => rfl
  | cons device ds ih =>
    rw [map_cons, nodup_cons] at hi
    unfold Progress.set at ih ⊢
    by_cases hd : device.status.deviceId = dei
    · have hr : ∀ o ∈ ds, o.status.deviceId ≠ dei := fun o ho heq =>
        hi.1 (hd ▸ heq ▸ mem_map_of_mem ho)
      simp only [modifyFirst, hd, beq_self_eq_true, if_true, map_cons, map_map]
      congr 1
      refine map_congr_left fun o ho => ?_
      simp [hr o ho]
    · simp only [modifyFirst, beq_eq_false_iff_ne.mpr hd, map_cons]
      rw [if_neg Bool.false_ne_true, map_cons, if_neg Bool.false_ne_true, ih hi.2]

theorem progress_setRegistration (hi : s.ids.Nodup) :
    (s.setRegistration dei registration).progress =
      s.progress.set dei registration :=
  map_modifyFirst hi

theorem ids_setRegistration (hi : s.ids.Nodup) :
    (s.setRegistration dei registration).ids = s.ids := by
  rw [← progress_map_fst, progress_setRegistration hi, Progress.map_fst_set, progress_map_fst]

/-- The stored-state check is one of the listing. -/
theorem validateState_iff : validateState s = .ok () ↔ s.progress.Valid := by
  have hr : s.registrations = s.progress.filterMap (·.2) := by
    unfold registrations progress
    rw [filterMap_map]
    rfl
  have hi : s.registrations.filterMap (·.fid) = s.progress.filterMap fun e => e.2.bind (·.fid) := by
    rw [hr, filterMap_filterMap]
  unfold validateState
  rw [require_ok, Bool.and_eq_true, decide_eq_true_eq, hi, hr, all_eq_true]
  constructor
  · intro h
    exact ⟨fun e he f hf => h.1 f (mem_filterMap.mpr ⟨e, he, hf⟩), h.2⟩
  · intro h
    refine ⟨fun f hf => ?_, h.installations⟩
    obtain ⟨e, he, heq⟩ := mem_filterMap.mp hf
    exact h.each e he f heq

theorem loadable_iff : Loadable s ↔ s.schemaVersion = 3 ∧ s.progress.Valid :=
  and_congr_right fun _ => validateState_iff

end
/-! ### What an operation leaves -/

/-- The file is as before, or changed in one of the ways of `Q`; nothing is sent. -/
def Quietly {α : Type} (world : World) (Q : RegistryState → Prop) :
    Program.Post World PairingError α where
  value _ after := after.sent = world.sent ∧ Q after.file
  error _ after := after = world ∨ (after.sent = world.sent ∧ Q after.file)
  crashed after := after = world ∨ (after.sent = world.sent ∧ Q after.file)

variable {world : World} {Q : RegistryState → Prop}

theorem wp_load {p : Program.Post World PairingError RegistryState} (hv : p.value world.file world)
    (he : ∀ e, p.error e world) (hc : p.crashed world) : Wp load p world := by
  unfold load
  refine wp_bind (wp_query ?_ (fun _ _ => he _) (he _) hc)
  intro st hs
  cases hs
  refine wp_bind (wp_ofExcept (fun _ _ => ?_) (fun _ _ => he _))
  refine wp_bind (wp_ofExcept (fun _ _ => ?_) (fun _ _ => he _))
  exact wp_pure.mpr hv

/-- What holds of an operation from the file as it was read holds under the lock. -/
theorem wp_withState {α : Type} {sa : Bool} {o : RegistryState → Action (α × RegistryState)}
    {p : Program.Post World PairingError α} (hs : ∀ e, p.error e world) (hc : p.crashed world)
    (h : Wp (o world.file >>= fun (r, st) => do
      if sa then persist st
      probe .io
      return r) p world) : Wp (withState sa o) p world := by
  unfold withState
  refine wp_bind (wp_probe ?_ (hs _) hc)
  exact wp_bind (wp_load h hs hc)

theorem wp_decided {α : Type} {d : RegistryState → Except PairingError (α × RegistryState)}
    (h : ∀ a st, d world.file = .ok (a, st) → Q st) :
    Wp (withState true (decided d)) (Quietly world Q) world := by
  refine wp_withState (fun _ => .inl rfl) (.inl rfl) ?_
  refine wp_bind (wp_ofExcept ?_ (fun _ _ => .inl rfl))
  rintro ⟨a, st⟩ hd
  have hq : Q st := h a st hd
  refine wp_bind (wp_write ?_ (.inl rfl) (.inr ⟨rfl, hq⟩) (.inl rfl))
  refine wp_bind (wp_probe ?_ (.inr ⟨rfl, hq⟩) (.inr ⟨rfl, hq⟩))
  exact wp_pure.mpr ⟨rfl, hq⟩

/-- A check that stands before an operation changes nothing of what it leaves. -/
theorem wp_checked {α : Type} {c : Except PairingError Unit} {p : Action α}
    (h : Wp p (Quietly world Q) world) : Wp (ofExcept c >>= fun _ => p) (Quietly world Q) world :=
  wp_bind (wp_ofExcept (fun _ _ => h) (fun _ _ => .inl rfl))

theorem wp_discard {α : Type} {p : Action α} (h : Wp p (Quietly world Q) world) :
    Wp (p >>= fun _ => pure ()) (Quietly world Q) world :=
  wp_bind (h.mono (fun _ _ hv => wp_pure.mpr hv) (fun _ _ he => he) (fun _ hc => hc))

/-- The device that a bearer belongs to. -/
def registrant (sha256 : Sha256) (credential : String) (state : RegistryState) : Option String :=
  (state.devices.find? (·.credentialSha256 == hash sha256 credential)).map (·.status.deviceId)

/-- How a registration leaves the listing: as it was, or with one that starts anew for the
bearer's device, whose installation no other device has. -/
def Registers (sha256 : Sha256) (credential fid : String) (state after : RegistryState) : Prop :=
  after = state ∨ ∃ deviceId, registrant sha256 credential state = some deviceId ∧
    (∀ entry ∈ state.progress, entry.1 ≠ deviceId → entry.2.bind (·.fid) ≠ some fid) ∧
    after.progress = state.progress.set deviceId ⟨some fid, true,
      (state.progress.registrationOf deviceId).bind (·.submittedGeneration), 0, 0⟩

/-- What an operation that sends nothing may change of the file. -/
def Changes (sha256 : Sha256) (operation : Operation) (state after : RegistryState) : Prop :=
  after.schemaVersion = state.schemaVersion ∧
    match operation with
    | .consume _ _ _ deviceId _ => after.progress = state.progress ++ [(deviceId, none)]
    | .revoke deviceId => deviceId ∈ state.ids ∧
      after.progress = state.progress.filter (·.1 != deviceId)
    | .register credential fid => validFid fid = true ∧ Registers sha256 credential fid state after
    | _ => after.progress = state.progress

/-- An attempt is the only operation that sends. -/
def Operation.quiet : Operation → Bool
  | .attempt .. => false
  | _ => true

variable {registration : NotificationRegistration}

private theorem modify_progress {ds : List DeviceRecord} {i : Nat} {device : DeviceRecord}
    (hi : (ds.map (·.status.deviceId)).Nodup) (hd : ds[i]? = some device) :
    (ds.modify i fun device => { device with notification := some registration }).map
      (fun device => (device.status.deviceId, device.notification)) =
    Progress.set (ds.map fun device => (device.status.deviceId, device.notification))
      device.status.deviceId registration := by
  induction ds generalizing i with
  | nil => simp at hd
  | cons head ds ih =>
    rw [map_cons, nodup_cons] at hi
    unfold Progress.set at ih ⊢
    cases i with
    | zero =>
      rw [List.getElem?_cons_zero, Option.some.injEq] at hd
      subst hd
      simp only [modify_zero_cons, map_cons, beq_self_eq_true, if_true, map_map]
      congr 1
      refine map_congr_left fun o ho => ?_
      have hn : o.status.deviceId ≠ head.status.deviceId := fun heq =>
        hi.1 (heq ▸ mem_map_of_mem ho)
      simp [hn]
    | succ i =>
      rw [List.getElem?_cons_succ] at hd
      have hn : head.status.deviceId ≠ device.status.deviceId := fun heq =>
        hi.1 (heq ▸ mem_map_of_mem (mem_of_getElem? hd))
      simp only [modify_succ_cons, map_cons, beq_eq_false_iff_ne.mpr hn, ih hi.2 hd]
      rw [if_neg Bool.false_ne_true]

/-- A registration starts anew for the bearer's device or changes nothing. -/
theorem registerInstallation_changes {sha256 : Sha256} {c fid : String} {st l : RegistryState}
    (hids : st.ids.Nodup) (h : registerInstallation sha256 c fid st = .ok ((), l)) :
    l.schemaVersion = st.schemaVersion ∧ Registers sha256 c fid st l := by
  unfold registerInstallation at h
  split at h
  · simp at h
  · next ind hx =>
    obtain ⟨hl, hc, hf⟩ := List.findIdx?_eq_some_iff_getElem.mp hx
    have hd : st.devices[ind]? = some st.devices[ind] :=
      List.getElem?_eq_getElem hl
    split at h
    · simp at h
    · next ht =>
      dsimp only at h
      split at h
      · cases h
        exact ⟨rfl, .inl rfl⟩
      · cases h
        refine ⟨rfl, .inr ⟨st.devices[ind].status.deviceId, ?_, ?_, ?_⟩⟩
        · have hfi : st.devices.find? (·.credentialSha256 == hash sha256 c) =
              some st.devices[ind] :=
            List.find?_eq_some_iff_getElem.mpr ⟨hc, ind, hl, rfl, fun j hj => by
              simpa using hf j hj⟩
          rw [registrant, hfi]
          rfl
        · intro e he hne heq
          obtain ⟨o, ho, rfl⟩ := mem_map.mp he
          obtain ⟨i, hi, rfl⟩ := mem_iff_getElem.mp ho
          have hin : i ≠ ind := fun hs => hne (by simp only [hs])
          refine ht (any_eq_true.mpr ⟨st.devices[i],
            mem_eraseIdx_iff_getElem.mpr ⟨i, hi, hin, rfl⟩, ?_⟩)
          obtain ⟨registration, hso, hfid⟩ := Option.bind_eq_some_iff.mp heq
          rw [show st.devices[i].notification = some registration from hso]
          simp [hfid]
        · have hr : st.progress.registrationOf st.devices[ind].status.deviceId =
              st.devices[ind].notification := by
            have hm : (st.devices[ind].status.deviceId, st.devices[ind].notification) ∈
                st.progress := mem_map.mpr ⟨_, getElem_mem hl, rfl⟩
            have hn : (st.progress.map (·.1)).Nodup := progress_map_fst ▸ hids
            exact Progress.registrationOf_of_mem hn hm
          rw [hd, Option.bind_some, hr]
          exact modify_progress hids hd

section

variable (parseUrl : String → Option ReceiverUrl) (sha256 : Sha256) {op : Operation}

/-- What an operation that sends nothing leaves, wherever it stops. -/
theorem wp_perform_quiet (hq : op.quiet = true) (hi : world.file.ids.Nodup) :
    Wp (perform parseUrl sha256 op) (Quietly world (Changes sha256 op world.file)) world := by
  cases op with
  | issue receiverUrl identity nowMs ttlMs token =>
    refine wp_discard (wp_checked (wp_decided fun offer state ht => ?_))
    cases ht
    exact ⟨rfl, rfl⟩
  | consume token deviceName nowMs deviceId credential =>
    refine wp_discard (wp_checked (wp_decided fun device state ht => ?_))
    unfold consumeOffer at ht
    split at ht
    · simp at ht
    · cases ht
      refine ⟨rfl, ?_⟩
      simp [progress]
  | recordDelivery deviceId nowMs =>
    refine wp_checked (wp_decided fun _ state ht => ?_)
    obtain ⟨-, ht⟩ := check_ok.mp ht
    cases ht
    refine ⟨rfl, ?_⟩
    show List.map _ (modifyFirst _ (setDelivery nowMs) world.file.devices) = _
    unfold progress
    induction world.file.devices with
    | nil => rfl
    | cons device devices ih =>
      unfold modifyFirst
      split
      · rfl
      · rw [map_cons, map_cons, ih]
  | revoke deviceId =>
    refine wp_decided fun _ state ht => ?_
    obtain ⟨hk, ht⟩ := check_ok.mp ht
    cases ht
    refine ⟨rfl, ?_, ?_⟩
    · by_contra hu
      refine bne_iff_ne.mp (require_ok.mp hk) (congrArg List.length (Eq.symm ?_))
      refine filter_eq_self.mpr fun device hd => bne_iff_ne.mpr fun heq => hu ?_
      exact mem_map.mpr ⟨device, hd, heq⟩
    · simp only [progress, filter_map]
      rfl
  | register credential fid =>
    refine wp_bind (wp_ofExcept (fun _ hf => ?_) (fun _ _ => .inl rfl))
    have hv : validFid fid = true := require_ok.mp hf
    refine wp_decided fun _ state ht => ?_
    obtain ⟨he, hr⟩ := registerInstallation_changes hi ht
    exact ⟨he, hv, hr⟩
  | configure health =>
    refine wp_withState (fun _ => .inl rfl) (.inl rfl) ?_
    have hc : Changes sha256 (.configure health) world.file { world.file with health } :=
      ⟨rfl, rfl⟩
    have hs : Changes sha256 (.configure health) world.file world.file := ⟨rfl, rfl⟩
    dsimp only
    split
    · refine wp_bind (wp_bind (wp_write ?_ (.inl rfl) (.inr ⟨rfl, hc⟩) (.inl rfl)))
      refine wp_pure.mpr (wp_bind (wp_probe ?_ (.inr ⟨rfl, hc⟩) (.inr ⟨rfl, hc⟩)))
      exact wp_pure.mpr ⟨rfl, hc⟩
    · refine wp_bind (wp_pure.mpr (wp_bind (wp_probe ?_ (.inl rfl) (.inl rfl))))
      exact wp_pure.mpr ⟨rfl, hs⟩
  | retry =>
    refine wp_decided fun _ state ht => ?_
    obtain ⟨-, ht⟩ := check_ok.mp ht
    cases ht
    exact ⟨rfl, rfl⟩
  | attempt deviceId nowMs latest send => simp [Operation.quiet] at hq

end

/-! ### What an attempt leaves -/

/-- A device is due for a generation, under its current installation. -/
structure DueFor (state : RegistryState) (deviceId : String) (nowMs : UInt64)
    (registration : NotificationRegistration) (fid : String) (generation : UInt64) : Prop where
  ready : state.health = .ready
  positive : nowMs ≠ 0 ∧ generation ≠ 0
  registered : state.registrationOf deviceId = some registration
  due : registration.due nowMs generation = true
  installation : registration.fid = some fid

/-- The registration after the outcome of a submission. -/
def NotificationRegistration.settled (registration : NotificationRegistration)
    (nowMs generation : UInt64) : Except NotificationFailure Unit → NotificationRegistration
  | .ok () =>
    { registration with submittedGeneration := some generation, retryAtMs := 0, attempts := 0 }
  | .error (.transient retryAfterMs) =>
    { registration with
      retryAtMs := max registration.retryAtMs (saturatingAdd nowMs retryAfterMs) }
  | .error .invalidInstallation => { registration with enabled := false }
  | .error .authentication => registration
  | .error .configuration => registration

theorem settle_progress {st : RegistryState} {deviceId : String} (hi : st.ids.Nodup)
    (hs : st.progress.set deviceId registration = st.progress) (ms g : UInt64)
    (o : Except NotificationFailure Unit) :
    (settle deviceId registration ms g st o).2.schemaVersion = st.schemaVersion ∧
      (settle deviceId registration ms g st o).2.progress =
        st.progress.set deviceId (registration.settled ms g o) := by
  rcases o with (ram | _ | _ | _) | _
  · exact ⟨rfl, progress_setRegistration hi⟩
  · exact ⟨rfl, progress_setRegistration hi⟩
  · exact ⟨rfl, hs.symm⟩
  · exact ⟨rfl, hs.symm⟩
  · exact ⟨rfl, progress_setRegistration hi⟩

/-- How an attempt leaves the registry: as it was; with the attempt counted and nothing sent;
or sent to, with the attempt counted and, unless the attempt was cut, its outcome. -/
inductive Attempts (world : World) (deviceId : String) (nowMs : UInt64)
    (send : String → UInt64 → Except NotificationFailure Unit) : Bool → World → Prop where
  | untouched (returned : Bool) : Attempts world deviceId nowMs send returned world
  | counted {registration fid generation after}
    (due : DueFor world.file deviceId nowMs registration fid generation)
    (version : after.file.schemaVersion = world.file.schemaVersion)
    (progress : after.file.progress =
      world.file.progress.set deviceId (registration.attempted nowMs))
    (sent : after.sent = world.sent) : Attempts world deviceId nowMs send false after
  | cut {registration fid generation after}
    (due : DueFor world.file deviceId nowMs registration fid generation)
    (version : after.file.schemaVersion = world.file.schemaVersion)
    (progress : after.file.progress =
      world.file.progress.set deviceId (registration.attempted nowMs))
    (sent : after.sent = world.sent ++ [⟨fid, generation⟩]) :
    Attempts world deviceId nowMs send false after
  | settled (returned : Bool) {registration fid generation after}
    (due : DueFor world.file deviceId nowMs registration fid generation)
    (version : after.file.schemaVersion = world.file.schemaVersion)
    (progress : after.file.progress = world.file.progress.set deviceId
      ((registration.attempted nowMs).settled nowMs generation (send fid generation)))
    (sent : after.sent = world.sent ++ [⟨fid, generation⟩]) :
    Attempts world deviceId nowMs send returned after

/-- Wherever an attempt stops, it leaves the registry in one of these ways. -/
theorem wp_attempt {la : Except PairingError (Option UInt64)} {ms : UInt64}
    {se : String → UInt64 → Except NotificationFailure Unit} {deviceId : String}
    (hi : world.file.ids.Nodup) (hp : ms ≠ 0) : Wp (deliverOne la ms se deviceId)
      ⟨fun _ => Attempts world deviceId ms se true, fun _ => Attempts world deviceId ms se false,
        Attempts world deviceId ms se false⟩ world := by
  have he : ∀ (b : Bool) (l : World), Attempts world deviceId ms se true l →
      Attempts world deviceId ms se false l → Wp (do
        probe PairingError.io
        return b)
        ⟨fun _ => Attempts world deviceId ms se true, fun _ => Attempts world deviceId ms se false,
          Attempts world deviceId ms se false⟩ l := fun b l hr ht =>
    wp_bind (wp_probe (wp_pure.mpr hr) ht ht)
  have hs : ∀ b : Bool, Attempts world deviceId ms se b world := fun b => .untouched b
  refine wp_withState (fun _ => hs _) (hs _) (wp_bind ?_)
  dsimp only
  split
  · exact wp_pure.mpr (he _ _ (hs _) (hs _))
  · next hre =>
    refine wp_bind (wp_ofExcept (fun a _ => ?_) fun _ _ => hs _)
    cases a with
    | none => exact wp_pure.mpr (he _ _ (hs _) (hs _))
    | some g =>
      refine wp_bind (wp_ofExcept (fun _ hg => ?_) fun _ _ => hs _)
      dsimp only
      split
      · exact wp_pure.mpr (he _ _ (hs _) (hs _))
      · next registration hreg =>
        split
        · exact wp_pure.mpr (he _ _ (hs _) (hs _))
        · next hu =>
          split
          · exact wp_pure.mpr (he _ _ (hs _) (hs _))
          · next fid hfid =>
            have hf : DueFor world.file deviceId ms registration fid g :=
              ⟨not_not.mp hre, ⟨hp, bne_iff_ne.mp (require_ok.mp hg)⟩,
                hreg, by simpa using hu, hfid⟩
            have hc : (world.file.setRegistration deviceId (registration.attempted ms)).progress =
                  world.file.progress.set deviceId (registration.attempted ms) :=
              progress_setRegistration hi
            have hi' : (world.file.setRegistration deviceId
                (registration.attempted ms)).ids.Nodup := by
              rwa [ids_setRegistration hi]
            obtain ⟨hv, hse⟩ := settle_progress hi' (by rw [hc, Progress.set_set]) ms g (se fid g)
            rw [hc, Progress.set_set] at hse
            have hd : ∀ b : Bool, Attempts world deviceId ms se b
                ⟨(settle deviceId (registration.attempted ms) ms g
                  (world.file.setRegistration deviceId (registration.attempted ms))
                  (se fid g)).2, world.sent ++ [⟨fid, g⟩]⟩ := fun b =>
              .settled b hf hv hse rfl
            refine wp_bind (wp_write ?_ (hs _) (.counted hf rfl hc rfl) (hs _))
            refine wp_bind (wp_effect ?_ (.counted hf rfl hc rfl))
            refine wp_bind (wp_write ?_ (.cut hf rfl hc rfl) (hd _) (.cut hf rfl hc rfl))
            exact wp_pure.mpr (he _ _ (hd _) (hd _))

end Louiselm.Pairing
