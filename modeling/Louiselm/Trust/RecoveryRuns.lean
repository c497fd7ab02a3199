import Louiselm.Trust.Recovery

/-!
# Trust only moves forward

Runs of the operations of `Trust/Recovery` on one file of roles: what is retired stays retired,
what was current is current or retired, and nothing retired is current.
-/

namespace Louiselm.Trust
open Base Canonical List
open Admission (Role)
open Endorsement (SkPolicy SshsigVerify)
open TrustStore Roles
open Option (some.inj)
open Except (ok.inj)

/-- One authority of a trust domain. -/
inductive Authority where
  | signingKey (publicKey : String)
  | paper (verifier : String)
  | passkey (fingerprint : String)

section

variable {V : Type} (w : Webauthn V) (sha256 : Sha256)

/-- What a store accepts now. -/
def TrustStore.IsCurrent (trust : TrustStore V) : Authority → Prop
  | .signingKey publicKey => publicKey ∈ trust.keys.map (·.publicKey)
  | .paper verifier => trust.paperVerifier = some verifier
  | .passkey id => ∃ passkey, trust.passkey = some passkey ∧ passkey.fingerprint w sha256 = .ok id

/-- What a store has replaced. -/
def TrustStore.IsRetired (trust : TrustStore V) : Authority → Prop
  | .signingKey publicKey => publicKey ∈ trust.retired.map (·.publicKey)
  | .paper verifier => verifier ∈ trust.retiredPaperVerifiers
  | .passkey id => id ∈ trust.retiredPasskeys

/-- The store loads, has at most one key a role, and all its keys are distinct. -/
structure Sound (trust : TrustStore V) : Prop where
  loads : load w sha256 (some trust) = .ok (some trust)
  roles : (trust.keys.map (·.role)).Nodup
  distinct : ((trust.keys ++ trust.retired).map (·.publicKey)).Nodup

/-- No authority is lost between two states: it stays current or is retired for good. -/
structure Forward (before after : TrustStore V) : Prop where
  retired : ∀ authority, before.IsRetired authority → after.IsRetired authority
  current : ∀ authority, before.IsCurrent w sha256 authority →
    after.IsCurrent w sha256 authority ∨ after.IsRetired authority

variable {w sha256} {t o next : TrustStore V}

theorem Forward.refl (t : TrustStore V) : Forward w sha256 t t :=
  ⟨fun _ => id, fun _ => Or.inl⟩

theorem Forward.trans (h : Forward w sha256 t o) (hn : Forward w sha256 o next) :
    Forward w sha256 t next := by
  constructor
  · intro a hr
    exact hn.retired a (h.retired a hr)
  · intro a hc
    rcases h.current a hc with ho | ho
    · exact hn.current a ho
    · exact Or.inr (hn.retired a ho)

/-! ### Stores that load -/

/-- What a store that passes its own check is known to be. -/
theorem validate_ok (h : t.validate w sha256 = .ok ()) :
    (∀ v, t.paperVerifier = some v → v ∉ t.retiredPaperVerifiers) ∧
      t.checkPasskey w sha256 = .ok () ∧ (t.keys.map (·.role)).Nodup := by
  simp only [validate, check_ok, require_ok, decide_eq_true_eq] at h
  obtain ⟨-, ha, -, hp, hr⟩ := h
  refine ⟨?_, hp, ?_⟩
  · intro v hv hm
    simp [hv, hm] at ha
  · have hn : ((t.keys.map (·.role)).map Role.name).Nodup := by
      rw [map_map]
      exact hr
    exact hn.of_map

theorem load_some : load w sha256 (some t) = .ok (some t) ↔ t.validate w sha256 = .ok () := by
  cases h : t.validate w sha256 with
  | error error => simp [load, h, Except.map]
  | ok u => simp [load, h, Except.map]

/-- A passkey that passes the check is not a retired one. -/
theorem passkey_not_retired {p : EnrolledPasskey V} {id : String}
    (h : t.checkPasskey w sha256 = .ok ()) (hp : t.passkey = some p)
    (hi : p.fingerprint w sha256 = .ok id) : id ∉ t.retiredPasskeys := by
  rw [checkPasskey, hp] at h
  simp only [bind_ok, mapError_ok, require_ok] at h
  obtain ⟨-, -, f, hf, hn⟩ := h
  obtain rfl := ok.inj (hi.symm.trans hf)
  simpa using hn

/-- What is retired is not current. -/
theorem Sound.not_current (h : Sound w sha256 t) {a : Authority}
    (hr : t.IsRetired a) : ¬ t.IsCurrent w sha256 a := by
  obtain ⟨ha, hp, -⟩ := validate_ok (load_some.mp h.loads)
  cases a with
  | signingKey pk =>
    intro hc
    have hd := h.distinct
    rw [map_append, nodup_append'] at hd
    exact hd.2.2 hc hr
  | paper v =>
    intro hc
    exact ha v hc hr
  | passkey id =>
    rintro ⟨passkey, hc, hi⟩
    exact passkey_not_retired hp hc hi hr

/-- A retired key is offered only for what its role approved. -/
theorem Sound.retired_offered (h : Sound w sha256 t) {r : Role} {d : String}
    {key : EnrolledKey} (hr : key ∈ t.retired) (ho : key ∈ t.verificationKeys r d) :
    key.role = r ∧ t.recorded r d = true := by
  unfold verificationKeys at ho
  rw [mem_append, Option.mem_toList, mem_reverse, mem_filter, Bool.and_eq_true, beq_iff_eq] at ho
  rcases ho with hc | ⟨-, he, hro⟩
  · have hk : key ∈ t.keys := mem_of_find?_eq_some hc
    have hn : t.IsRetired (.signingKey key.publicKey) := mem_map_of_mem hr
    exact absurd (mem_map_of_mem hk) (h.not_current hn)
  · exact ⟨hro, he⟩

/-! ### One change -/

/-- Replacing a key leaves all the keys there were, and the new one. -/
theorem replaceKey_perm (am : UInt64) (t : TrustStore V) (r : ReplacementKey) :
    (((t.replaceKey am r).keys ++ (t.replaceKey am r).retired).map (·.publicKey)).Perm
      (r.publicKey :: (t.keys ++ t.retired).map (·.publicKey)) := by
  have hs := (filter_append_perm (·.role == r.role) t.keys).map (·.publicKey)
  simp only [replaceKey, map_append, map_cons, map_nil] at hs ⊢
  rw [append_assoc, singleton_append]
  refine perm_middle.trans (List.Perm.cons _ ?_)
  refine (perm_append_comm.trans ?_)
  rw [append_assoc]
  exact (hs.append_left _).trans perm_append_comm

theorem replaceKey_forward (am : UInt64) (t : TrustStore V) (r : ReplacementKey) :
    Forward w sha256 t (t.replaceKey am r) := by
  constructor
  · intro a hr
    cases a with
    | signingKey pk =>
      simp only [IsRetired, replaceKey, map_append, mem_append]
      exact Or.inl hr
    | paper v => exact hr
    | passkey id => exact hr
  · intro a hc
    cases a with
    | signingKey pk =>
      obtain ⟨key, hk, rfl⟩ := mem_map.mp hc
      by_cases ho : key.role = r.role
      · refine Or.inr (mem_map_of_mem (mem_append_right _ ?_))
        simpa using ⟨hk, ho⟩
      · refine Or.inl (mem_map_of_mem (mem_append_left _ ?_))
        simpa using ⟨hk, ho⟩
    | paper v => exact Or.inl hc
    | passkey id => exact Or.inl hc

/-- All the keys of a plan are replaced, one after another. -/
theorem replaceKeys_perm (am : UInt64) (t : TrustStore V) (r : List ReplacementKey) :
    (((r.foldl (replaceKey am) t).keys ++
        (r.foldl (replaceKey am) t).retired).map (·.publicKey)).Perm
      (r.map (·.publicKey) ++ (t.keys ++ t.retired).map (·.publicKey)) := by
  induction r generalizing t with
  | nil => exact List.Perm.refl _
  | cons re r ih =>
    rw [foldl_cons, map_cons, cons_append]
    refine (ih _).trans ?_
    exact ((replaceKey_perm am t re).append_left _).trans perm_middle

theorem replaceKeys_forward (am : UInt64) (t : TrustStore V) (r : List ReplacementKey) :
    Forward w sha256 t (r.foldl (replaceKey am) t) := by
  induction r generalizing t with
  | nil => exact Forward.refl t
  | cons re r ih =>
    exact (replaceKey_forward am t re).trans (ih _)

@[simp] theorem replaceKeys_passkey (am : UInt64) (t : TrustStore V) (r : List ReplacementKey) :
    (r.foldl (replaceKey am) t).passkey = t.passkey := by
  induction r generalizing t with
  | nil => rfl
  | cons re r ih => exact ih _

theorem replacePaper_forward (t : TrustStore V) (v : Option String) :
    Forward w sha256 t (t.replacePaper v) := by
  cases v with
  | none => exact Forward.refl t
  | some v =>
    constructor
    · intro a hr
      cases a with
      | signingKey pk => exact hr
      | paper old =>
        simp only [IsRetired, replacePaper] at hr ⊢
        cases t.paperVerifier with
        | none => exact hr
        | some p => exact mem_insert.mpr (Or.inr hr)
      | passkey id => exact hr
    · intro a hc
      cases a with
      | signingKey pk => exact Or.inl hc
      | paper old =>
        rw [IsCurrent] at hc
        refine Or.inr ?_
        simp only [IsRetired, replacePaper, hc]
        exact mem_insert.mpr (Or.inl rfl)
      | passkey id => exact Or.inl hc

@[simp] theorem replacePaper_passkey (t : TrustStore V) (v : Option String) :
    (t.replacePaper v).passkey = t.passkey := by
  cases v <;> rfl

@[simp] theorem replacePaper_keys (t : TrustStore V) (v : Option String) :
    (t.replacePaper v).keys = t.keys := by
  cases v <;> rfl

@[simp] theorem replacePaper_retired (t : TrustStore V) (v : Option String) :
    (t.replacePaper v).retired = t.retired := by
  cases v <;> rfl

variable {new up : Option (EnrolledPasskey V)}

/-- The passkey a change leaves has the fingerprint of the one before, or that is retired. -/
theorem replacePasskey_forward
    (hk : ∀ passkey, up = some passkey → ∃ c, t.passkey = some c ∧ passkey.fingerprint w sha256 =
    c.fingerprint w sha256)
    (h : t.replacePasskey w sha256 new up = .ok next) : Forward w sha256 t next := by
  unfold replacePasskey at h
  split at h
  · split at h
    · rename_i hn
      cases ok.inj h
      refine ⟨fun a hr => by cases a <;> exact hr, ?_⟩
      intro a hc
      cases a with
      | passkey id =>
        obtain ⟨passkey, hp, -⟩ := hc
        rw [hn] at hp
        cases hp
      | signingKey pk => exact Or.inl hc
      | paper v => exact Or.inl hc
    · rename_i previous hpr
      obtain ⟨id, hi, h⟩ := bind_ok.mp h
      cases ok.inj h
      constructor
      · intro a hr
        cases a with
        | passkey id => exact mem_insert.mpr (Or.inr hr)
        | signingKey pk => exact hr
        | paper v => exact hr
      · intro a hc
        cases a with
        | passkey old =>
          obtain ⟨passkey, hp, hold⟩ := hc
          obtain rfl := some.inj (hpr.symm.trans hp)
          obtain rfl := ok.inj (hi.symm.trans hold)
          exact Or.inr (mem_insert.mpr (Or.inl rfl))
        | signingKey pk => exact Or.inl hc
        | paper v => exact Or.inl hc
  · split at h
    · rename_i passkey
      obtain ⟨c, hc, hs⟩ := hk passkey rfl
      cases ok.inj h
      refine ⟨fun a hr => by cases a <;> exact hr, ?_⟩
      intro a h
      cases a with
      | passkey id =>
        obtain ⟨f, hf, hi⟩ := h
        obtain rfl := some.inj (hc.symm.trans hf)
        exact Or.inl ⟨passkey, rfl, hs.trans hi⟩
      | signingKey pk => exact Or.inl h
      | paper v => exact Or.inl h
    · cases ok.inj h
      exact Forward.refl t

/-- Replacing the passkey touches no key. -/
theorem replacePasskey_keys (h : t.replacePasskey w sha256 new up = .ok next) :
    next.keys = t.keys ∧ next.retired = t.retired := by
  unfold replacePasskey at h
  split at h
  · split at h
    · cases ok.inj h
      exact ⟨rfl, rfl⟩
    · obtain ⟨id, -, h⟩ := bind_ok.mp h
      cases ok.inj h
      exact ⟨rfl, rfl⟩
  · split at h <;> cases ok.inj h <;> exact ⟨rfl, rfl⟩

theorem numbered_perm (t : TrustStore V) (n : UInt64) :
    (((t.numbered n).keys ++ (t.numbered n).retired).map (·.publicKey)).Perm
      ((t.keys ++ t.retired).map (·.publicKey)) :=
  ((perm_insertionSort _ t.keys).append_right _).map _

theorem numbered_forward (t : TrustStore V) (n : UInt64) : Forward w sha256 t (t.numbered n) := by
  refine ⟨fun a hr => by cases a <;> exact hr, ?_⟩
  intro a hc
  cases a with
  | signingKey pk =>
    exact Or.inl ((((perm_insertionSort _ t.keys).map _).mem_iff).mpr hc)
  | paper v => exact Or.inl hc
  | passkey id => exact Or.inl hc

theorem nextSequence_ok {n : UInt64} (h : t.nextSequence = .ok n) :
    n.toNat = t.sequence.toNat + 1 := by
  unfold nextSequence at h
  split at h
  · rename_i hb
    rw [← ok.inj h, UInt64.toNat_add]
    exact Nat.mod_eq_of_lt hb
  · cases h

/-- Replacement keys that pass the check are distinct, and distinct from all others. -/
theorem checkReplacements_ok {roles : List Role} {k : List String} {r : List ReplacementKey}
    (h : RecoveryChange.checkReplacements t roles k r = .ok ()) :
    (r.map (·.publicKey)).Nodup ∧ ∀ pk ∈ r.map (·.publicKey), pk ∉ k ∧
        pk ∉ (t.keys ++ t.retired).map (·.publicKey) := by
  induction r generalizing roles k with
  | nil => simp
  | cons re r ih =>
    rw [RecoveryChange.checkReplacements, check_ok, require_ok] at h
    obtain ⟨hw, hr⟩ := h
    obtain ⟨hn, hf⟩ := ih hr
    simp only [Bool.not_eq_true', Bool.or_eq_false_iff, contains_eq_mem,
      decide_eq_false_iff_not, any_eq_false, beq_iff_eq] at hw
    obtain ⟨⟨⟨⟨-, hk⟩, -⟩, -⟩, ho⟩ := hw
    rw [map_cons]
    constructor
    · refine nodup_cons.mpr ⟨?_, hn⟩
      intro hm
      exact (hf _ hm).1 mem_cons_self
    · intro pk hm
      rcases mem_cons.mp hm with rfl | hm
      · refine ⟨hk, ?_⟩
        intro hold
        obtain ⟨key, he, hs⟩ := mem_map.mp hold
        exact ho key he hs
      · obtain ⟨hse, hold⟩ := hf pk hm
        exact ⟨fun he => hse (mem_cons_of_mem _ he), hold⟩

theorem Approval.fingerprint_updated (sha256 : Sha256) (a : Approval w) :
    a.updated.fingerprint w sha256 = a.credential.fingerprint w sha256 := by
  have hk := a.kept
  unfold EnrolledPasskey.fingerprint
  cases hu : a.updated.key w with
  | error error =>
    cases hc : a.credential.key w with
    | error o =>
      rw [hu, hc] at hk
      exact congrArg Except.error (Except.error.inj hk)
    | ok key => simp [hu, hc, Except.map] at hk
  | ok key =>
    cases hc : a.credential.key w with
    | error error => simp [hu, hc, Except.map] at hk
    | ok o =>
      rw [hu, hc] at hk
      have hi : w.credId key = w.credId o := ok.inj hk
      simp [Except.map, hi]

end

/-! ### One call -/

section

variable {V : Type} [DecidableEq V] {w : Webauthn V} {sha256 : Sha256} {printer : Printer V}
  {sshsig : SshsigVerify} {trust next : TrustStore V} {change : RecoveryChange V}

/-- A plan that applies to a state is for its successor, and names it. -/
theorem change_validate_ok (h : change.validate w sha256 printer trust = .ok ()) :
    change.sequence.toNat = trust.sequence.toNat + 1 ∧
      change.predecessor = (trust.digest sha256 printer.trust).toString ∧
      RecoveryChange.checkReplacements trust [] [] change.replacements = .ok () := by
  unfold RecoveryChange.validate at h
  obtain ⟨-, h⟩ := check_ok.mp h
  obtain ⟨sequence, hs, h⟩ := bind_ok.mp h
  obtain ⟨hn, h⟩ := check_ok.mp h
  rw [require_ok, Bool.and_eq_true, beq_iff_eq, beq_iff_eq] at hn
  simp only [check_ok] at h
  obtain ⟨-, -, -, -, hr⟩ := h
  rw [hn.1]
  exact ⟨nextSequence_ok (mapError_ok.mp hs), hn.2, hr⟩

theorem Approval.authorize_ok {a : Approval w} {now : Nat} {u : EnrolledPasskey V}
    (h : a.authorize printer now trust change = .ok u) :
    trust.passkey = some a.credential ∧ a.updated = u := by
  rw [Approval.authorize, check_ok, require_ok, Bool.and_eq_true, beq_iff_eq] at h
  exact ⟨h.1.2, ok.inj h.2⟩

/-- A passkey that an authorization updates keeps its fingerprint. -/
theorem authorize_ok {a : RecoveryAuthorization w} {now : Nat} {u : Option (EnrolledPasskey V)}
    (h : authorize sha256 printer sshsig trust change now a = .ok u) :
    ∀ passkey, u = some passkey → ∃ c, trust.passkey = some c ∧
      passkey.fingerprint w sha256 = c.fingerprint w sha256 := by
  rintro passkey rfl
  cases a with
  | passkey ap =>
    obtain ⟨an, ha, hs⟩ := map_ok.mp h
    obtain ⟨hc, hu⟩ := Approval.authorize_ok ha
    refine ⟨ap.credential, hc, ?_⟩
    rw [← some.inj hs, ← hu]
    exact ap.fingerprint_updated sha256
  | phrase phrase =>
    obtain ⟨-, h⟩ := check_ok.mp h
    cases ok.inj h
  | signingKey r s =>
    unfold authorize at h
    dsimp only at h
    split at h
    · cases h
    · obtain ⟨-, h⟩ := check_ok.mp h
      cases ok.inj h

/-- The state a plan makes of another one follows it. -/
structure Succeeds (w : Webauthn V) (sha256 : Sha256) (printer : Printer V)
    (change : RecoveryChange V) (trust next : TrustStore V) : Prop where
  sequence : next.sequence.toNat = trust.sequence.toNat + 1
  planned : next.sequence = change.sequence
  predecessor : change.predecessor = (trust.digest sha256 printer.trust).toString
  forward : Forward w sha256 trust next

/-- A call revises the state its plan names, and keeps all keys distinct. -/
theorem revise_ok {call : Call w} {p : Bool} (hs : Sound w sha256 trust)
    (h : call.revise sha256 printer sshsig p trust = .ok next) :
    Succeeds w sha256 printer call.change trust next ∧
      ((next.keys ++ next.retired).map (·.publicKey)).Nodup := by
  unfold Call.revise at h
  obtain ⟨hv, h⟩ := check_ok.mp h
  obtain ⟨-, h⟩ := check_ok.mp h
  obtain ⟨-, h⟩ := check_ok.mp h
  obtain ⟨u, ha, h⟩ := bind_ok.mp h
  obtain ⟨-, h⟩ := check_ok.mp h
  obtain ⟨r, he, h⟩ := bind_ok.mp h
  obtain ⟨-, h⟩ := check_ok.mp h
  obtain rfl := ok.inj h
  obtain ⟨hq, hp, hr⟩ := change_validate_ok hv
  obtain ⟨hd, hf⟩ := checkReplacements_ok hr
  obtain ⟨hk, ht⟩ := replacePasskey_keys he
  refine ⟨⟨hq, rfl, hp, ?_⟩, ?_⟩
  · have hpa := replacePasskey_forward (by simpa using authorize_ok ha) he
    exact (((replaceKeys_forward call.atMs trust call.change.replacements).trans
      (replacePaper_forward _ _)).trans hpa).trans (numbered_forward _ _)
  · rw [(numbered_perm r call.change.sequence).nodup_iff, hk, ht, replacePaper_keys,
      replacePaper_retired, (replaceKeys_perm _ _ _).nodup_iff, nodup_append']
    exact ⟨hd, hs.distinct, fun publicKey hm => (hf publicKey hm).2⟩

end

/-! ### Writing -/

section

variable {V : Type} {w : Webauthn V} {sha256 : Sha256} {printer : Printer V}
  {trust next : TrustStore V}

/-- A write that renamed its file and did not report it. -/
def Publication.interrupted : Publication → Bool
  | .unsynced _ => true
  | .crashed renamed => renamed
  | _ => false

/-- What is prepared is written and given back, or the file stays, or it is written without
being given back. -/
theorem publish_cases (w : Webauthn V) (sha256 : Sha256) (p : Publication)
    (pr : Except RecoveryError (TrustStore V)) (roles : Roles V) :
    (∃ next, pr = .ok next ∧ next.validate w sha256 = .ok () ∧
      publish sha256 w p pr roles = (some (.ok next), some next)) ∨
    ((publish sha256 w p pr roles).2 = roles ∧
      ∀ next, (publish sha256 w p pr roles).1 ≠ some (.ok next)) ∨
    (p.interrupted = true ∧ ∃ next, pr = .ok next ∧ next.validate w sha256 = .ok () ∧
      (publish sha256 w p pr roles).2 = some next ∧
      ∀ x, (publish sha256 w p pr roles).1 ≠ some (.ok x)) := by
  cases pr with
  | error error => exact Or.inr (Or.inl ⟨rfl, by simp [publish]⟩)
  | ok next =>
    cases hv : next.validate w sha256 with
    | error error =>
      refine Or.inr (Or.inl ?_)
      simp [publish, write, hv, Except.mapError, Except.map]
    | ok u =>
      cases p with
      | published =>
        refine Or.inl ⟨next, rfl, hv, ?_⟩
        simp [publish, write, hv, Except.mapError, Except.map]
      | refused error =>
        refine Or.inr (Or.inl ?_)
        simp [publish, write, hv, Except.mapError, Except.map]
      | unsynced error =>
        refine Or.inr (Or.inr ⟨rfl, next, rfl, hv, ?_⟩)
        simp [publish, write, hv, Except.mapError, Except.map]
      | crashed r =>
        cases r with
        | false =>
          refine Or.inr (Or.inl ?_)
          simp [publish, write, hv]
        | true =>
          refine Or.inr (Or.inr ⟨rfl, next, rfl, hv, ?_⟩)
          simp [publish, write, hv]

/-- The file holds a sound store, if any. -/
def FileSound (w : Webauthn V) (sha256 : Sha256) (roles : Roles V) : Prop :=
  ∀ trust, roles = some trust → Sound w sha256 trust

/-- A later file holds a store that follows the one of an earlier file. -/
def Follows (w : Webauthn V) (sha256 : Sha256) (roles later : Roles V) : Prop :=
  ∀ trust, roles = some trust → ∃ next, later = some next ∧ Forward w sha256 trust next ∧
    trust.sequence ≤ next.sequence

/-- A store that may be written over a file. -/
structure Advances (w : Webauthn V) (sha256 : Sha256) (roles : Roles V) (next : TrustStore V) :
    Prop where
  distinct : ((next.keys ++ next.retired).map (·.publicKey)).Nodup
  follows : Follows w sha256 roles (some next)

theorem Follows.refl (roles : Roles V) : Follows w sha256 roles roles :=
  fun trust h => ⟨trust, h, .refl trust, UInt64.le_refl _⟩

variable {ro : Roles V}

theorem Follows.trans {la last : Roles V} (h : Follows w sha256 ro la)
    (hl : Follows w sha256 la last) : Follows w sha256 ro last := by
  intro trust ht
  obtain ⟨next, hn, hf, he⟩ := h trust ht
  obtain ⟨f, hi, ho, hm⟩ := hl next hn
  exact ⟨f, hi, hf.trans ho, UInt64.le_trans he hm⟩

/-- Where what is prepared advances, the file stays sound and is followed. -/
theorem publish_keeps {pu : Publication} {p : Except RecoveryError (TrustStore V)}
    (h : FileSound w sha256 ro) (hr : ∀ next, p = .ok next → Advances w sha256 ro next) :
    FileSound w sha256 (publish sha256 w pu p ro).2 ∧
      Follows w sha256 ro (publish sha256 w pu p ro).2 := by
  have hw : ∀ next, p = .ok next → next.validate w sha256 = .ok () →
      FileSound w sha256 (some next) ∧ Follows w sha256 ro (some next) := by
    intro next hn hv
    have ha := hr next hn
    refine ⟨?_, ha.follows⟩
    rintro _ ⟨⟩
    exact ⟨load_some.mpr hv, (validate_ok hv).2.2, ha.distinct⟩
  rcases publish_cases w sha256 pu p ro with ⟨next, hn, hv, hp⟩ |
    ⟨hs, -⟩ | ⟨-, next, hn, hv, hp, -⟩
  · rw [hp]
    exact hw next hn hv
  · rw [hs]
    exact ⟨h, .refl ro⟩
  · rw [hp]
    exact hw next hn hv

/-! ### What is prepared -/

theorem load_ok {f : Option (TrustStore V)} (h : ro.load w sha256 = .ok f) : ro = f := by
  cases ro with
  | none => exact ok.inj h
  | some trust =>
    obtain ⟨-, -, h⟩ := map_ok.mp h
    exact h

variable {host : Host}

theorem enrolled_ok (h : host.enrolled sha256 w ro = .ok trust) : ro = some trust := by
  obtain ⟨f, hl, h⟩ := bind_ok.mp h
  obtain ⟨-, hl⟩ := check_ok.mp hl
  obtain ⟨-, ho⟩ := check_ok.mp hl
  rw [load_ok (mapError_ok.mp ho)]
  cases f with
  | none => cases h
  | some f => exact congrArg some (ok.inj h)

theorem vacant_ok {td : String} (h : host.vacant sha256 w td ro = .ok ()) : ro = none := by
  obtain ⟨f, hl, h⟩ := bind_ok.mp h
  obtain ⟨-, hl⟩ := check_ok.mp hl
  obtain ⟨-, ho⟩ := check_ok.mp hl
  rw [load_ok (mapError_ok.mp ho)]
  cases f with
  | none => rfl
  | some f => cases h

theorem initial_ok {td p r : String} {sp : SkPolicy} {am : UInt64}
    (h : initial td p r sp am = .ok trust) :
    ((trust.keys ++ trust.retired).map (·.publicKey)).Nodup := by
  obtain ⟨hc, h⟩ := check_ok.mp h
  rw [require_ok, Bool.not_eq_true', Bool.or_eq_false_iff, beq_eq_false_iff_ne] at hc
  rw [← ok.inj h]
  simpa using hc.2

/-- Where there is no file yet, a store with distinct keys may be written. -/
theorem advances_none (h : ((next.keys ++ next.retired).map (·.publicKey)).Nodup) :
    Advances w sha256 none next :=
  ⟨h, fun _ hn => by cases hn⟩

theorem approve_forward (trust : TrustStore V) (r : Role) (d : String) :
    Forward w sha256 trust (trust.approve r d) := by
  constructor
  · intro a hr
    cases r <;> cases a <;> exact hr
  · intro a hc
    cases r <;> cases a <;> exact Or.inl hc

theorem approve_advances {r : Role} {d : String} (hs : FileSound w sha256 ro)
    (h : (host.enrolled sha256 w ro).map (·.approve r d) = .ok next) :
    Advances w sha256 ro next := by
  obtain ⟨trust, he, rfl⟩ := map_ok.mp h
  obtain rfl := enrolled_ok he
  constructor
  · have hd := (hs trust rfl).distinct
    cases r <;> exact hd
  · rintro _ ⟨⟩
    refine ⟨_, rfl, approve_forward trust r d, ?_⟩
    cases r <;> exact UInt64.le_refl _

theorem Succeeds.lt {change : RecoveryChange V}
    (h : Succeeds w sha256 printer change trust next) : trust.sequence < next.sequence := by
  rw [UInt64.lt_iff_toNat_lt, h.sequence]
  exact Nat.lt_succ_self _

end

section

variable {V : Type} [DecidableEq V] {w : Webauthn V} {sha256 : Sha256} {printer : Printer V}
  {sshsig : SshsigVerify} {next : TrustStore V}

variable {call : Call w} {host : Host} {roles : Roles V}

/-- What a call prepares succeeds the store of the file. -/
theorem prepare_ok (ho : FileSound w sha256 roles)
    (h : call.prepare sha256 printer sshsig host roles = .ok next) :
    ((next.keys ++ next.retired).map (·.publicKey)).Nodup ∧
      ∃ trust, roles = some trust ∧ Succeeds w sha256 printer call.change trust next := by
  obtain ⟨p, -, h⟩ := bind_ok.mp h
  obtain ⟨-, h⟩ := check_ok.mp h
  obtain ⟨trust, he, hr⟩ := bind_ok.mp h
  have ht := enrolled_ok he
  obtain ⟨hs, hd⟩ := revise_ok (ho trust ht) hr
  exact ⟨hd, trust, ht, hs⟩

theorem prepare_advances (ho : FileSound w sha256 roles)
    (h : call.prepare sha256 printer sshsig host roles = .ok next) :
    Advances w sha256 roles next := by
  obtain ⟨hd, trust, rfl, hs⟩ := prepare_ok ho h
  refine ⟨hd, ?_⟩
  rintro _ ⟨⟩
  exact ⟨next, rfl, hs.forward, UInt64.le_of_lt hs.lt⟩

/-! ### Runs -/

/-- One operation on the file of roles. -/
inductive Event (w : Webauthn V) where
  | bootstrap (trustDomain primary release : String) (skPolicy : SkPolicy) (atMs : UInt64)
      (host : Host)
  | setup (trustDomain primary release : String) (skPolicy : SkPolicy) (atMs : UInt64)
      (ceremony : String) (paper : PaperPhrase) (registration : Registration V)
      (proofs : List ReplacementProof) (clock : Clock) (host : Host)
  | approve (role : Role) (digest : String) (host : Host)
  | apply (call : Call w) (host : Host)

variable (sha256 printer sshsig) in
/-- The file an operation leaves. -/
def step (roles : Roles V) : Event w → Roles V
  | .bootstrap trustDomain primary release skPolicy atMs host =>
    (bootstrap sha256 w trustDomain primary release skPolicy atMs host roles).2
  | .setup trustDomain primary release skPolicy atMs ceremony paper registration proofs clock
      host =>
    match PendingSetup.new trustDomain primary release skPolicy atMs ceremony with
    | .error _ => roles
    | .ok setup =>
      (setup.apply sha256 printer sshsig w paper registration proofs clock host roles).2
  | .approve role digest host => (approve sha256 w role digest host roles).2
  | .apply call host => (call.apply sha256 printer sshsig host roles).2

variable (sha256 printer sshsig) in
/-- The file after a run that starts without enrolled keys. -/
def run (events : List (Event w)) : Roles V := events.foldl (step sha256 printer sshsig) none

variable {se : PendingSetup V}

theorem setup_new_ok {td p r c : String} {sp : SkPolicy} {am : UInt64}
    (h : PendingSetup.new td p r sp am c = .ok se) :
    ((se.trust.keys ++ se.trust.retired).map (·.publicKey)).Nodup := by
  obtain ⟨trust, hi, h⟩ := bind_ok.mp h
  have hd := initial_ok (mapError_ok.mp hi)
  rw [← ok.inj h]
  simpa [map_map, Function.comp_def] using hd

theorem confirmed_ok {p : PaperPhrase} {r : Registration V} {now : Nat}
    (h : se.confirmed sha256 printer w p r now = .ok next) :
    next.keys = se.trust.keys ∧ next.retired = se.trust.retired := by
  obtain ⟨_, -, h⟩ := bind_ok.mp h
  obtain ⟨_, -, h⟩ := bind_ok.mp h
  obtain ⟨-, h⟩ := check_ok.mp h
  obtain rfl := ok.inj h
  exact ⟨rfl, rfl⟩

/-- Every operation keeps the file sound, and leaves one that follows it. -/
theorem step_keeps (h : FileSound w sha256 roles) (e : Event w) :
    FileSound w sha256 (step sha256 printer sshsig roles e) ∧
      Follows w sha256 roles (step sha256 printer sshsig roles e) := by
  cases e with
  | bootstrap td p r sp am host =>
    refine publish_keeps h ?_
    intro next hp
    obtain ⟨_, -, hp⟩ := bind_ok.mp hp
    obtain ⟨-, hp⟩ := check_ok.mp hp
    obtain ⟨hv, hi⟩ := check_ok.mp hp
    rw [vacant_ok hv]
    exact advances_none (initial_ok (mapError_ok.mp hi))
  | setup td p r sp am c pa re pr cl host =>
    unfold step
    dsimp only
    split
    · exact ⟨h, .refl roles⟩
    · rename_i se hn
      refine publish_keeps h ?_
      intro next hp
      obtain ⟨_, -, hp⟩ := bind_ok.mp hp
      obtain ⟨-, hp⟩ := check_ok.mp hp
      obtain ⟨-, hp⟩ := check_ok.mp hp
      obtain ⟨hv, hp⟩ := check_ok.mp hp
      obtain ⟨trust, hc, hp⟩ := bind_ok.mp hp
      obtain ⟨-, hp⟩ := check_ok.mp hp
      obtain ⟨-, hp⟩ := check_ok.mp hp
      obtain ⟨-, hp⟩ := check_ok.mp hp
      obtain ⟨_, -, hp⟩ := bind_ok.mp hp
      obtain rfl := ok.inj hp
      obtain ⟨hk, hr⟩ := confirmed_ok hc
      rw [vacant_ok hv]
      refine advances_none ?_
      rw [hk, hr]
      exact setup_new_ok hn
  | approve role d host => exact publish_keeps h fun _ => approve_advances h
  | apply call host => exact publish_keeps h fun _ => prepare_advances h

theorem foldl_keeps (h : FileSound w sha256 roles) (evs : List (Event w)) :
    FileSound w sha256 (evs.foldl (step sha256 printer sshsig) roles) ∧
      Follows w sha256 roles (evs.foldl (step sha256 printer sshsig) roles) := by
  induction evs generalizing roles with
  | nil => exact ⟨h, .refl roles⟩
  | cons e evs ih =>
    obtain ⟨ht, hf⟩ := step_keeps h e
    obtain ⟨hs, hl⟩ := ih ht
    exact ⟨hs, hf.trans hl⟩

theorem run_sound (evs : List (Event w)) : FileSound w sha256 (run sha256 printer sshsig evs) :=
  (foldl_keeps (fun _ h => by cases h) evs).1

theorem run_follows (evs la : List (Event w)) : Follows w sha256 (run sha256 printer sshsig evs)
      (run sha256 printer sshsig (evs ++ la)) := by
  rw [run, run, foldl_append]
  exact (foldl_keeps (run_sound evs) la).2

/-- What one call does to the file: it hands back the successor it wrote, or refuses and leaves
the file, or its write fails and leaves the old or the successor. -/
structure Applied (sha256 : Sha256) (printer : Printer V) (sshsig : SshsigVerify) (call : Call w)
    (host : Host) (roles : Roles V) : Prop where
  accepted : ∀ next, (call.apply sha256 printer sshsig host roles).1 = some (.ok next) →
    (call.apply sha256 printer sshsig host roles).2 = some next ∧
      ∃ trust, roles = some trust ∧ Succeeds w sha256 printer call.change trust next
  refused : ∀ error, call.prepare sha256 printer sshsig host roles = .error error →
    call.apply sha256 printer sshsig host roles = (some (.error error), roles)
  otherwise : (∀ next, (call.apply sha256 printer sshsig host roles).1 ≠ some (.ok next)) →
    (call.apply sha256 printer sshsig host roles).2 = roles ∨
      host.publication.interrupted = true ∧ ∃ trust next, roles = some trust ∧
        call.prepare sha256 printer sshsig host roles = .ok next ∧
        Succeeds w sha256 printer call.change trust next ∧
        (call.apply sha256 printer sshsig host roles).2 = some next

theorem applied (h : FileSound w sha256 roles) : Applied sha256 printer sshsig call host roles := by
  have hc := publish_cases w sha256 host.publication
    (call.prepare sha256 printer sshsig host roles) roles
  constructor
  · intro next ha
    rcases hc with ⟨wr, hr, -, hp⟩ | ⟨-, ho⟩ | ⟨-, _, -, -, -, ho⟩
    · rw [Call.apply, hp] at ha ⊢
      obtain rfl := ok.inj (some.inj ha)
      exact ⟨rfl, (prepare_ok h hr).2⟩
    · exact absurd ha (ho next)
    · exact absurd ha (ho next)
  · intro e hr
    rw [Call.apply, hr]
    rfl
  · intro hn
    rcases hc with ⟨wr, -, -, hp⟩ | ⟨hsa, -⟩ |
      ⟨hint, next, hr, -, hf, -⟩
    · exact absurd (congrArg Prod.fst hp) (hn wr)
    · exact Or.inl hsa
    · obtain ⟨trust, ht, hs⟩ := (prepare_ok h hr).2
      exact Or.inr ⟨hint, trust, next, ht, hr, hs, hf⟩

/-- A call that changes the file leaves the state its plan numbers. -/
theorem changed (h : FileSound w sha256 roles)
    (hc : (call.apply sha256 printer sshsig host roles).2 ≠ roles) :
    ∃ next, (call.apply sha256 printer sshsig host roles).2 = some next ∧
      next.sequence = call.change.sequence := by
  have ha : Applied sha256 printer sshsig call host roles := applied h
  by_cases ho : ∃ next, (call.apply sha256 printer sshsig host roles).1 = some (.ok next)
  · obtain ⟨next, hn⟩ := ho
    obtain ⟨hf, trust, -, hs⟩ := ha.accepted next hn
    exact ⟨next, hf, hs.planned⟩
  · rcases ha.otherwise fun next hn => ho ⟨next, hn⟩ with hsa |
      ⟨-, trust, next, -, -, hs, hf⟩
    · exact absurd hsa hc
    · exact ⟨next, hf, hs.planned⟩

/-- A plan whose number has been reached is refused. -/
theorem apply_stale {trust : TrustStore V} (h : Sound w sha256 trust)
    (ht : call.change.sequence ≤ trust.sequence) :
    ∃ error, call.apply sha256 printer sshsig host (some trust) =
      (some (.error error), some trust) := by
  have hso : FileSound w sha256 (some trust) := by
    rintro _ ⟨⟩
    exact h
  cases hp : call.prepare sha256 printer sshsig host (some trust) with
  | error error => exact ⟨error, (applied hso).refused error hp⟩
  | ok next =>
    obtain ⟨-, x, ho, hs⟩ := prepare_ok hso hp
    obtain rfl := some.inj ho
    have hl := hs.lt
    rw [hs.planned] at hl
    exact absurd (UInt64.lt_of_lt_of_le hl ht) (UInt64.lt_irrefl _)

/-- Trust only moves forward, whatever the operations, their inputs and their failures. -/
structure MovesForward (w : Webauthn V) (sha256 : Sha256) (printer : Printer V)
    (sshsig : SshsigVerify) : Prop where
  /-- Every store that is reached loads, with one key a role and distinct keys. -/
  sound : ∀ events : List (Event w), FileSound w sha256 (run sha256 printer sshsig events)
  /-- Every call is accepted onto the state it names, refused, or its write fails. -/
  applied : ∀ (events : List (Event w)) (call : Call w) (host : Host),
    Applied sha256 printer sshsig call host (run sha256 printer sshsig events)
  /-- A plan that changed the file is refused ever after. -/
  once : ∀ (events later : List (Event w)) (call other : Call w) (host otherHost : Host),
    (call.apply sha256 printer sshsig host (run sha256 printer sshsig events)).2 ≠
      run sha256 printer sshsig events → other.change = call.change →
    ∃ error, other.apply sha256 printer sshsig otherHost
        (run sha256 printer sshsig (events ++ .apply call host :: later)) =
      (some (.error error), run sha256 printer sshsig (events ++ .apply call host :: later))
  /-- What was current and is no more never is again. -/
  replaced : ∀ (events later last : List (Event w)) (trust next final : TrustStore V)
    (authority : Authority), run sha256 printer sshsig events = some trust →
    run sha256 printer sshsig (events ++ later) = some next →
    run sha256 printer sshsig (events ++ later ++ last) = some final →
    trust.IsCurrent w sha256 authority → ¬ next.IsCurrent w sha256 authority →
    ¬ final.IsCurrent w sha256 authority
  /-- A retired key verifies only what its role approved. -/
  offered : ∀ (events : List (Event w)) (trust : TrustStore V) (role : Role) (digest : String)
    (key : EnrolledKey), run sha256 printer sshsig events = some trust → key ∈ trust.retired →
    key ∈ trust.verificationKeys role digest → key.role = role ∧ trust.recorded role digest = true

variable {es l : List (Event w)}

/-- What a run retires stays retired, and is not current. -/
theorem run_replaced {la : List (Event w)} {trust f : TrustStore V} {a : Authority}
    (ht : run sha256 printer sshsig es = some trust)
    (hn : run sha256 printer sshsig (es ++ l) = some next)
    (hf : run sha256 printer sshsig (es ++ l ++ la) = some f) (hc : trust.IsCurrent w sha256 a)
    (hnot : ¬ next.IsCurrent w sha256 a) : ¬ f.IsCurrent w sha256 a := by
  obtain ⟨y, hfn, hfo, -⟩ := run_follows es l trust ht
  obtain rfl := some.inj (hn.symm.trans hfn)
  have hr : next.IsRetired a :=
    (hfo.current a hc).resolve_left hnot
  obtain ⟨x, ho, hon, -⟩ := run_follows (es ++ l) la next hn
  obtain rfl := some.inj (hf.symm.trans ho)
  exact (run_sound _ f hf).not_current (hon.retired a hr)

/-- A plan that changed the file is stale from then on. -/
theorem run_once {x : Call w} {oh : Host}
    (hc : (call.apply sha256 printer sshsig host (run sha256 printer sshsig es)).2 ≠
    run sha256 printer sshsig es)
    (ha : x.change = call.change) : ∃ e, x.apply sha256 printer sshsig oh
        (run sha256 printer sshsig (es ++ .apply call host :: l)) =
      (some (.error e), run sha256 printer sshsig (es ++ .apply call host :: l)) := by
  obtain ⟨next, hn, hp⟩ := changed (run_sound es) hc
  have hr : run sha256 printer sshsig (es ++ [.apply call host]) = some next := by
    rw [run, foldl_append]
    exact hn
  have hf : Follows w sha256 (run sha256 printer sshsig (es ++ [.apply call host]))
      (run sha256 printer sshsig (es ++ .apply call host :: l)) := by
    have hs : es ++ .apply call host :: l = es ++ [.apply call host] ++ l := by
      rw [append_assoc, singleton_append]
    rw [hs]
    exact run_follows (es ++ [.apply call host]) l
  obtain ⟨trust, ht, -, hl⟩ := hf next hr
  rw [ht]
  refine apply_stale (run_sound _ trust ht) ?_
  rw [ha, ← hp]
  exact hl

theorem moves_forward (w : Webauthn V) (sha256 : Sha256) (printer : Printer V)
    (sshsig : SshsigVerify) : MovesForward w sha256 printer sshsig where
  sound es := run_sound es
  applied es _ _ := applied (run_sound es)
  once _ _ _ _ _ _ := run_once
  replaced _ _ _ _ _ _ _ := run_replaced
  offered es trust _ _ _ ht := (run_sound es trust ht).retired_offered

end

/-! ### Samples -/

/-- Credentials that carry nothing. -/
def plainWebauthn : Webauthn Unit where
  Passkey := Unit
  Assertion := Unit
  fromValue _ := some ()
  toValue _ := ()
  credId _ := []
  backupEligible _ := some true
  backupState _ := some true
  userVerified _ := true
  updateCredential key _ := some key
  fromValue_toValue _ := rfl
  credId_update _ _ _ _ := rfl

/-- A host on which everything succeeds. -/
def plainHost : Host := ⟨.ok false, .ok (), .ok (), .ok (), .published⟩

/-- The call that replaces the primary key, authorized by that key. -/
def sampleCall : Call plainWebauthn where
  change :=
    { schema := recoveryNamespace
      trustDomain := "domain"
      sequence := 1
      predecessor := (Digest.of (fun _ => .replicate 32 0) []).toString
      replacements := [⟨.primary, "ssh-ed25519 second"⟩]
      nextVerifier := none
      nextPasskey := none }
  authorization := .signingKey .primary "signature"
  proofs := [⟨.primary, "signature"⟩]
  confirmation := ⟨none, none⟩
  atMs := 0
  clock := ⟨0, 0, 0⟩

-- The replaced key is retired, and the call can be made only once.
example : (run (fun _ => .replicate 32 0) ⟨fun _ => [], fun _ => [], fun _ => []⟩
      (fun _ _ _ _ _ => .ok ())
      [.bootstrap "domain" "ssh-ed25519 first comment" "ssh-ed25519 other" .none 0 plainHost,
        .apply sampleCall plainHost, .apply sampleCall plainHost]).map (fun trust =>
        (trust.sequence, trust.keys.map (·.publicKey), trust.retired.map (·.publicKey))) =
    some (1, ["ssh-ed25519 second", "ssh-ed25519 other"], ["ssh-ed25519 first"]) := by
  decide +kernel

end Louiselm.Trust
