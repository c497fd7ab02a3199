import Louiselm.Broker.RunEnvelope
import Louiselm.Base.Runs

/-!
# A child grant never widens its Run

What each approval of a child permits at any time is permitted by the approval of its Run
that it was compared with, and the revisions of a Run are numbered from one without a gap,
wherever the writes of its approvals stopped.
-/

namespace Louiselm.Broker
open Base Canonical Launch List
open Broker.Authorization (Records Stored WriteFault writeNewRecord)
open RunEnvelope ApprovedProviderRequests ApprovedCommands
open Bool (and_eq_true)

/-! ### Approvals over time -/

variable {ap : ApprovedBeadsMutations} {nowMs t : UInt64}

/-- An approval that was valid once is valid until it expires. -/
theorem ApprovedBeadsMutations.valid_of_lt (h : ap.valid nowMs = true)
    (ht : t < ap.expiresAtMs) : ap.valid t = true := by
  simp only [valid, and_eq_true, decide_eq_true_eq] at h ⊢
  exact ⟨h.1, ht⟩

theorem ApprovedBeadsMutations.lt_of_valid (h : ap.valid t = true) : t < ap.expiresAtMs := by
  simp only [valid, and_eq_true, decide_eq_true_eq] at h
  exact h.2

theorem ApprovedSkillRequests.valid_of_lt {ap : ApprovedSkillRequests}
    (h : ap.valid nowMs = true) (ht : t < ap.expiresAtMs) : ap.valid t = true := by
  simp only [valid, and_eq_true, decide_eq_true_eq] at h ⊢
  exact ⟨h.1, ht⟩

theorem ApprovedSkillRequests.lt_of_valid {ap : ApprovedSkillRequests}
    (h : ap.valid t = true) : t < ap.expiresAtMs := by
  simp only [valid, and_eq_true, decide_eq_true_eq] at h
  exact h.2

section

variable {di : Disclosure} {ap : ApprovedProviderRequests} {nowMs t : UInt64}

theorem ApprovedProviderRequests.valid_of_lt (h : ap.valid di nowMs = true)
    (ht : t < ap.expiresAtMs) : ap.valid di t = true := by
  simp only [valid, and_eq_true, decide_eq_true_eq] at h ⊢
  exact ⟨h.1, ht⟩

theorem ApprovedProviderRequests.lt_of_valid (h : ap.valid di t = true) : t < ap.expiresAtMs := by
  simp only [valid, and_eq_true, decide_eq_true_eq] at h
  exact h.2

/-- The models of a valid approval are sorted, so that the search finds each of them. -/
theorem ApprovedProviderRequests.models_sorted (h : ap.valid di t = true) :
    ap.models.Pairwise (· < ·) := by
  simp only [valid, and_eq_true, decide_eq_true_eq] at h
  exact isChain_iff_pairwise.mp h.1.1.2

end

/-- A policy says that its commands are well formed and have not expired. -/
theorem ApprovedCommands.policy_eq_ok {cs : ApprovedCommands} {ai : String} {nowMs : Nat}
    {now : Instant} {p : DelegationPolicy} : cs.policy ai nowMs now = .ok p ↔
      ∃ d, Digest.parse cs.commandDigest = .ok d ∧ d.toString = cs.commandDigest ∧
        CommandScope.valid ⟨d, cs.timeoutMs, cs.uses⟩ = true ∧ nowMs < cs.expiresAtMs ∧
        p = ⟨ai, ⟨d, cs.timeoutMs, cs.uses⟩,
          cs.allowDelegation, now + (cs.expiresAtMs - nowMs)⟩ := by
  unfold policy
  cases Digest.parse cs.commandDigest with
  | error error => simp
  | ok d =>
    simp only [check_ok, require_ok, and_eq_true, beq_iff_eq, decide_eq_true_eq,
      Except.ok.injEq, exists_eq_left', and_assoc]
    exact and_congr_right fun _ => and_congr_right fun _ => and_congr_right fun _ =>
      ⟨fun h => (Except.ok.inj h).symm, fun h => congrArg Except.ok h.symm⟩

/-! ### No wider -/

/-- What an approval of a child is held to: it ends no later than that of the Run, which
ends no later than the envelope. -/
def EndsWithin (child parent envelope : UInt64) : Prop := child ≤ parent ∧ parent ≤ envelope

/-- Every mutation that a child may ask for at any time, its Run's approval permits then. -/
structure ApprovedBeadsMutations.NoWider (child parent : ApprovedBeadsMutations)
    (expiresAtMs : UInt64) : Prop where
  lifetime : EndsWithin child.expiresAtMs parent.expiresAtMs expiresAtMs
  project : child.projectDigest = parent.projectDigest
  budget : child.maxMutations ≤ parent.maxMutations
  permits (request : BeadsMutationRequest) (t : UInt64) :
    child.permits request t = true → parent.permits request t = true

/-- Every Skill request that a child may make at any time, its Run's approval permits then. -/
structure ApprovedSkillRequests.NoWider (child parent : ApprovedSkillRequests)
    (expiresAtMs : UInt64) : Prop where
  lifetime : EndsWithin child.expiresAtMs parent.expiresAtMs expiresAtMs
  permits (request : SkillRequest) (t : UInt64) :
    child.permits request t = true → parent.permits request t = true

/-- Every model, effort and address that a child may use at any time, its Run's approval
permits then, towards the same endpoint and out of the same budget. -/
structure ApprovedProviderRequests.NoWider (disclosure : Disclosure)
    (child parent : ApprovedProviderRequests) (expiresAtMs : UInt64) : Prop where
  lifetime : EndsWithin child.expiresAtMs parent.expiresAtMs expiresAtMs
  destination : child.provider = parent.provider ∧ child.upstream = parent.upstream ∧
    child.disclosureProfile = parent.disclosureProfile
  budget : child.maxRunRequests = parent.maxRunRequests
  permits (model : String) (effort : Option String) (address : IpAddr) (t : UInt64) :
    child.valid disclosure t = true → child.permits model effort = true →
      address ∈ child.addresses →
      parent.valid disclosure t = true ∧ parent.permits model effort = true ∧
        address ∈ parent.addresses

/-- Whatever policy a child's commands give at any time, those of its Run give one then
that has its command, at least its timeout, its uses, its delegation and its lifetime. -/
structure ApprovedCommands.NoWider (sha256 : Sha256) (child parent : ApprovedCommands)
    (expiresAtMs : UInt64) : Prop where
  lifetime : child.expiresAtMs ≤ parent.expiresAtMs ∧ parent.expiresAtMs ≤ expiresAtMs.toNat
  permits (authorizationId : String) (t : Nat) (now : Instant) (policy : DelegationPolicy) :
    child.policy authorizationId t now = .ok policy →
      ∃ bound, parent.policy authorizationId t now = .ok bound ∧
        policy.scope.isWithin bound.scope = true ∧ policy.expiresAt ≤ bound.expiresAt ∧
        (policy.allowDelegation = true → bound.allowDelegation = true) ∧
        ∀ request, policy.scope.permits sha256 request = true →
          bound.scope.permits sha256 request = true

/-- An approval that a child has is one that its Run has and that is no narrower. -/
def Attenuates {α : Type} (noWider : α → α → Prop) (parent child : Option α) : Prop :=
  ∀ scope, child = some scope → ∃ bound, parent = some bound ∧ noWider scope bound

/-- A grant that widens no authority of its Run's envelope. -/
structure NoWider {Skills Dependencies : Type} (rules : EnvelopeRules)
    (grant : ChildGrant Skills Dependencies) (envelope : RunEnvelope) : Prop where
  run : grant.request.runId = envelope.runId
  revision : grant.request.envelopeRevision = envelope.envelopeRevision
  lifetime : grant.expiresAtMs ≤ envelope.expiresAtMs
  commands : Attenuates (ApprovedCommands.NoWider rules.sha256 · · envelope.expiresAtMs)
    envelope.commands grant.commands
  skills : Attenuates (ApprovedSkillRequests.NoWider · · envelope.expiresAtMs)
    envelope.skillRequests grant.skillRequests
  beads : Attenuates (ApprovedBeadsMutations.NoWider · · envelope.expiresAtMs)
    envelope.beadScope grant.beadsMutations
  provider : Attenuates (ApprovedProviderRequests.NoWider rules.disclosure · · envelope.expiresAtMs)
    envelope.providerRequests grant.providerRequests

/-! ### The comparisons -/

theorem within_iff {α : Type} {pe : α → α → Bool} {nw : α → α → Prop} {p c : Option α}
    (h : within pe p c = true) (hs : ∀ s b, p = some b → pe b s = true → nw s b) :
    Attenuates nw p c := by
  rintro s rfl
  simp only [within, Option.all_some, Option.any_eq_true] at h
  obtain ⟨b, rfl, hb⟩ := h
  exact ⟨b, rfl, hs s b rfl hb⟩

private theorem subset_of_all {α : Type} [BEq α] [LawfulBEq α] {xs os : List α}
    (h : (xs.all fun x => os.contains x) = true) {x : α} (hi : x ∈ xs) : x ∈ os :=
  contains_iff_mem.mp (all_eq_true.mp h x hi)

variable {expiresAtMs : UInt64}

/-- A worker's effect is one of its Run's, and a valid Run's role permits its effects. -/
theorem permitsBeads_noWider {p c : ApprovedBeadsMutations}
    (hv : p.valid nowMs = true) (hn : p.expiresAtMs ≤ expiresAtMs)
    (h : permitsBeads nowMs p c = true) : c.NoWider p expiresAtMs := by
  simp only [permitsBeads, and_eq_true, decide_eq_true_eq, beq_iff_eq] at h
  obtain ⟨⟨⟨⟨⟨⟨-, hp⟩, -⟩, hb⟩, hl⟩, hi⟩, he⟩ := h
  refine ⟨⟨hl, hn⟩, hp, hb, fun req t hpe => ?_⟩
  simp only [ApprovedBeadsMutations.permits, and_eq_true] at hpe ⊢
  obtain ⟨⟨⟨⟨⟨ht, hq⟩, -⟩, hf⟩, hid⟩, ho⟩ := hpe
  have he' : BeadsEffect.forMutation req.kind ∈ p.effects :=
    subset_of_all he (contains_iff_mem.mp hf)
  have hr : (BeadsEffect.forMutation req.kind).permittedRole p.role = true := by
    simp only [ApprovedBeadsMutations.valid, and_eq_true] at hv
    have ha := all_eq_true.mp hv.1.1.1.1.2 _ he'
    exact (and_eq_true _ _ ▸ ha).2
  refine ⟨⟨⟨⟨⟨?_, hq⟩, hr⟩, contains_iff_mem.mpr he'⟩, ?_⟩, ?_⟩
  · exact ApprovedBeadsMutations.valid_of_lt hv
      (UInt64.lt_of_lt_of_le (ApprovedBeadsMutations.lt_of_valid ht) hl)
  · exact contains_iff_mem.mpr (subset_of_all hi (contains_iff_mem.mp hid))
  · rw [Option.all_eq_true] at ho ⊢
    intro o hd
    exact contains_iff_mem.mpr (subset_of_all hi (contains_iff_mem.mp (ho o hd)))

theorem permitsSkills_noWider {p c : ApprovedSkillRequests} (hv : p.valid nowMs = true)
    (he : p.expiresAtMs ≤ expiresAtMs) (h : permitsSkills nowMs p c = true) :
    c.NoWider p expiresAtMs := by
  simp only [permitsSkills, and_eq_true, Bool.or_eq_true, Bool.not_eq_true',
    decide_eq_true_eq] at h
  obtain ⟨⟨⟨⟨-, hr⟩, hs⟩, hl⟩, ha⟩ := h
  refine ⟨⟨hl, he⟩, fun req t hp => ?_⟩
  simp only [ApprovedSkillRequests.permits, and_eq_true] at hp ⊢
  obtain ⟨⟨⟨ht, hq⟩, hu⟩, hn⟩ := hp
  refine ⟨⟨⟨?_, hq⟩, ?_⟩, ?_⟩
  · exact ApprovedSkillRequests.valid_of_lt hv
      (UInt64.lt_of_lt_of_le (ApprovedSkillRequests.lt_of_valid ht) hl)
  · cases hk : req.subject with
    | session => rfl
    | run =>
      rw [hk] at hu
      exact hr.resolve_left (by simp [show c.allowRun = true from hu])
    | supply =>
      rw [hk] at hu
      exact hs.resolve_left (by simp [show c.allowSupply = true from hu])
  · rw [all_eq_true] at hn ⊢
    intro a hg
    exact contains_iff_mem.mpr (subset_of_all ha (contains_iff_mem.mp (hn a hg)))

theorem permitsProvider_noWider {rules : EnvelopeRules} {p c : ApprovedProviderRequests}
    (hv : p.valid rules.disclosure nowMs = true) (hn : p.expiresAtMs ≤ expiresAtMs)
    (h : permitsProvider rules nowMs p c = true) : c.NoWider rules.disclosure p expiresAtMs := by
  simp only [permitsProvider, and_eq_true, beq_iff_eq, decide_eq_true_eq] at h
  obtain ⟨⟨⟨⟨⟨⟨⟨⟨-, hr⟩, hpr⟩, hu⟩, hb⟩, hx⟩, hl⟩, ha⟩, hm⟩ := h
  refine ⟨⟨hl, hn⟩, ⟨hpr, hu, hr⟩, hb, ?_⟩
  intro m e a t ht he hd
  have hp : p.valid rules.disclosure t = true := valid_of_lt
    hv (UInt64.lt_of_lt_of_le (lt_of_valid ht) hl)
  refine ⟨hp, ?_, subset_of_all ha hd⟩
  simp only [permits, and_eq_true] at he ⊢
  constructor
  · exact (binarySearch_iff (models_sorted hp)).mpr (subset_of_all hm (mem_of_binarySearch he.1))
  · obtain ⟨s, hs, hle⟩ := (Option.any_eq_true _ _).mp he.2
    exact (Option.any_eq_true _ _).mpr ⟨s, hs,
      decide_eq_true (le_trans (of_decide_eq_true hle) hx)⟩

theorem permitsCommands_noWider {s2 : Sha256} {ei : String} {p c : Option ApprovedCommands}
    (hv : ∀ cs, p = some cs → cs.expiresAtMs ≤ expiresAtMs.toNat ∧ ∃ pol,
    cs.policy ei nowMs.toNat 0 = .ok pol)
    (h : permitsCommands p c = true) :
    Attenuates (ApprovedCommands.NoWider s2 · · expiresAtMs) p c := by
  rintro s rfl
  cases p with
  | none => simp [permitsCommands] at h
  | some b =>
    simp only [permitsCommands, and_eq_true, beq_iff_eq, decide_eq_true_eq] at h
    obtain ⟨⟨⟨⟨hm, hi⟩, hl⟩, hd⟩, hu⟩ := h
    obtain ⟨he, _, ho⟩ := hv b rfl
    obtain ⟨d, hp, hh, hs, -, -⟩ := policy_eq_ok.mp ho
    refine ⟨b, rfl, ⟨hl, he⟩, fun ai t now pol hc => ?_⟩
    obtain ⟨d', hp', hh', hs', ht, rfl⟩ := policy_eq_ok.mp hc
    have hg : d' = d := by
      rw [hm, hp] at hp'
      exact (Except.ok.inj hp').symm
    subst hg
    refine ⟨_, policy_eq_ok.mpr ⟨d', hp, hh, hs, lt_of_lt_of_le ht hl, rfl⟩, ?_, ?_, ?_, ?_⟩
    · simp [CommandScope.isWithin, hs, hs', hi, hu]
    · exact Nat.add_le_add_left (Nat.sub_le_sub_right hl t) now
    · intro ha
      simpa [show s.allowDelegation = true from ha] using hd
    · intro req hr
      simp only [CommandScope.permits, and_eq_true, decide_eq_true_eq] at hr ⊢
      exact ⟨hr.1, le_trans hr.2 hi⟩

/-- What a valid envelope says of its scopes. -/
structure Sound (rules : EnvelopeRules) (envelope : RunEnvelope) (nowMs : UInt64) : Prop where
  revision : envelope.envelopeRevision ≠ 0
  beads (scope : ApprovedBeadsMutations) : envelope.beadScope = some scope →
    scope.valid nowMs = true ∧ scope.expiresAtMs ≤ envelope.expiresAtMs
  provider (scope : ApprovedProviderRequests) : envelope.providerRequests = some scope →
    scope.valid rules.disclosure nowMs = true ∧ scope.expiresAtMs ≤ envelope.expiresAtMs
  skills (scope : ApprovedSkillRequests) : envelope.skillRequests = some scope →
    scope.valid nowMs = true ∧ scope.expiresAtMs ≤ envelope.expiresAtMs
  commands (commands : ApprovedCommands) : envelope.commands = some commands →
    commands.expiresAtMs ≤ envelope.expiresAtMs.toNat ∧
      ∃ policy, commands.policy envelope.envelopeId nowMs.toNat 0 = .ok policy

variable {envelope : RunEnvelope}

theorem RunEnvelope.validate_sound {rules : EnvelopeRules}
    (h : envelope.validate rules nowMs = .ok ()) : Sound rules envelope nowMs := by
  simp only [validate, require_ok, and_eq_true, Option.all_eq_true,
    decide_eq_true_eq, bne_iff_ne, ne_eq] at h
  obtain ⟨⟨⟨⟨⟨⟨⟨⟨⟨⟨-, hr⟩, -⟩, -⟩, -⟩, -⟩, hb⟩, hp⟩, hs⟩, hc⟩, -⟩ := h
  refine ⟨hr, hb, hp, hs, fun cs hso => ?_⟩
  obtain ⟨he, ho⟩ := hc cs hso
  refine ⟨he, ?_⟩
  cases hres : cs.policy envelope.envelopeId nowMs.toNat 0 with
  | error error => simp [hres, Except.isOk, Except.toBool] at ho
  | ok p => exact ⟨p, rfl⟩

/-- A grant that an envelope permits widens none of its authority. -/
theorem RunEnvelope.permitsChild_noWider {rules : EnvelopeRules} {Skills Dependencies : Type}
    {g : ChildGrant Skills Dependencies}
    (h : envelope.permitsChild rules g nowMs = .ok ()) : NoWider rules g envelope := by
  simp only [permitsChild, check_ok, require_ok, and_eq_true, beq_iff_eq,
    decide_eq_true_eq] at h
  obtain ⟨hv, ⟨⟨⟨⟨⟨hr, -⟩, hrev⟩, -⟩, hl⟩, -⟩, hc, hk, hbe, hp⟩ := h
  have hs := validate_sound hv
  refine ⟨hr, hrev, hl, ?_, ?_, ?_, ?_⟩
  · exact permitsCommands_noWider hs.commands hc
  · exact within_iff hk fun s b hb he =>
      permitsSkills_noWider (hs.skills b hb).1 (hs.skills b hb).2 he
  · exact within_iff hbe fun s b hb he =>
      permitsBeads_noWider (hs.beads b hb).1 (hs.beads b hb).2 he
  · exact within_iff hp fun s b hb he =>
      permitsProvider_noWider (hs.provider b hb).1 (hs.provider b hb).2
        he

/-! ### The latest revision -/

/-- The file that a whole revision is stored in. -/
def revisionEntry (envelope : RunEnvelope) : String × Stored RunEnvelope :=
  (revisionFile envelope.envelopeRevision, .whole envelope)

theorem revisionEntry_injective : Function.Injective revisionEntry := by
  intro l r h
  simpa [revisionEntry] using congrArg Prod.snd h

variable {rules : EnvelopeRules} {runId : String} {seen af : Option RunEnvelope × List UInt64}

theorem visitRevision_ok {e : String × Stored RunEnvelope}
    (h : visitRevision rules runId seen e = .ok af) : ∃ r, e = revisionEntry r ∧ r.runId = runId ∧
      r.envelopeRevision ∉ seen.2 ∧ af.2 = r.envelopeRevision :: seen.2 ∧
      af.1 = if seen.1.all (·.envelopeRevision < r.envelopeRevision) then some r
        else seen.1 := by
  obtain ⟨n, s⟩ := e
  unfold visitRevision at h
  obtain ⟨r, hr, h⟩ := bind_ok.mp h
  simp only [check_ok, require_ok, and_eq_true, beq_iff_eq, Bool.not_eq_true',
    contains_eq_mem, decide_eq_false_iff_not] at h
  obtain ⟨-, ⟨⟨hu, hn⟩, he⟩, ha⟩ := h
  cases s with
  | torn => simp [Stored.read] at hr
  | whole held =>
    have hh : held = r := by
      simp only [Stored.read] at hr
      split at hr
      · exact Except.ok.inj hr
      · simp at hr
    subst hh
    have ha' := Except.ok.inj ha
    refine ⟨held, by rw [revisionEntry, ← hn], hu, he, ?_, ?_⟩
    · rw [← ha']
    · rw [← ha']

/-- The revisions of a listing, none twice, and the highest of them. -/
structure Latest (runId : String) (entries : Records RunEnvelope) (records : List RunEnvelope)
    (latest : Option RunEnvelope) : Prop where
  stored : entries = records.map revisionEntry
  ofRun : ∀ record ∈ records, record.runId = runId
  distinct : (records.map (·.envelopeRevision)).Nodup
  member (record : RunEnvelope) : latest = some record → record ∈ records
  highest (record : RunEnvelope) : record ∈ records →
    ∃ found, latest = some found ∧ record.envelopeRevision ≤ found.envelopeRevision

variable {es : Records RunEnvelope} {la : Option RunEnvelope}

theorem Latest.snoc {records : List RunEnvelope} (h : Latest runId es records la) {r : RunEnvelope}
    (hr : r.runId = runId) (hn : r.envelopeRevision ∉ records.map (·.envelopeRevision)) :
    Latest runId (es ++ [revisionEntry r]) (records ++ [r])
      (if la.all (·.envelopeRevision < r.envelopeRevision) then some r
        else la) where
  stored := by rw [h.stored, map_append, map_singleton]
  ofRun := by
    intro o ho
    rcases mem_append.mp ho with ho | ho
    · exact h.ofRun o ho
    · rw [mem_singleton.mp ho, hr]
  distinct := by
    rw [map_append, map_singleton]
    exact nodup_append.mpr ⟨h.distinct, nodup_singleton _, fun revision he o
      ho hs => hn (mem_singleton.mp ho ▸ hs ▸ he)⟩
  member := by
    intro f hf
    rw [mem_append, mem_singleton]
    split at hf
    · exact .inr (Option.some.inj hf).symm
    · exact .inl (h.member f hf)
  highest := by
    intro o ho
    rw [mem_append, mem_singleton] at ho
    split
    · next ha =>
      refine ⟨r, rfl, ?_⟩
      rcases ho with ho | rfl
      · obtain ⟨f, hf, hl⟩ := h.highest o ho
        have hlt := (Option.all_eq_true _ _).mp ha f hf
        exact UInt64.le_trans hl (UInt64.le_of_lt (of_decide_eq_true hlt))
      · exact UInt64.le_refl _
    · next ha =>
      rcases ho with ho | rfl
      · exact h.highest o ho
      · rw [Bool.not_eq_true, Option.all_eq_false] at ha
        obtain ⟨f, hf, ht⟩ := ha
        exact ⟨f, hf, UInt64.not_lt.mp (of_decide_eq_false ht)⟩

private theorem foldlM_visitRevision {se : Records RunEnvelope} {sr : List RunEnvelope}
    (hs : Latest runId se sr seen.1) (hr : seen.2 = (sr.map (·.envelopeRevision)).reverse)
    (h : es.foldlM (visitRevision rules runId) seen = .ok af) :
    ∃ records, Latest runId (se ++ es) records af.1 ∧
      af.2 = (records.map (·.envelopeRevision)).reverse := by
  induction es generalizing se sr seen with
  | nil =>
    cases h
    exact ⟨sr, by simpa using hs, hr⟩
  | cons e es ih =>
    rw [foldlM_cons] at h
    obtain ⟨m, hv, hrs⟩ := bind_ok.mp h
    obtain ⟨r, rfl, hu, hn, hi, hl⟩ := visitRevision_ok hv
    have hf : r.envelopeRevision ∉ sr.map (·.envelopeRevision) := by
      rwa [hr, mem_reverse] at hn
    have ht := hs.snoc hu hf
    rw [← hl] at ht
    obtain ⟨records, he, ha⟩ := ih ht (by simp [hi, hr]) hrs
    exact ⟨records, by simpa using he, ha⟩

/-- The latest revision of a Run is as high as the number of its whole records, which are
all that its directory has. -/
theorem current_ok {l : Option (Records RunEnvelope)} (h : current rules runId l = .ok la) :
    ∃ records, Latest runId (l.getD []) records la ∧
      ∀ f, la = some f → f.envelopeRevision.toNat = records.length := by
  unfold current at h
  obtain ⟨-, h⟩ := check_ok.mp h
  have he : Latest runId [] [] none :=
    ⟨rfl, fun _ h => absurd h not_mem_nil, nodup_nil, fun _ h => absurd h (by simp),
      fun _ h => absurd h not_mem_nil⟩
  cases l with
  | none =>
    cases h
    exact ⟨[], he, fun _ h => absurd h (by simp)⟩
  | some es =>
    obtain ⟨seen, hfl, h⟩ := bind_ok.mp h
    obtain ⟨hc, h⟩ := check_ok.mp h
    obtain ⟨records, hl, hr⟩ := foldlM_visitRevision he rfl hfl
    cases h
    refine ⟨records, hl, fun f ho => ?_⟩
    have hf := (Option.all_eq_true _ _).mp (require_ok.mp hc) f ho
    rw [beq_iff_eq, hr] at hf
    simpa using hf

/-! ### The revisions of a Run -/

/-- The records of a Run: its revisions from one on, each whole, and at most the torn write
of the next one. -/
structure Chain (runId : String) (records : Records RunEnvelope) (envelopes : List RunEnvelope) :
    Prop where
  revisions : envelopes.map (·.envelopeRevision.toNat) = List.range' 1 envelopes.length
  ofRun : ∀ envelope ∈ envelopes, envelope.runId = runId
  stored : records = envelopes.map revisionEntry ∨
    ∃ next : UInt64, next.toNat = envelopes.length + 1 ∧
      records = envelopes.map revisionEntry ++ [(revisionFile next, .torn)]

theorem chain_empty (runId : String) : Chain runId [] [] :=
  ⟨rfl, fun _ h => absurd h not_mem_nil, .inl rfl⟩

variable {records : Records RunEnvelope} {envelopes : List RunEnvelope}

/-- The revision that is as high as the number of revisions is the last one. -/
theorem Chain.getLast (h : Chain runId records envelopes) {f : RunEnvelope} (hf : f ∈ envelopes)
    (hr : f.envelopeRevision.toNat = envelopes.length) : envelopes.getLast? = some f := by
  obtain ⟨i, hi, rfl⟩ := mem_iff_getElem.mp hf
  have hn : (envelopes.map (·.envelopeRevision.toNat))[i]? = some (1 + i) := by
    rw [h.revisions, List.getElem?_range' hi]
    simp
  rw [List.getElem?_map, List.getElem?_eq_getElem hi, Option.map_some, Option.some.injEq] at hn
  rw [List.getLast?_eq_getElem?, show envelopes.length - 1 = i by omega,
    List.getElem?_eq_getElem hi]

variable {store : RunEnvelopeStore}

/-- Where a Run's directory can be read, no record of it is torn, and the latest revision is
the highest one stored. -/
theorem Chain.current {o : Order} (h : Chain runId ((store runId).getD []) envelopes)
    (hc : current rules runId ((store runId).map o.list) = .ok la) :
    (store runId).getD [] = envelopes.map revisionEntry ∧ la = envelopes.getLast? := by
  obtain ⟨records, hl, hcnt⟩ := current_ok hc
  have hp : (records.map revisionEntry).Perm ((store runId).getD []) := by
    rw [← hl.stored]
    cases store runId with
    | none => exact .refl _
    | some es => exact o.perm es
  have hw : (store runId).getD [] = envelopes.map revisionEntry := by
    rcases h.stored with hst | ⟨s, -, hst⟩
    · exact hst
    · have ht : (revisionFile s, Stored.torn) ∈ records.map revisionEntry :=
        hp.mem_iff.mpr (hst ▸ mem_append_right _ (mem_singleton_self _))
      obtain ⟨r, -, hr⟩ := mem_map.mp ht
      simp [revisionEntry] at hr
  rw [hw] at hp
  have hs : records.Perm envelopes := (map_perm_map_iff revisionEntry_injective).mp hp
  refine ⟨hw, ?_⟩
  cases la with
  | none =>
    have hn : records = [] := eq_nil_iff_forall_not_mem.mpr fun r hr => by
      obtain ⟨f, hf, -⟩ := hl.highest r hr
      simp at hf
    rw [hn] at hs
    rw [hs.nil_eq.symm]
    rfl
  | some f =>
    refine (h.getLast (hs.mem_iff.mp (hl.member f rfl)) ?_).symm
    rw [hcnt f rfl, hs.length_eq]

/-- The next approval names the number after the revisions that are stored. -/
theorem Chain.expected (h : Chain runId records envelopes) {rev : UInt64}
    (he : expectedRevision envelopes.getLast? = .ok rev) : rev.toNat = envelopes.length + 1 := by
  rcases eq_nil_or_concat envelopes with rfl | ⟨i, l, rfl⟩
  · cases he
    rfl
  · have hl : l.envelopeRevision.toNat = i.length + 1 := by
      have hn := h.revisions
      rw [concat_eq_append, map_append, length_append, length_singleton, List.range'_concat] at hn
      have ho := (append_inj' hn rfl).2
      simp only [map_singleton, List.cons.injEq, and_true] at ho
      omega
    rw [concat_eq_append, List.getLast?_concat] at he
    unfold expectedRevision at he
    split at he
    · simp at *
    · next p heq =>
      cases heq
      split at he
      · next hb =>
        cases he
        rw [UInt64.toNat_add, UInt64.toNat_one, Nat.mod_eq_of_lt hb, hl]
        simp
      · simp at he

/-- What the write of a new record leaves: nothing more, a torn file, or the whole record. -/
theorem writeNewRecord_leaves {α : Type} {records : Records α} {n : String} {r : α}
    {f : WriteFault} : (writeNewRecord records n r f).2 = records ∨
      (writeNewRecord records n r f).2 = records ++ [(n, .torn)] ∨
        (writeNewRecord records n r f).2 = records ++ [(n, .whole r)] := by
  unfold writeNewRecord
  split
  · exact .inl rfl
  · cases f with
    | none => exact .inr (.inr rfl)
    | refused => exact .inl rfl
    | torn => exact .inr (.inl rfl)
    | unconfirmed => exact .inr (.inr rfl)

theorem Chain.write (h : Chain runId (envelopes.map revisionEntry) envelopes)
    (hr : envelope.runId = runId) (hn : envelope.envelopeRevision.toNat = envelopes.length + 1)
    (f : WriteFault) : ∃ af, Chain runId (writeNewRecord (envelopes.map revisionEntry)
      (revisionFile envelope.envelopeRevision) envelope f).2 af := by
  rcases writeNewRecord_leaves with hs | ht | hw
  · exact ⟨envelopes, hs ▸ h⟩
  · exact ⟨envelopes, h.revisions, h.ofRun, .inr ⟨_, hn, ht⟩⟩
  · refine ⟨envelopes ++ [envelope], ?_, ?_, .inl ?_⟩
    · rw [map_append, map_singleton, length_append, length_singleton,
        List.range'_concat, h.revisions, hn]
      simp [Nat.add_comm]
    · intro o ho
      rcases mem_append.mp ho with ho | ho
      · exact h.ofRun o ho
      · rw [mem_singleton.mp ho, hr]
    · rw [hw, map_append, map_singleton, revisionEntry]

/-- One approval: its envelope and time, the lifecycle guard, the order in which the
directory lists, and where the call stops. -/
structure ApprovalCall where
  order : Order
  envelope : RunEnvelope
  nowMs : UInt64
  guard : Except BrokerError Unit
  fault : ApprovalFault

/-- What an approval leaves of the store. -/
def approve (rules : EnvelopeRules) (store : RunEnvelopeStore) (call : ApprovalCall) :
    RunEnvelopeStore :=
  (approveWith rules store call.order call.envelope call.nowMs call.guard call.fault).2

/-- The records of every Run are a chain of its revisions. -/
def Chained (store : RunEnvelopeStore) : Prop :=
  ∀ runId, ∃ envelopes, Chain runId ((store runId).getD []) envelopes

theorem approve_chained (h : Chained store) (c : ApprovalCall) :
    Chained (approve rules store c) := by
  unfold approve approveWith
  split
  · exact h
  · next hh =>
    unfold checkApproval at hh
    obtain ⟨-, -, hh⟩ : _ ∧ _ ∧ _ := by simpa only [check_ok] using hh
    obtain ⟨la, hu, hh⟩ := bind_ok.mp hh
    obtain ⟨e, he, hv⟩ := bind_ok.mp hh
    have hs := beq_iff_eq.mp (require_ok.mp hv)
    obtain ⟨envelopes, hc⟩ := h c.envelope.runId
    obtain ⟨hw, rfl⟩ := hc.current hu
    have hn := hc.expected (hs ▸ he)
    rw [hw] at hc
    intro runId
    by_cases hr : runId = c.envelope.runId
    · subst hr
      dsimp only
      cases c.fault with
      | refused => exact h _
      | directory => exact ⟨envelopes, by simpa [hw] using hc⟩
      | record f =>
        obtain ⟨af, ha⟩ := hc.write rfl hn f
        refine ⟨af, ?_⟩
        simpa [hw] using ha
    · obtain ⟨os, ho⟩ := h runId
      refine ⟨os, ?_⟩
      dsimp only
      cases c.fault with
      | refused => exact ho
      | directory => simpa [Function.update_of_ne hr] using ho
      | record f => simpa [Function.update_of_ne hr] using ho

/-! ### Runs of approvals -/

theorem withChild_ok {Skills Dependencies α : Type} {o : Order} {g : ChildGrant Skills Dependencies}
    {a : RunEnvelope → Except BrokerError α} {v : α}
    (h : withChild rules store o g nowMs a = .ok v) : ∃ envelope, current rules g.request.runId
        ((store g.request.runId).map o.list) = .ok (some envelope) ∧
      envelope.permitsChild rules g nowMs = .ok () ∧ a envelope = .ok v := by
  unfold withChild at h
  obtain ⟨la, hc, h⟩ := bind_ok.mp h
  cases la with
  | none => simp at h
  | some envelope =>
    obtain ⟨hp, ha⟩ := check_ok.mp h
    exact ⟨envelope, hc, hp, ha⟩

/-- The records of each Run are a chain of its revisions, and a child is authorized under
the last of them or not at all. -/
def OnlyHighest (rules : EnvelopeRules) (Skills Dependencies α : Type) (store : RunEnvelopeStore) :
    Prop :=
  ∀ runId, ∃ envelopes, Chain runId ((store runId).getD []) envelopes ∧
    ∀ (order : Order) (grant : ChildGrant Skills Dependencies) (nowMs : UInt64)
      (authorize : RunEnvelope → Except BrokerError α) (value : α),
      grant.request.runId = runId → withChild rules store order grant nowMs authorize = .ok value →
        ∃ highest, envelopes.getLast? = some highest ∧ authorize highest = .ok value

theorem Chained.onlyHighest (h : Chained store) (Skills Dependencies α : Type) :
    OnlyHighest rules Skills Dependencies α store := by
  intro runId
  obtain ⟨envelopes, hc⟩ := h runId
  refine ⟨envelopes, hc, ?_⟩
  rintro o g nowMs a v rfl hh
  obtain ⟨envelope, hu, -, ha⟩ := withChild_ok hh
  exact ⟨envelope, (hc.current hu).2.symm, ha⟩

/-- Whatever a child is authorized to do at any time, the Run's latest envelope permits
then; and along any run of approvals, wherever each stops, the revisions of a Run are those
from one to the number of them, of which only the highest authorizes a child. -/
theorem withChild_narrows (rules : EnvelopeRules) (Skills Dependencies α : Type) :
    (∀ (store : RunEnvelopeStore) (order : Order) (grant : ChildGrant Skills Dependencies)
      (nowMs : UInt64) (authorize : RunEnvelope → Except BrokerError α) (value : α),
      withChild rules store order grant nowMs authorize = .ok value →
        ∃ envelope, current rules grant.request.runId
            ((store grant.request.runId).map order.list) = .ok (some envelope) ∧
          authorize envelope = .ok value ∧ NoWider rules grant envelope) ∧
      ∀ calls : List ApprovalCall,
        Always (approve rules) (OnlyHighest rules Skills Dependencies α) (fun _ => none) calls := by
  constructor
  · intro store order grant nowMs authorize value h
    obtain ⟨envelope, hc, hp, ha⟩ := withChild_ok h
    exact ⟨envelope, hc, ha, permitsChild_noWider hp⟩
  · intro calls
    have he : Chained fun _ => none := fun runId => ⟨[], chain_empty runId⟩
    have hs : ∀ store c, Chained store → True → Chained (approve rules store c) :=
      fun store c h _ => approve_chained h c
    have hr : Always (approve rules) Chained (fun _ => none) calls :=
      always_of_throughout hs he (throughout_of_forall (fun _ _ => trivial) _ calls)
    exact hr.mono fun store h => h.onlyHighest Skills Dependencies α

section

private def reviewedRules : EnvelopeRules where
  disclosure := ⟨fun _ => none, ""⟩
  sha256 := fun _ => Vector.replicate 32 0
  canonicalBytes := fun _ => []

private def comments (effects : List BeadsEffect) (role : BeadsRole) : ApprovedBeadsMutations where
  projectDigest := (Digest.fromRaw (Vector.replicate 32 0)).toString
  role
  issueIds := ["louiselm-1"]
  effects
  maxMutations := 1
  expiresAtMs := 9

private def approvedRun (revision : UInt64) : RunEnvelope where
  schema := runEnvelopeSchema
  runId := "r"
  envelopeId := "e"
  envelopeRevision := revision
  controllerUid := 1000
  beadScope := some (comments [.commentAdd, .close] .coordinator)
  providerRequests := none
  commands := none
  skillRequests := none
  verificationPlanDigest := (Digest.fromRaw (Vector.replicate 32 0)).toString
  maxSessions := 1
  expiresAtMs := 9

private def workerGrant (revision : UInt64) : ChildGrant Unit Unit where
  role := .agent
  dependencies := none
  conformance := ⟨.interactive, none⟩
  requireColdRecovery := false
  request := ⟨"", 1, "q", "a", "s", "r", "g", "e", revision, (), ""⟩
  controllerUid := 1000
  expiresAtMs := 9
  brokerLossGraceMs := 500
  commands := none
  skillRequests := none
  beadsMutations := some (comments [.commentAdd] .worker)
  providerRequests := none

/-- Two approvals: the second revision authorizes a worker that only comments, the first one
no longer does. -/
example :
    let listed : Order := ⟨id, fun records => .refl records⟩
    let store := [approvedRun 1, approvedRun 2].foldl (fun store envelope =>
      approve reviewedRules store ⟨listed, envelope, 5, .ok (), .record .none⟩) fun _ => none
    withChild reviewedRules store listed (workerGrant 2) 6 (fun found => .ok found.envelopeRevision)
        = .ok 2 ∧ withChild reviewedRules store listed (workerGrant 1) 6
        (fun found => .ok found.envelopeRevision) = .error .invalidGrant := by
  decide +kernel

end

end Louiselm.Broker
