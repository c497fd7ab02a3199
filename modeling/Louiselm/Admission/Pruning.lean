import Louiselm.Admission.Withdrawals
import Louiselm.Endorsement.Focus
import Louiselm.Endorsement.RoundTrip

/-!
# What pruning changes

Pruning removes expired Endorsements. Focus has no use for them from then on, but the alerts
look up what a member relied on whatever its expiry. So pruning is invisible to focus at every
later time, and to the alerts on the condition stated here.
-/

namespace Louiselm.Admission
open Base Canonical List
open Endorsement Compact SupplyFiles Record Projection Directory
open Except (ok.injEq ok.inj)

section

variable {sha256 : Sha256} {fmt : JsonFormat} {sshsig : SshsigVerify} {listing : Listing}
  {embeddedPolicy : Digest}

/-! ### When the projection succeeds -/

/-- The records a projection works on. -/
def SupplyFiles.evidence (sha256 : Sha256) (fmt : JsonFormat) (files : SupplyFiles) :
    List Record := (files.endorsements.records sha256 fmt).records

/-- What the projection checks besides the positive Endorsements. -/
structure Projectable (sha256 : Sha256) (fmt : JsonFormat) (sshsig : SshsigVerify)
    (listing : Listing) (embeddedPolicy : Digest) (files : SupplyFiles) (domain : String)
    (expected : List String) (retained : Retained) (p : Projection) : Prop where
  settled : files.store.contents .journal = none
  trusted : files.store.trust = some p.trust
  domain : p.trust.trustDomain = domain
  layer : ∃ layer, files.layer = .ok layer ∧ effectiveEndorsers layer = .ok p.endorsers ∧
    layer.dropped = []
  readable : (files.endorsements.records sha256 fmt).unreadable = []
  expected : ∀ digest ∈ expected, ∃ withdrawal ∈ files.evidence sha256 fmt,
    withdrawal.withdraws = true ∧ (withdrawal.digest sha256).toString = digest
  quarantine : Quarantine.load fmt (files.store.contents .quarantine) = .ok p.quarantine
  current : currentGeneration fmt listing files.store p.trust.approvedAdmissions = .ok p.current
  generations : projectedGenerations fmt files.store retained p.current = .ok p.generations
  usable : ∀ record ∈ p.generations,
    verifyUsable sha256 fmt sshsig embeddedPolicy files.store p.trust record = .ok ()

/-- Whether every one of some records verifies. -/
def AllVerify (sha256 : Sha256) (sshsig : SshsigVerify) (records : List Record) : Prop :=
  ∀ record ∈ records, (record.verifySignature sha256 sshsig .none).isOk = true

namespace Projection

/-- Whether a package in force of a projected Generation was reviewed on a record. -/
def ReliesOn (p : Projection) (retained : Retained) (digest : String) : Prop :=
  ∃ record ∈ p.generations, ∃ member ∈ effectiveMembers record (p.effective retained record),
    digest ∈ member.reliedOn

/-- Whether all that was relied on is among some records as an Endorsement. -/
def Covered (p : Projection) (sha256 : Sha256) (retained : Retained) (records : List Record) :
    Prop :=
  ∀ digest, p.ReliesOn retained digest → ∃ endorsement ∈ records,
    endorsement.kind = .endorsement ∧ (endorsement.digest sha256).toString = digest

/-- The alerts collected from every projected Generation. -/
def observed (p : Projection) (sha256 : Sha256) (retained : Retained) (evidence : List Record) :
    List WithdrawalAlert :=
  p.generations.foldl (fun observed record =>
    (fromRecords sha256 record (p.effective retained record) p.endorsers evidence).foldl
      (fun observed alert => observe alert observed) observed) []

/-- Whether a projection makes nothing of what pruning removes: on complete, verified evidence
no package in force relies on it, and what is left is not complete and verified where the whole
was not verified. -/
def Indifferent (p : Projection) (sha256 : Sha256) (sshsig : SshsigVerify) (retained : Retained)
    (records : List Record) (prunedMs : UInt64) : Prop :=
  (AllVerify sha256 sshsig records → p.Covered sha256 retained records →
    ∀ endorsement ∈ records, p.ReliesOn retained (endorsement.digest sha256).toString →
      endorsement.prunable prunedMs = false) ∧
  (AllVerify sha256 sshsig (records.filter (!·.prunable prunedMs)) →
    p.Covered sha256 retained (records.filter (!·.prunable prunedMs)) →
      AllVerify sha256 sshsig records)

end Projection

/-- Whether each verified withdrawal that takes back a removed Endorsement of a member also
takes back another record the member relied on. -/
def TakenBackElsewhere (sha256 : Sha256) (sshsig : SshsigVerify) (records : List Record)
    (prunedMs : UInt64) (member : Member) : Prop :=
  ∀ endorsement ∈ records, endorsement.prunable prunedMs = true →
    (endorsement.digest sha256).toString ∈ member.reliedOn →
  ∀ withdrawal ∈ records, withdrawal.withdraws = true →
    withdrawal.counts sha256 sshsig = true → withdrawal.takesBack endorsement = true →
  ∃ kept ∈ records, kept.counts sha256 sshsig = true ∧ kept.prunable prunedMs = false ∧
    (kept.digest sha256).toString ∈ member.reliedOn ∧ withdrawal.takesBack kept = true

variable {evidence : List Record}

theorem requireEvidence_ok (h : Distinct sha256 evidence) {k : StatementKind} {r d : String} :
    requireEvidence sha256 evidence k r d = .ok () ↔
      ∃ record ∈ evidence, record.kind = k ∧ (record.digest sha256).toString = d := by
  rw [requireEvidence, require_ok, beq_iff_eq, Option.map_eq_some_iff]
  refine exists_congr fun record => ?_
  rw [byDigest_eq_some h, and_assoc]
  exact and_congr_right fun _ => and_comm

/-- The stored records are told apart by their digests. -/
theorem SupplyFiles.distinct (files : SupplyFiles) :
    Distinct sha256 (files.evidence sha256 fmt) := by
  intro a ha b hb
  exact inj_on_of_nodup_map (nodup_records files.endorsements) ha hb

variable {al : WithdrawalAlert} {observed : List WithdrawalAlert}

theorem mem_observe {o : WithdrawalAlert} (h : o ∈ observe al observed) :
    o = al ∨ o ∈ observed := by
  induction observed with
  | nil => exact .inl (mem_singleton.mp h)
  | cons x xs ih =>
    unfold observe at h
    split at h
    · exact mem_cons.mp h
    · rcases mem_cons.mp h with rfl | hr
      · split
        · exact .inl rfl
        · exact .inr (mem_cons_self ..)
      · exact .inr (mem_cons_of_mem _ hr)
    · rcases mem_cons.mp h with rfl | hr
      · exact .inr (mem_cons_self ..)
      · exact (ih hr).imp_right (mem_cons_of_mem _)

variable {ale : List WithdrawalAlert}

private theorem mem_observeAll
    (h : al ∈ ale.foldl (fun observed al => observe al observed) observed) :
    al ∈ ale ∨ al ∈ observed := by
  induction ale generalizing observed with
  | nil => exact .inr h
  | cons x ale ih =>
    rw [foldl_cons] at h
    rcases ih h with hm | hm
    · exact .inl (mem_cons_of_mem _ hm)
    · rcases mem_observe hm with rfl | hm
      · exact .inl (mem_cons_self ..)
      · exact .inr hm

variable {p : Projection}

/-- An observed alert is about a withdrawal among the evidence. -/
theorem Projection.mem_observed {r : Retained} (h : Distinct sha256 evidence)
    (ha : al ∈ p.observed sha256 r evidence) : ∃ w ∈ evidence, w.withdraws = true ∧
      (w.digest sha256).toString = al.withdrawal := by
  have ho : ∀ (g : List GenerationRecord) (observed : List WithdrawalAlert),
      al ∈ g.foldl (fun observed record =>
        (fromRecords sha256 record (p.effective r record) p.endorsers evidence).foldl
          (fun observed al => observe al observed) observed) observed →
      al ∈ observed ∨ ∃ record,
        al ∈ fromRecords sha256 record (p.effective r record) p.endorsers evidence := by
    intro g
    induction g with
    | nil => exact fun _ hm => .inl hm
    | cons record g ih =>
      intro observed hm
      rcases ih _ hm with hm | hf
      · exact (mem_observeAll hm).symm.imp_right fun hm => ⟨record, hm⟩
      · exact .inr hf
  rcases ho p.generations [] ha with hn | ⟨record, hm⟩
  · contradiction
  · exact withdrawal_of_mem_fromRecords h hm

/-- An observed alert can be labelled. -/
theorem relabel_observed (p : Projection) (r : Retained) (h : Distinct sha256 evidence) :
    ∃ ale, (p.observed sha256 r evidence).mapM (relabel sha256 p.endorsers evidence) =
        .ok ale := by
  have hla : ∀ al ∈ p.observed sha256 r evidence, ∃ l,
      relabel sha256 p.endorsers evidence al = .ok l := by
    intro al ha
    obtain ⟨w, hm, _, hd⟩ := mem_observed h ha
    rw [relabel, (byDigest_eq_some h).mpr ⟨hm, hd⟩]
    exact ⟨_, rfl⟩
  choose! l hl using hla
  refine ⟨(p.observed sha256 r evidence).map l, mapM_ok.mpr ?_⟩
  rw [forall₂_map_right_iff, forall₂_same]
  exact hl

variable {files : SupplyFiles} {dom : String} {exp : List String} {re : Retained}

theorem Projection.project_ok (h : Distinct sha256 evidence) (observed : List WithdrawalAlert)
    (record : GenerationRecord) (l : List WithdrawalAlert) :
    p.project sha256 fmt sshsig embeddedPolicy files.store re evidence observed record =
        .ok l ↔ (verifyUsable sha256 fmt sshsig embeddedPolicy files.store p.trust record = .ok () ∧
        ∀ m ∈ effectiveMembers record (p.effective re record),
          ∀ d ∈ m.reliedOn, ∃ e ∈ evidence, e.kind = .endorsement ∧
              (e.digest sha256).toString = d) ∧
        (fromRecords sha256 record (p.effective re record) p.endorsers evidence).foldl
          (fun observed al => observe al observed) observed = l := by
  simp only [project, check_ok, forM_ok, requireEvidence_ok h, pure, Except.pure,
    ok.injEq, and_assoc]

theorem Projection.foldlM_project (h : Distinct sha256 evidence) {f : List WithdrawalAlert} :
    p.generations.foldlM (p.project sha256 fmt sshsig embeddedPolicy files.store re evidence)
        [] = .ok f ↔ (∀ record ∈ p.generations,
        verifyUsable sha256 fmt sshsig embeddedPolicy files.store p.trust record = .ok ()) ∧
      p.Covered sha256 re evidence ∧ p.observed sha256 re evidence = f := by
  rw [foldlM_ok (project_ok h), ← and_assoc]
  refine and_congr ⟨fun ha => ⟨fun record he => (ha record he).1, ?_⟩, ?_⟩ Iff.rfl
  · rintro d ⟨record, he, m, hm, hd⟩
    exact (ha record he).2 m hm d hd
  · rintro ⟨hu, hc⟩ record he
    exact ⟨hu record he, fun m hm d hd =>
      hc d ⟨record, he, m, hm, hd⟩⟩

variable {record : Record}

theorem withdraws_iff : record.withdraws = true ↔ record.kind = .withdrawal :=
  beq_iff_eq

theorem verifiedEndorsements_ok {e : EndorserSet} :
    verifiedEndorsements sha256 fmt sshsig files = .ok (e, evidence) ↔
      (∃ l, files.layer = .ok l ∧ effectiveEndorsers l = .ok e ∧ l.dropped = []) ∧
      (files.endorsements.records sha256 fmt).unreadable = [] ∧
      AllVerify sha256 sshsig (files.evidence sha256 fmt) ∧
      files.evidence sha256 fmt = evidence := by
  simp only [verifiedEndorsements, bind_ok, mapError_ok, require_ok, forM_ok,
    List.isEmpty_iff, pure, Except.pure, ok.injEq, Prod.mk.injEq]
  constructor
  · rintro ⟨l, hl, f, hf, _, hd, _, hr, _, hv, rfl, rfl⟩
    exact ⟨⟨l, hl, hf, hd⟩, hr, hv, rfl⟩
  · rintro ⟨⟨l, hl, hf, hd⟩, hr, hv, rfl⟩
    exact ⟨l, hl, e, hf, (), hd, (), hr, (), hv, rfl, rfl⟩

/-- The projection succeeds on complete, verified evidence and yields what is observed. -/
theorem supplyWithdrawalAlerts_ok :
    supplyWithdrawalAlerts sha256 fmt sshsig listing embeddedPolicy files dom exp re = .ok ale ↔
      ∃ p, Projectable sha256 fmt sshsig listing embeddedPolicy files dom exp re p ∧
        AllVerify sha256 sshsig (files.evidence sha256 fmt) ∧
        p.Covered sha256 re (files.evidence sha256 fmt) ∧
        (p.observed sha256 re (files.evidence sha256 fmt)).mapM
          (relabel sha256 p.endorsers (files.evidence sha256 fmt)) = .ok ale := by
  have hdi : Distinct sha256 (files.evidence sha256 fmt) := files.distinct
  unfold supplyWithdrawalAlerts
  cases ht : files.store.trust with
  | none =>
    simp only [bind_ok, reduceCtorEq, and_false, exists_false, false_iff, not_exists]
    rintro p ⟨h, _⟩
    have ho := h.trusted
    rw [ht] at ho
    contradiction
  | some t =>
    simp only [bind_ok, require_ok, forM_ok, mapError_ok, beq_iff_eq, Option.isNone_iff_eq_none]
    constructor
    · rintro ⟨_, hs, _, hd, ⟨endorsers, evidence⟩, hv, _, he, quarantine,
        hq, current, hcur, generations, hg, found, hf, ha⟩
      obtain ⟨hl, hr, hver, rfl⟩ := verifiedEndorsements_ok.mp hv
      obtain ⟨hu, hc, rfl⟩ := (foldlM_project hdi).mp hf
      refine ⟨⟨t, endorsers, quarantine, current, generations⟩, ?_, hver, hc, ha⟩
      exact {
        settled := hs
        trusted := ht
        domain := hd
        layer := hl
        readable := hr
        expected := fun d hi => by
          simpa only [withdraws_iff] using (requireEvidence_ok hdi).mp (he d hi)
        quarantine := hq
        current := hcur
        generations := hg
        usable := hu }
    · rintro ⟨p, h, hver, hc, ha⟩
      have hsa : t = p.trust := Option.some.inj (ht.symm.trans h.trusted)
      subst hsa
      have he : ∀ d ∈ exp, requireEvidence sha256 (files.evidence sha256 fmt)
          .withdrawal "previously observed Withdrawal evidence is missing" d = .ok () := by
        intro d hi
        simpa only [requireEvidence_ok hdi, withdraws_iff] using h.expected d hi
      exact ⟨(), h.settled, (), h.domain, ⟨p.endorsers, files.evidence sha256 fmt⟩,
        verifiedEndorsements_ok.mpr ⟨h.layer, h.readable, hver, rfl⟩, (), he,
        p.quarantine, h.quarantine, p.current, h.current, p.generations, h.generations,
        p.observed sha256 re (files.evidence sha256 fmt),
        (foldlM_project hdi).mpr ⟨h.usable, hc, rfl⟩, ha⟩

/-! ### The projection after pruning -/

/-- The files once pruning at `prunedMs` has removed what it removes. -/
def SupplyFiles.prune (sha256 : Sha256) (fmt : JsonFormat) (files : SupplyFiles)
    (prunedMs : UInt64) : SupplyFiles :=
  { files with endorsements := (files.endorsements.pruneExpired sha256 fmt prunedMs).2 }

variable {pm : UInt64}

theorem SupplyFiles.evidence_prune (files : SupplyFiles) (pm : UInt64) :
    (files.prune sha256 fmt pm).evidence sha256 fmt =
      (files.evidence sha256 fmt).filter (!·.prunable pm) := by
  rw [evidence, prune, records_pruneExpired]
  rfl

theorem not_prunable_of_withdraws (h : record.withdraws = true) (ms : UInt64) :
    record.prunable ms = false := by
  rw [withdraws_iff] at h
  simp [prunable, h]

theorem SupplyFiles.mem_evidence_prune : record ∈ (files.prune sha256 fmt pm).evidence sha256 fmt ↔
      record ∈ files.evidence sha256 fmt ∧ record.prunable pm = false := by
  rw [evidence_prune, mem_filter, Bool.not_eq_true']

/-- Pruning changes none of the other checks. -/
theorem projectable_prune :
    Projectable sha256 fmt sshsig listing embeddedPolicy (files.prune sha256 fmt pm) dom exp re p ↔
      Projectable sha256 fmt sshsig listing embeddedPolicy files dom exp re p := by
  have hr : ((files.prune sha256 fmt pm).endorsements.records sha256 fmt).unreadable =
      (files.endorsements.records sha256 fmt).unreadable := by
    rw [prune, records_pruneExpired]
  have he : ∀ dg, (∃ w ∈ (files.prune sha256 fmt pm).evidence sha256 fmt,
        w.withdraws = true ∧ (w.digest sha256).toString = dg) ↔ ∃ w ∈ files.evidence sha256 fmt,
        w.withdraws = true ∧ (w.digest sha256).toString = dg := by
    intro dg
    refine exists_congr fun w => ?_
    rw [evidence_prune, mem_filter, and_assoc]
    refine and_congr_right fun _ => and_iff_right_of_imp fun h => ?_
    rw [not_prunable_of_withdraws h.1 pm]
    rfl
  constructor
  · rintro ⟨h1, h2, h3, h4, h5, h6, h7, h8, h9, h10⟩
    exact ⟨h1, h2, h3, h4, hr ▸ h5, fun d hd => (he d).mp (h6 d hd), h7, h8, h9, h10⟩
  · rintro ⟨h1, h2, h3, h4, h5, h6, h7, h8, h9, h10⟩
    exact ⟨h1, h2, h3, h4, hr ▸ h5, fun d hd => (he d).mpr (h6 d hd), h7, h8, h9, h10⟩

/-- The other checks settle one projection. -/
theorem Projectable.unique {p' : Projection}
    (h : Projectable sha256 fmt sshsig listing embeddedPolicy files dom exp re p)
    (h' : Projectable sha256 fmt sshsig listing embeddedPolicy files dom exp re p') : p = p' := by
  obtain ⟨t, e, q, c, g⟩ := p
  obtain ⟨t', e', q', c', g'⟩ := p'
  obtain rfl : t = t' := Option.some.inj (h.trusted.symm.trans h'.trusted)
  obtain ⟨l, hl, he, _⟩ := h.layer
  obtain ⟨l', hl', he', _⟩ := h'.layer
  obtain rfl : l = l' := ok.inj (hl.symm.trans hl')
  obtain rfl : e = e' := ok.inj (he.symm.trans he')
  obtain rfl : q = q' := ok.inj (h.quarantine.symm.trans h'.quarantine)
  obtain rfl : c = c' := ok.inj (h.current.symm.trans h'.current)
  obtain rfl : g = g' :=
    ok.inj (h.generations.symm.trans h'.generations)
  rfl

/-- A record that pruning leaves is found alike. -/
theorem byDigest_prune {d : String} (hr : record ∈ (files.prune sha256 fmt pm).evidence sha256 fmt)
    (hd : (record.digest sha256).toString = d) :
    byDigest sha256 ((files.prune sha256 fmt pm).evidence sha256 fmt) d =
      byDigest sha256 (files.evidence sha256 fmt) d := by
  rw [(byDigest_eq_some (distinct _)).mpr ⟨hr, hd⟩]
  exact ((byDigest_eq_some files.distinct).mpr ⟨(mem_evidence_prune.mp hr).1, hd⟩).symm

/-- Where pruning leaves all that was relied on, the alerts are the same. -/
theorem Projection.observed_prune
    (h : p.Covered sha256 re ((files.prune sha256 fmt pm).evidence sha256 fmt)) :
    p.observed sha256 re ((files.prune sha256 fmt pm).evidence sha256 fmt) =
      p.observed sha256 re (files.evidence sha256 fmt) := by
  have hw : ((files.prune sha256 fmt pm).evidence sha256 fmt).filter
      withdraws = (files.evidence sha256 fmt).filter withdraws := by
    rw [evidence_prune, filter_filter]
    refine filter_congr fun record _ => ?_
    cases hwd : record.withdraws with
    | false => rfl
    | true => rw [not_prunable_of_withdraws hwd]; rfl
  rw [observed, observed]
  refine foldl_ext _ _ _ fun observed record he => ?_
  congr 1
  rw [fromRecords, fromRecords]
  congr 1
  refine flatMap_congr fun m hm => memberAlerts_congr hw ?_
  intro r hr
  obtain ⟨e, hmem, _, hd⟩ := h r ⟨record, he, m, hm, hr⟩
  exact byDigest_prune hmem hd

theorem relabel_prune : (p.observed sha256 re (files.evidence sha256 fmt)).mapM
        (relabel sha256 p.endorsers ((files.prune sha256 fmt pm).evidence sha256 fmt)) =
      (p.observed sha256 re (files.evidence sha256 fmt)).mapM
        (relabel sha256 p.endorsers (files.evidence sha256 fmt)) := by
  refine mapM_congr fun al ha => ?_
  obtain ⟨w, hm, hw, hd⟩ := mem_observed files.distinct ha
  have hk := not_prunable_of_withdraws hw pm
  rw [relabel, byDigest_prune (mem_evidence_prune.mpr ⟨hm, hk⟩) hd, relabel]

/-- Pruning leaves the projection's success and alerts as they are exactly where a projection
that nothing else refuses makes nothing of what is removed. -/
theorem supplyWithdrawalAlerts_prune_iff :
    (supplyWithdrawalAlerts sha256 fmt sshsig listing embeddedPolicy
        (files.prune sha256 fmt pm) dom exp re).toOption =
      (supplyWithdrawalAlerts sha256 fmt sshsig listing embeddedPolicy files dom exp re).toOption ↔
      ∀ p, Projectable sha256 fmt sshsig listing embeddedPolicy files dom exp re p →
        p.Indifferent sha256 sshsig re (files.evidence sha256 fmt) pm := by
  simp only [Indifferent, ← evidence_prune]
  have hc : ∀ p : Projection,
      p.Covered sha256 re ((files.prune sha256 fmt pm).evidence sha256 fmt) →
        p.Covered sha256 re (files.evidence sha256 fmt) := by
    intro p h d hd
    obtain ⟨e, hm, hi⟩ := h d hd
    exact ⟨e, (mem_evidence_prune.mp hm).1, hi⟩
  constructor
  · intro h p hp
    constructor
    · intro he hall e hm hr
      obtain ⟨ale, ha⟩ := relabel_observed p re files.distinct
      have hb := supplyWithdrawalAlerts_ok.mpr ⟨p, hp, he, hall, ha⟩
      rw [hb] at h
      obtain ⟨p', hp', _, hk, _⟩ := supplyWithdrawalAlerts_ok.mp (toOption_eq_some.mp h)
      obtain rfl := hp.unique (projectable_prune.mp hp')
      obtain ⟨k, hkm, _, hs⟩ := hk _ hr
      obtain ⟨ht, hl⟩ := mem_evidence_prune.mp hkm
      rw [← files.distinct k ht e hm (Digest.toString_inj.mp hs)]
      exact hl
    · intro he hall
      obtain ⟨ale, ha⟩ := relabel_observed p re (files.prune sha256 fmt pm).distinct
      have hf := supplyWithdrawalAlerts_ok.mpr ⟨p, projectable_prune.mpr hp, he, hall, ha⟩
      rw [hf] at h
      obtain ⟨_, _, hv, _⟩ := supplyWithdrawalAlerts_ok.mp (toOption_eq_some.mp h.symm)
      exact hv
  · intro h
    refine toOption_congr fun ale => ?_
    rw [supplyWithdrawalAlerts_ok, supplyWithdrawalAlerts_ok]
    refine exists_congr fun p => ?_
    rw [projectable_prune]
    refine and_congr_right fun hp => ?_
    obtain ⟨hl, hv⟩ := h p hp
    constructor
    · rintro ⟨he, hall, ha⟩
      rw [observed_prune hall, relabel_prune] at ha
      exact ⟨hv he hall, hc p hall, ha⟩
    · rintro ⟨he, hall, ha⟩
      have hk : p.Covered sha256 re ((files.prune sha256 fmt pm).evidence sha256 fmt) := by
        intro d hr
        obtain ⟨e, hm, hi, rfl⟩ := hall d hr
        exact ⟨e, mem_evidence_prune.mpr ⟨hm, hl he hall e hm hr⟩, hi, rfl⟩
      rw [observed_prune hk, relabel_prune]
      exact ⟨fun record hrec => he record (mem_evidence_prune.mp hrec).1, hk, ha⟩

/-! ### Alerts after pruning -/

/-- Pruning leaves the alerts about a Generation as they are exactly when what takes back a
removed Endorsement of a member in force also takes back another record it relied on. -/
theorem withdrawalAlerts_prune_iff (files : SupplyFiles) (pm : UInt64) (en : EndorserSet)
    (g : GenerationRecord) (ef : List String) :
    (withdrawalAlerts sha256 fmt sshsig (files.prune sha256 fmt pm).endorsements en g ef).Perm
      (withdrawalAlerts sha256 fmt sshsig files.endorsements en g ef) ↔ ∀ m ∈ effectiveMembers g ef,
        TakenBackElsewhere sha256 sshsig (files.evidence sha256 fmt) pm m := by
  have hd : Distinct sha256 ((files.evidence sha256 fmt).filter (·.counts sha256 sshsig)) :=
    files.distinct.subset (filter_subset_self _)
  have hd' : Distinct sha256 (((files.evidence sha256 fmt).filter (·.counts sha256 sshsig)).filter
        (!·.prunable pm)) :=
    hd.subset (filter_subset_self _)
  have hc : ((files.prune sha256 fmt pm).evidence sha256 fmt).filter (·.counts sha256 sshsig) =
        ((files.evidence sha256 fmt).filter (·.counts sha256 sshsig)).filter (!·.prunable pm) := by
    rw [evidence_prune, filter_filter, filter_filter]
    exact filter_congr fun _ _ => Bool.and_comm _ _
  change (fromRecords sha256 g ef en (((files.prune sha256 fmt pm).evidence sha256 fmt).filter
      (·.counts sha256 sshsig))).Perm (fromRecords sha256 g ef en
        ((files.evidence sha256 fmt).filter (·.counts sha256 sshsig))) ↔ _
  rw [hc, fromRecords_perm_iff hd fun record _ hwd => by
    rw [not_prunable_of_withdraws hwd]; rfl]
  refine forall₂_congr fun m _ => ?_
  simp only [TakenBackElsewhere, mem_reliedWithdrawals hd,
    mem_reliedWithdrawals hd', mem_filter, Bool.not_eq_true', and_assoc]
  constructor
  · intro h e hm hp hr w hw hwd hn ht
    have he : e.counts sha256 sshsig = true := by
      have hk : e.kind = .endorsement := by
        rw [prunable, Bool.and_eq_true, beq_iff_eq] at hp
        exact hp.1
      simp [counts, withdraws, hk]
    obtain ⟨_, _, _, _, k, hke, hkc, hl, hkr, hkt⟩ :=
      h w ⟨hw, hn, hwd, e, hm, he, hr, ht⟩
    exact ⟨k, hke, hkc, hl, hkr, hkt⟩
  · rintro h w ⟨hw, hn, hwd, e, hm, he, hr, ht⟩
    refine ⟨hw, hn, not_prunable_of_withdraws hwd pm, hwd, ?_⟩
    cases hp : e.prunable pm with
    | false => exact ⟨e, hm, he, hp, hr, ht⟩
    | true =>
      exact h e hm hp hr w hw hwd hn ht

end

/-- Pruning is invisible to focus at every later time; to the alerts about a Generation exactly
when what takes back a removed Endorsement of a member in force also takes back another record
it relied on; and to the supply alerts exactly when a projection that nothing else refuses makes
nothing of what is removed. -/
theorem pruneExpired_invisible (sha256 : Sha256) (fmt : JsonFormat) (sshsig : SshsigVerify)
    (listing : Listing) (embeddedPolicy : Digest) (files : SupplyFiles) (prunedMs : UInt64) :
    (∀ (endorsers : EndorserSet) (admitted : List Digest) (nowMs : UInt64), prunedMs ≤ nowMs →
      ∀ {ε Diff : Type} (packages : Packages ε Diff) (package : Digest) (against : Option Digest),
        let before := FocusContext.load sha256 fmt files.endorsements endorsers admitted nowMs
        let after := FocusContext.load sha256 fmt (files.prune sha256 fmt prunedMs).endorsements
          endorsers admitted nowMs
        after.trustedEndorsements sha256 sshsig package =
            before.trustedEndorsements sha256 sshsig package ∧
          after.basis sha256 sshsig package = before.basis sha256 sshsig package ∧
          (after.evaluate sha256 sshsig packages package against).map (·.reliedOn) =
            (before.evaluate sha256 sshsig packages package against).map (·.reliedOn)) ∧
    (∀ (endorsers : EndorserSet) (generation : GenerationRecord) (effective : List String),
      (withdrawalAlerts sha256 fmt sshsig (files.prune sha256 fmt prunedMs).endorsements endorsers
          generation effective).Perm
        (withdrawalAlerts sha256 fmt sshsig files.endorsements endorsers generation effective) ↔
        ∀ member ∈ effectiveMembers generation effective,
          TakenBackElsewhere sha256 sshsig (files.evidence sha256 fmt) prunedMs member) ∧
    ∀ (domain : String) (expected : List String) (retained : Retained),
      (supplyWithdrawalAlerts sha256 fmt sshsig listing embeddedPolicy
          (files.prune sha256 fmt prunedMs) domain expected retained).toOption =
        (supplyWithdrawalAlerts sha256 fmt sshsig listing embeddedPolicy files domain expected
          retained).toOption ↔
        ∀ p, Projectable sha256 fmt sshsig listing embeddedPolicy files domain expected retained p →
          p.Indifferent sha256 sshsig retained (files.evidence sha256 fmt) prunedMs := by
  refine ⟨fun endorsers admitted nowMs h _ _ packages package against => ?_,
    withdrawalAlerts_prune_iff files prunedMs, fun _ _ _ => supplyWithdrawalAlerts_prune_iff⟩
  intro before after
  have ha : after = before.prune prunedMs :=
    FocusContext.load_pruneExpired files.endorsements endorsers admitted nowMs prunedMs
  have ht : prunedMs ≤ before.nowMs := h
  rw [ha]
  exact ⟨FocusContext.trustedEndorsements_prune ht package,
    FocusContext.basis_prune ht package, FocusContext.reliedOn_prune ht package against⟩

/-! ### An Endorsement relied on, withdrawn and expired -/

private def agedSigning : Signing := ⟨.publisher, "ssh-ed25519 AAAA", 1000, 2000⟩

private def agedPackage : EndorsedPackage where
  packageDigest := Digest.fromRaw (Vector.replicate 32 7)
  policyDigest := Digest.fromRaw (Vector.replicate 32 8)
  dossierDigest := none
  assessment := none
  reviewDepth := .read
  assumptions := []

private def agedLeaf : EndorsedLeaf := endorsedLeaf agedPackage (nonceText (Vector.replicate 32 1))

private def agedRecord : WireRecord EndorsedLeaf :=
  WireRecord.mk (batchHeader agedSigning .endorsement 1 (Vector.replicate 32 0)) agedLeaf 0 []
    Endorsement.recordSchema "armored"

/-- A hash that tells the bytes of the Endorsement from those of the withdrawal. -/
private def agedHash : Sha256 := fun bytes =>
  if bytes = format.toVec agedRecord then Vector.replicate 32 1
  else Vector.replicate 32 2

private def agedWithdrawal : WithdrawnLeaf :=
  withdrawnLeaf agedPackage.packageDigest (nonceText (Vector.replicate 32 1))

private def agedRoot : Merkle.Node :=
  Merkle.leafHash agedHash (format.toVec agedWithdrawal)

private def agedWithdrawalRecord : WireRecord WithdrawnLeaf :=
  WireRecord.mk (batchHeader agedSigning .withdrawal 1 agedRoot) agedWithdrawal 0 []
    Endorsement.recordSchema "armored"

private def acceptAll : SshsigVerify := fun _ _ _ _ _ => .ok ()

private theorem agedRecord_size : (format.toVec agedRecord).length ≤ maxRecordBytes := by
  have hw : weight (toJson agedRecord) ≤ 4096 := by decide
  exact Nat.le_trans (length_toVec_le agedRecord) (Nat.mul_le_mul_left 4 hw)

private theorem agedWithdrawalRecord_size :
    (format.toVec agedWithdrawalRecord).length ≤ maxRecordBytes := by
  have hr : agedRoot = Vector.replicate 32 1 ∨ agedRoot = Vector.replicate 32 2 := by
    unfold agedRoot Merkle.leafHash agedHash
    split
    · exact .inl rfl
    · exact .inr rfl
  have hw : weight (toJson agedWithdrawalRecord) ≤ 4096 := by
    unfold agedWithdrawalRecord
    rcases hr with hr | hr <;> rw [hr] <;> decide
  exact Nat.le_trans (length_toVec_le agedWithdrawalRecord) (Nat.mul_le_mul_left 4 hw)

private theorem agedSigning_valid : validateSigning agedSigning = .ok () := by decide

private theorem agedPackage_valid : validatePackage agedPackage = .ok () := by decide

private theorem agedRecord_parses :
    ∃ record, parse agedHash format (format.toVec agedRecord) = .ok record ∧
      record.bytes = format.toVec agedRecord ∧ record.signing = agedSigning ∧
      record.kind = .endorsement ∧ record.subject = .endorsed agedPackage := by
  have hr : ReadsAs agedHash format .endorsement (.endorsed agedPackage) agedLeaf :=
    readsAs_endorsed agedPackage_valid _
  have hp := parse_lone agedSigning_valid hr agedRecord_size
  refine ⟨_, hp, ?_, ?_, ?_, ?_⟩
  · dsimp only
    unfold agedRecord
    with_reducible rfl
  · rfl
  · rfl
  · rfl

private theorem agedWithdrawalRecord_parses :
    ∃ record, parse agedHash format (format.toVec agedWithdrawalRecord) = .ok record ∧
      record.bytes = format.toVec agedWithdrawalRecord ∧ record.signing = agedSigning ∧
      record.kind = .withdrawal ∧ record.subject = .withdrawn agedPackage.packageDigest ∧
      (record.verifySignature agedHash acceptAll .none).isOk = true := by
  have hr : ReadsAs agedHash format .withdrawal
      (.withdrawn agedPackage.packageDigest) agedWithdrawal := readsAs_withdrawn _ _
  have ha := parse_lone agedSigning_valid hr agedWithdrawalRecord_size
  refine ⟨_, ha, ?_, ?_, ?_, ?_, ?_⟩
  · dsimp only
    unfold agedWithdrawalRecord
    with_reducible rfl
  · rfl
  · rfl
  · rfl
  · have hn : [agedRoot][0]? = some agedRoot := rfl
    have hp := Merkle.verify_of_path agedHash hn (Merkle.root_singleton agedHash _)
    rw [Merkle.path_singleton] at hp
    have ho : (0 : UInt64).toNat = 0 ∧ (1 : UInt64).toNat = 1 := ⟨rfl, rfl⟩
    simp only [Record.verifySignature]
    rw [ho.1, ho.2]
    exact congrArg Except.isOk (if_pos hp)

/-- The member was reviewed on the Endorsement. -/
private def agedMember : Member where
  packageDigest := agedPackage.packageDigest.toString
  dossierDigest := ""
  reviewDepth := "read"
  agents := ["claude"]
  reliedOn := [(Digest.of agedHash (format.toVec agedRecord)).toString]

private def agedGeneration : GenerationRecord where
  schema := recordSchema
  generation := ""
  payload := GenerationPayload.new agedHash format "louiselm/skills" 1 none "" [agedMember]
  signature := "armored"
  state := .current
  witness := none
  admittedAtMs := 0
  invalidReason := none

/-- The Endorsement and its signer's withdrawal are imported. -/
private def agedFiles : SupplyFiles where
  store := ⟨∅, none, true⟩
  endorsements :=
    ((∅ : Directory).insert (recordName (Digest.of agedHash (format.toVec agedWithdrawalRecord)))
      (.regular (format.toVec agedWithdrawalRecord))).insert
      (recordName (Digest.of agedHash (format.toVec agedRecord)))
      (.regular (format.toVec agedRecord))
  layer := .error "absent"

/-- Once its validity has ended, pruning removes the Endorsement that an admitted member relied
on, and with it the alert that its signer has taken it back: what was relied on is stored, and
the alerts change. -/
theorem pruneExpired_hides_withdrawal :
    (∀ member ∈ agedGeneration.payload.members, ∀ digest ∈ member.reliedOn,
      ∃ endorsement ∈ agedFiles.evidence agedHash format,
        endorsement.kind = .endorsement ∧ (endorsement.digest agedHash).toString = digest) ∧
    ¬ (withdrawalAlerts agedHash format acceptAll
          (agedFiles.prune agedHash format 2000).endorsements ⟨[]⟩ agedGeneration
          [agedMember.packageDigest]).Perm
        (withdrawalAlerts agedHash format acceptAll agedFiles.endorsements ⟨[]⟩
          agedGeneration [agedMember.packageDigest]) := by
  obtain ⟨endorsement, ha, hb, hs, hk, hu⟩ := agedRecord_parses
  obtain ⟨w, hp', hb', hs', hk', hu', hv⟩ :=
    agedWithdrawalRecord_parses
  have hms : agedGeneration.payload.members = [agedMember.normalize] := rfl
  have hr : agedMember.normalize.reliedOn = [(endorsement.digest agedHash).toString] := by
    rw [digest, hb]
    simp [agedMember, Member.normalize, Text.sortedSet]
  have hd : recordName (Digest.of agedHash (format.toVec agedWithdrawalRecord)) ≠
      recordName (Digest.of agedHash (format.toVec agedRecord)) := by
    have hn : format.toVec agedWithdrawalRecord ≠ format.toVec agedRecord := by
      intro heq
      rw [heq, ha, ok.injEq] at hp'
      rw [← hp', hk] at hk'
      exact absurd hk' (by decide)
    rw [Ne, recordName_inj, Digest.of, Digest.of, Digest.fromRaw_inj, agedHash, agedHash,
      if_neg hn, if_pos rfl]
    decide
  have he : endorsement ∈ agedFiles.evidence agedHash format :=
    mem_records_of_lookup ha hb agedRecord_size (AList.lookup_insert _)
  have hwd : w ∈ agedFiles.evidence agedHash format := by
    refine mem_records_of_lookup hp' hb' agedWithdrawalRecord_size ?_
    rw [agedFiles, AList.lookup_insert_ne hd]
    exact AList.lookup_insert _
  rw [hms]
  constructor
  · intro member hm digest hi
    rw [mem_singleton.mp hm, hr, mem_singleton] at hi
    exact ⟨endorsement, he, hk, hi.symm⟩
  · rw [withdrawalAlerts_prune_iff]
    intro hall
    have hm : agedMember.normalize ∈ effectiveMembers agedGeneration
        [agedMember.packageDigest] := by
      rw [effectiveMembers, hms]
      simp [Member.normalize]
    have hp : endorsement.prunable 2000 = true := by
      simp [prunable, hk, hs, agedSigning]
    have hw : w.withdraws = true := withdraws_iff.mpr hk'
    have ht : w.takesBack endorsement = true := by
      simp [takesBack, covers, hs, hs', hu, hu', Subject.packageDigest]
    have hc : w.counts agedHash acceptAll = true := by
      simp [counts, hv]
    obtain ⟨k, hke, _, hl, hi, _⟩ := hall _ hm endorsement he hp
      (hr ▸ mem_singleton_self _) w hwd hw hc ht
    rw [hr, mem_singleton, Digest.toString_inj] at hi
    rw [agedFiles.distinct k hke endorsement he hi, hp] at hl
    exact absurd hl (by decide)

end Louiselm.Admission
