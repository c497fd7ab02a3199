import Louiselm.Endorsement.Focus

/-!
# Distrust is monotone

`skills-core/src/endorsement/trust.rs` and `focus.rs`: what a withdrawal, a removed key and the
passing of time can do to the Endorsements a machine trusts. Withdrawals and removals only take
trust away; time also begins the validity of what was issued ahead of it.
-/

namespace Louiselm.Endorsement
open Base Canonical List EndorserSet
open Except (ok.injEq)

namespace EndorserSet

variable {sha256 : Sha256} {s : SshsigVerify}

variable {en : EndorserSet}

/-- What a record must meet to be trusted. -/
theorem decide_eq_trusted {record : Record} {ms : UInt64} {l : String} :
    en.decide sha256 s record ms = .trusted l ↔
      ∃ e, en.find record.signing.signerKey = some e ∧ record.signing.signerRole ∈ e.roles ∧
        UInt64.ofNat (record.signing.expiresAtMs.toNat - record.signing.issuedAtMs.toNat) ≤
          e.maxLifetimeMs ∧ record.verify sha256 s ms e.skPolicy = .ok record.subject ∧
        e.label = l := by
  have hv : ∀ skPolicy subject, record.verify sha256 s ms skPolicy = .ok subject →
      subject = record.subject := by
    intro skPolicy subject h
    simp only [Record.verify, check_ok, require_ok, pure, Except.pure, ok.injEq] at h
    exact h.2.2.2.symm
  unfold decide
  dsimp only
  cases hf : en.find record.signing.signerKey with
  | none => simp
  | some e =>
    simp only [Option.some.injEq, exists_eq_left']
    by_cases hr : record.signing.signerRole ∈ e.roles
    · rw [if_neg (not_not.mpr hr)]
      by_cases hl : e.maxLifetimeMs <
          UInt64.ofNat (record.signing.expiresAtMs.toNat - record.signing.issuedAtMs.toNat)
      · simp [hl, hr]
      · rw [if_neg hl]
        cases ho : record.verify sha256 s ms e.skPolicy with
        | error error => simp
        | ok subject =>
          have hs := hv _ _ ho
          subst hs
          simp [hr, UInt64.not_lt.mp hl]
    · simp [hr]

/-- A removal keeps the layers valid, and the keys that are left keep their entries. -/
theorem effective_removals {d a : List EndorserEntry} {r r' : List String}
    (h : effective d a r = .ok en) (hs : r ⊆ r') : ∃ n, effective d a r' = .ok n ∧
      ∀ key e, n.find key = some e → en.find key = some e := by
  simp only [effective, check_ok, pure, Except.pure, ok.injEq] at h ⊢
  obtain ⟨hd, ha, rfl⟩ := h
  refine ⟨_, ⟨hd, ha, rfl⟩, fun key e hf => ?_⟩
  simp only [find, List.find?_filter] at hf ⊢
  have he : key ∉ r' := by
    intro hm
    have hh := List.find?_some hf
    simp only [decide_eq_true_eq, beq_iff_eq] at hh
    exact hh.1 (hh.2 ▸ hm)
  have hk : key ∉ r := fun hm => he (hs hm)
  rw [← hf]
  congr 1
  funext other
  by_cases ho : other.publicKey = key
  · subst ho
    simp [he, hk]
  · simp [ho]

end EndorserSet

namespace FocusContext

variable {sha256 : Sha256} {fmt : JsonFormat} {sshsig : SshsigVerify} {context : FocusContext}

/-- Nothing becomes trusted from one context to the other, and no package earns a basis. -/
structure Distrusts (sha256 : Sha256) (sshsig : SshsigVerify) (before after : FocusContext) :
    Prop where
  endorsements : ∀ package, (after.trustedEndorsements sha256 sshsig package).Sublist
    (before.trustedEndorsements sha256 sshsig package)
  basis : ∀ package, before.basis sha256 sshsig package = none →
    after.basis sha256 sshsig package = none

/-- The context with one more record at a position. -/
def withRecord (context : FocusContext) (position : Nat) (record : Record) : FocusContext :=
  { context with
    records := context.records.take position ++ record :: context.records.drop position }

/-- The context under other endorsers. -/
def withEndorsers (context : FocusContext) (endorsers : EndorserSet) : FocusContext :=
  { context with endorsers }

/-- The context at another time. -/
def atTime (context : FocusContext) (nowMs : UInt64) : FocusContext := { context with nowMs }

private theorem filterMap_sublist {α β : Type} {f g : α → Option β} :
    ∀ {xs : List α}, (∀ item ∈ xs, ∀ y, f item = some y → g item = some y) →
      (xs.filterMap f).Sublist (xs.filterMap g)
  | [], _ => List.Sublist.refl _
  | item :: xs, h => by
    have hr := filterMap_sublist (forall_mem_cons.mp h).2
    cases hf : f item with
    | none =>
      rw [filterMap_cons_none hf]
      cases ho : g item with
      | none => rwa [filterMap_cons_none ho]
      | some o =>
        rw [filterMap_cons_some ho]
        exact hr.cons o
    | some y =>
      rw [filterMap_cons_some hf, filterMap_cons_some (h item mem_cons_self y hf)]
      exact hr.cons_cons y

variable {package : Digest} {record : Record} {endorsement : ExactEndorsement}

/-- What is trusted of a package: an Endorsement of it that is not withdrawn and decides so. -/
theorem exactEndorsement_eq_some :
    context.exactEndorsement sha256 sshsig package record = some endorsement ↔
      record.kind = .endorsement ∧ record.covers package = true ∧
        context.withdrawn sha256 sshsig record.signing.signerKey package = false ∧
        context.endorsers.decide sha256 sshsig record context.nowMs =
          .trusted endorsement.endorser ∧ endorsement.record = (record.digest sha256).toString := by
  unfold exactEndorsement
  split
  · next hc =>
    simp only [Bool.and_eq_true, beq_iff_eq, Bool.not_eq_true'] at hc
    cases hd : context.endorsers.decide sha256 sshsig record context.nowMs with
    | untrusted r => simp
    | trusted l =>
      obtain ⟨endorser, n⟩ := endorsement
      simp [hc, eq_comm]
  · next hc =>
    simp only [Bool.and_eq_true, beq_iff_eq, Bool.not_eq_true', not_and] at hc
    refine iff_of_false (by simp) ?_
    rintro ⟨hk, ho, he, -, -⟩
    exact absurd he (hc ⟨hk, ho⟩)

theorem mem_trustedEndorsements : endorsement ∈ context.trustedEndorsements sha256 sshsig package ↔
      ∃ record ∈ context.records,
        context.exactEndorsement sha256 sshsig package record = some endorsement :=
  mem_filterMap

/-- A basis is an admission or the first trusted Endorsement. -/
theorem basis_eq_none : context.basis sha256 sshsig package = none ↔
    package ∉ context.admitted ∧ context.trustedEndorsements sha256 sshsig package = [] := by
  rw [basis]
  split
  · next hm => simp [hm]
  · next hm => simp [hm]

/-- Distrust of every record, with the admissions as they were, is distrust. -/
theorem Distrusts.of_endorsements {pre l : FocusContext} (ha : l.admitted = pre.admitted)
    (h : ∀ package, (l.trustedEndorsements sha256 sshsig package).Sublist
      (pre.trustedEndorsements sha256 sshsig package)) : Distrusts sha256 sshsig pre l where
  endorsements := h
  basis := by
    intro package hb
    obtain ⟨hn, he⟩ := basis_eq_none.mp hb
    refine basis_eq_none.mpr ⟨ha ▸ hn, ?_⟩
    exact sublist_nil.mp (he ▸ h package)

/-! ### Withdrawals -/

theorem withdrawn_withRecord {p : Nat} {w : Record} {sk : String}
    (h : context.withdrawn sha256 sshsig sk package = true) :
    (context.withRecord p w).withdrawn sha256 sshsig sk package = true := by
  rw [withdrawn, any_eq_true] at h ⊢
  obtain ⟨record, hm, hr⟩ := h
  refine ⟨record, ?_, hr⟩
  rw [← take_append_drop p context.records, mem_append] at hm
  rw [withRecord, mem_append]
  exact hm.imp_right (mem_cons_of_mem w)

/-- A withdrawal that is stored takes trust away and gives none. -/
theorem distrusts_withRecord {w : Record} (h : w.withdraws = true) (p : Nat) :
    Distrusts sha256 sshsig context (context.withRecord p w) := by
  refine .of_endorsements rfl fun package => ?_
  have hn : (context.withRecord p w).exactEndorsement sha256 sshsig package w = none := by
    refine Option.eq_none_iff_forall_ne_some.mpr fun endorsement he => ?_
    rw [Record.withdraws, beq_iff_eq] at h
    exact absurd (h.symm.trans (exactEndorsement_eq_some.mp he).1) (by decide)
  have hdr : (context.withRecord p w).trustedEndorsements sha256 sshsig package =
      context.records.filterMap
        ((context.withRecord p w).exactEndorsement sha256 sshsig package) := by
    conv_rhs => rw [← take_append_drop p context.records]
    rw [trustedEndorsements, withRecord, filterMap_append, filterMap_append]
    exact congrArg _ (filterMap_cons_none hn)
  rw [hdr]
  refine filterMap_sublist fun record _ endorsement he => ?_
  obtain ⟨hk, hc, hke, hd, ha⟩ := exactEndorsement_eq_some.mp he
  refine exactEndorsement_eq_some.mpr ⟨hk, hc, ?_, hd, ha⟩
  by_contra hw
  rw [withdrawn_withRecord (eq_true_of_ne_false hw)] at hke
  contradiction

/-! ### Removed keys -/

/-- Fewer endorsers, each as before, trust no more. -/
theorem distrusts_withEndorsers {n : EndorserSet}
    (h : ∀ key e, n.find key = some e → context.endorsers.find key = some e) :
    Distrusts sha256 sshsig context (context.withEndorsers n) := by
  refine .of_endorsements rfl fun package => filterMap_sublist fun record _ endorsement he => ?_
  obtain ⟨hk, hc, hke, hd, hn⟩ := exactEndorsement_eq_some.mp he
  obtain ⟨e, hf, ht⟩ := decide_eq_trusted.mp hd
  exact exactEndorsement_eq_some.mpr ⟨hk, hc, hke,
    decide_eq_trusted.mpr ⟨e, h _ _ hf, ht⟩, hn⟩

/-! ### The passing of time -/

variable {laterMs : UInt64}

/-- A record becomes trusted with time only by the beginning of its validity. -/
theorem exactEndorsement_atTime (ht : context.nowMs ≤ laterMs)
    (h : (context.atTime laterMs).exactEndorsement sha256 sshsig package record =
      some endorsement) :
    laterMs < record.signing.expiresAtMs ∧ record.signing.issuedAtMs ≤ laterMs ∧
      (context.exactEndorsement sha256 sshsig package record = some endorsement ∨
        context.nowMs < record.signing.issuedAtMs) := by
  obtain ⟨hk, hc, hke, hd, hn⟩ := exactEndorsement_eq_some.mp h
  obtain ⟨e, hf, hr, hli, hv, hl⟩ := decide_eq_trusted.mp hd
  simp only [Record.verify, check_ok, require_ok, decide_eq_true_eq] at hv
  obtain ⟨hg, hi, he, hs⟩ := hv
  refine ⟨he, hi, ?_⟩
  by_cases hb : record.signing.issuedAtMs ≤ context.nowMs
  · left
    refine exactEndorsement_eq_some.mpr ⟨hk, hc, hke, ?_, hn⟩
    refine decide_eq_trusted.mpr ⟨e, hf, hr, hli, ?_, hl⟩
    simp only [Record.verify, check_ok, require_ok, decide_eq_true_eq]
    exact ⟨hg, hb, UInt64.lt_of_le_of_lt ht he, hs⟩
  · exact .inr (UInt64.not_le.mp hb)

/-- The validity of an Endorsement of the package begins between two times. -/
def Begins (context : FocusContext) (laterMs : UInt64) (package : Digest) : Prop :=
  ∃ record ∈ context.records, record.kind = .endorsement ∧ record.covers package = true ∧
    context.nowMs < record.signing.issuedAtMs ∧ record.signing.issuedAtMs ≤ laterMs

/-- Where no Endorsement of a package begins, time trusts no more of it. -/
theorem trustedEndorsements_atTime (ht : context.nowMs ≤ laterMs)
    (h : ¬ context.Begins laterMs package) :
    ((context.atTime laterMs).trustedEndorsements sha256 sshsig package).Sublist
      (context.trustedEndorsements sha256 sshsig package) := by
  refine filterMap_sublist fun record hm endorsement he => ?_
  obtain ⟨-, hi, hb | ha⟩ := exactEndorsement_atTime ht he
  · exact hb
  · obtain ⟨hk, hc, -⟩ := exactEndorsement_eq_some.mp he
    exact absurd ⟨record, hm, hk, hc, ha, hi⟩ h

/-- A package without a basis earns one with time only when an Endorsement of it begins. -/
theorem basis_atTime (ht : context.nowMs ≤ laterMs) (hb : ¬ context.Begins laterMs package)
    (h : context.basis sha256 sshsig package = none) :
    (context.atTime laterMs).basis sha256 sshsig package = none := by
  obtain ⟨hn, he⟩ := basis_eq_none.mp h
  refine basis_eq_none.mpr ⟨hn, ?_⟩
  exact sublist_nil.mp (he ▸ trustedEndorsements_atTime ht hb)

/-! ### What a withdrawal rules out -/

/-- A verified withdrawal by the signer of a record, of the package the record is about. -/
def Withdrawn (sha256 : Sha256) (sshsig : SshsigVerify) (records : List Record)
    (record : Record) : Prop :=
  ∃ withdrawal ∈ records, withdrawal.withdraws = true ∧
    withdrawal.signing.signerKey = record.signing.signerKey ∧
    withdrawal.covers record.subject.packageDigest = true ∧
    (withdrawal.verifySignature sha256 sshsig .none).isOk = true

/-- A withdrawn record is no trusted Endorsement of any package. -/
theorem exactEndorsement_of_withdrawn (h : Withdrawn sha256 sshsig context.records record)
    (package : Digest) : context.exactEndorsement sha256 sshsig package record = none := by
  refine Option.eq_none_iff_forall_ne_some.mpr fun endorsement he => ?_
  obtain ⟨-, hc, hk, -⟩ := exactEndorsement_eq_some.mp he
  obtain ⟨w, hm, hd, hs, ho, hv⟩ := h
  rw [Record.covers, beq_iff_eq] at hc
  have hw : context.withdrawn sha256 sshsig record.signing.signerKey package = true := by
    rw [withdrawn, any_eq_true]
    refine ⟨w, hm, ?_⟩
    rw [Bool.and_eq_true, Bool.and_eq_true, Bool.and_eq_true, beq_iff_eq]
    exact ⟨⟨⟨hd, hc ▸ ho⟩, hs⟩, hv⟩
  exact absurd (hw.symm.trans hk) (by decide)

/-- Where no two records have one digest, a withdrawn record's is trusted for no package. -/
theorem not_mem_of_withdrawn (context : FocusContext)
    (hd : (context.records.map (·.digest sha256)).Nodup) (hr : record ∈ context.records)
    (h : Withdrawn sha256 sshsig context.records record) (package : Digest) :
    (record.digest sha256).toString ∉
      (context.trustedEndorsements sha256 sshsig package).map (·.record) := by
  intro hm
  obtain ⟨endorsement, hen, hn⟩ := mem_map.mp hm
  obtain ⟨o, ho, he⟩ := mem_trustedEndorsements.mp hen
  obtain ⟨-, -, -, -, hi⟩ := exactEndorsement_eq_some.mp he
  have hs := inj_on_of_nodup_map hd ho hr (Digest.toString_inj.mp (hi.symm.trans hn))
  rw [hs, exactEndorsement_of_withdrawn h] at he
  contradiction

/-- What a basis names is a trusted Endorsement. -/
theorem basis_endorsed {e record : String}
    (h : context.basis sha256 sshsig package = some (.endorsed e record)) :
    record ∈ (context.trustedEndorsements sha256 sshsig package).map (·.record) := by
  rw [basis] at h
  split at h
  · simp at h
  · obtain ⟨endorsement, hh, hb⟩ := Option.map_eq_some_iff.mp h
    rw [Basis.endorsed.injEq] at hb
    exact mem_map.mpr ⟨endorsement, mem_of_head? hh, hb.2⟩

variable {ε Diff : Type} {packages : Packages ε Diff}

variable {against : Option Digest}

/-- The chosen base has the basis it is chosen with. -/
theorem basis_of_chooseBase {b : Digest} {r : Basis}
    (h : context.chooseBase sha256 sshsig packages package against = .ok (some (b, r))) :
    context.basis sha256 sshsig b = some r := by
  cases against with
  | some p =>
    rw [chooseBase, ok.injEq] at h
    obtain ⟨f, hb, heq⟩ := Option.map_eq_some_iff.mp h
    rw [Prod.mk.injEq] at heq
    rw [← heq.1, hb, heq.2]
  | none =>
    rw [chooseBase, lineageBase, bind_ok] at h
    obtain ⟨l, -, h⟩ := h
    cases l with
    | none => simp [pure, Except.pure] at h
    | some ca =>
      obtain ⟨f, -, h⟩ := bind_ok.mp h
      simp only [pure, Except.pure, ok.injEq] at h
      obtain ⟨c, -, hc⟩ := exists_of_findSome?_eq_some h
      obtain ⟨e, hb, heq⟩ := Option.map_eq_some_iff.mp hc
      rw [Prod.mk.injEq] at heq
      rw [← heq.1, hb, heq.2]

/-- Focus relies only on trusted Endorsements, of the package or of the base. -/
theorem evaluate_trusted {f : Focus Diff}
    (h : context.evaluate sha256 sshsig packages package against = .ok f) :
    f.exact = context.trustedEndorsements sha256 sshsig package ∧ ∀ record ∈ f.reliedOn, ∃ co,
        record ∈ (context.trustedEndorsements sha256 sshsig co).map (·.record) := by
  simp only [evaluate, bind_ok, pure, Except.pure, ok.injEq] at h
  obtain ⟨c, hc, b, hb, rfl⟩ := h
  refine ⟨rfl, fun record hrec => ?_⟩
  rw [Text.mem_sortedSet, mem_append] at hrec
  rcases hrec with he | hr
  · exact ⟨package, he⟩
  · cases c with
    | none =>
      simp only [Option.mapM_none, pure, Except.pure, ok.injEq] at hb
      subst hb
      simp at hr
    | some c =>
      obtain ⟨d, r⟩ := c
      have ha := basis_of_chooseBase hc
      cases hd : packages.between d package with
      | error error => simp [hd, Functor.map, Except.map, bind, Except.bind] at hb
      | ok di =>
        simp only [hd, Option.mapM_some, Functor.map, Except.map, ok_bind, ok.injEq] at hb
        subst hb
        cases r with
        | admitted => simp at hr
        | endorsed e re =>
          have heq := mem_singleton.mp hr
          exact ⟨d, heq ▸ basis_endorsed ha⟩

/-- Focus from a directory never relies on a record that a stored withdrawal takes back. -/
theorem evaluate_of_withdrawn {d : Directory} {e : EndorserSet} {a : List Digest}
    {ms : UInt64} (hrec : record ∈ (d.records sha256 fmt).records)
    (hw : Withdrawn sha256 sshsig (d.records sha256 fmt).records record) {f : Focus Diff}
    (h : (load sha256 fmt d e a ms).evaluate sha256 sshsig packages
      package against = .ok f) : (record.digest sha256).toString ∉ f.exact.map (·.record) ∧
      (record.digest sha256).toString ∉ f.reliedOn := by
  have hn := not_mem_of_withdrawn (load sha256 fmt d e a ms) d.nodup_records hrec hw
  obtain ⟨he, hr⟩ := evaluate_trusted h
  constructor
  · rw [he]
    exact hn package
  · intro hm
    obtain ⟨c, hc⟩ := hr _ hm
    exact hn c hc

/-- Withdrawals and removed keys only take trust away; time adds only Endorsements whose validity
begins meanwhile and ends that of the others; and whatever order records were imported in, one
that a stored withdrawal takes back is trusted for nothing and relied on for nothing. -/
theorem distrust_monotone (sha256 : Sha256) (fmt : JsonFormat) (sshsig : SshsigVerify)
    (context : FocusContext) (packages : Packages ε Diff) :
    (∀ withdrawal : Record, withdrawal.withdraws = true → ∀ position,
      Distrusts sha256 sshsig context (context.withRecord position withdrawal)) ∧
    (∀ defaults additions removals removals',
      effective defaults additions removals = .ok context.endorsers → removals ⊆ removals' →
      ∃ narrowed, effective defaults additions removals' = .ok narrowed ∧
        Distrusts sha256 sshsig context (context.withEndorsers narrowed)) ∧
    (∀ laterMs, context.nowMs ≤ laterMs → ∀ package,
      (∀ record endorsement, (context.atTime laterMs).exactEndorsement sha256 sshsig package
          record = some endorsement →
        laterMs < record.signing.expiresAtMs ∧ record.signing.issuedAtMs ≤ laterMs ∧
          (context.exactEndorsement sha256 sshsig package record = some endorsement ∨
            context.nowMs < record.signing.issuedAtMs)) ∧ (¬ context.Begins laterMs package →
        ((context.atTime laterMs).trustedEndorsements sha256 sshsig package).Sublist
            (context.trustedEndorsements sha256 sshsig package) ∧
          (context.basis sha256 sshsig package = none →
            (context.atTime laterMs).basis sha256 sshsig package = none))) ∧
    (∀ directory endorsers admitted nowMs, ∀ record ∈ (directory.records sha256 fmt).records,
      Withdrawn sha256 sshsig (directory.records sha256 fmt).records record →
      ∀ package against focus,
        (load sha256 fmt directory endorsers admitted nowMs).evaluate sha256 sshsig packages
          package against = .ok focus →
        (record.digest sha256).toString ∉ focus.exact.map (·.record) ∧
          (record.digest sha256).toString ∉ focus.reliedOn) := by
  refine ⟨fun withdrawal h position => distrusts_withRecord h position, ?_, ?_, ?_⟩
  · intro defaults additions removals removals' he hs
    obtain ⟨narrowed, hn, hf⟩ := effective_removals he hs
    exact ⟨narrowed, hn, distrusts_withEndorsers hf⟩
  · intro laterMs ht package
    refine ⟨fun record endorsement => exactEndorsement_atTime ht, fun hb => ?_⟩
    exact ⟨trustedEndorsements_atTime ht hb, basis_atTime ht hb⟩
  · intro directory endorsers admitted nowMs record hr hw package against focus
    exact evaluate_of_withdrawn hr hw

/-! ### Validity that begins -/

private def byteDigest (byte : UInt8) : Digest := .fromRaw (Vector.replicate 32 byte)

/-- An Endorsement of one package over one window, alone in its batch. -/
def windowEndorsement (byte : UInt8) (issuedAtMs expiresAtMs : UInt64) : Record where
  signing := ⟨.reviewer, "ssh-ed25519 AAAA", issuedAtMs, expiresAtMs⟩
  kind := .endorsement
  subject := .endorsed
    { packageDigest := byteDigest byte, policyDigest := byteDigest 0, dossierDigest := none,
      assessment := none, reviewDepth := .read, assumptions := [] }
  headerBytes := []
  signature := ""
  leaf := Vector.replicate 32 byte
  leafIndex := 0
  leafCount := 1
  proof := []
  root := Vector.replicate 32 byte
  bytes := [byte]

/-- One package endorsed until time 10, another from then on. -/
def windowContext (nowMs : UInt64) : FocusContext where
  endorsers := ⟨[{
    label := "reviewer", maxLifetimeMs := 1000, publicKey := "ssh-ed25519 AAAA",
    roles := [.reviewer], skPolicy := .none }]⟩
  records := [windowEndorsement 1 0 10, windowEndorsement 2 10 20]
  admitted := []
  nowMs := nowMs

private def headSha256 : Sha256 := fun bytes => Vector.replicate 32 (bytes.headD 0)

private def acceptAll : SshsigVerify := fun _ _ _ _ _ => .ok ()

/-- Time that passes the expiry of one Endorsement trusts another and earns it a basis. -/
theorem time_trusts_more : (windowContext 5).atTime 10 = windowContext 10 ∧
      (windowContext 5).nowMs < (windowEndorsement 1 0 10).signing.expiresAtMs ∧
      (windowEndorsement 1 0 10).signing.expiresAtMs ≤ (windowContext 10).nowMs ∧
      (windowContext 5).trustedEndorsements headSha256 acceptAll (byteDigest 2) = [] ∧
      (windowContext 10).trustedEndorsements headSha256 acceptAll (byteDigest 2) =
        [⟨"reviewer", (byteDigest 2).toString⟩] ∧ ¬ Distrusts headSha256 acceptAll (windowContext 5)
      ((windowContext 5).atTime 10) := by
  have hn : (windowContext 5).basis headSha256 acceptAll (byteDigest 2) = none := by
    decide +kernel
  have hs : ((windowContext 5).atTime 10).basis headSha256 acceptAll (byteDigest 2) ≠ none := by
    decide +kernel
  refine ⟨rfl, by decide, by decide, by decide +kernel, by decide +kernel, fun h => ?_⟩
  exact hs (h.basis _ hn)

end FocusContext
end Louiselm.Endorsement
