import Louiselm.Endorsement.Focus

/-!
# The lineage base of a review

`skills-core/src/endorsement/focus.rs`, `lineage_base`: its documentation proposes the newest
earlier capture that is trusted. The code ranks the other packages by their latest capture from
any source root they share and never compares one with a capture of the reviewed package.
-/

namespace Louiselm.Endorsement
open Base Canonical List Option Except Bool

namespace FocusContext

variable {sha256 : Sha256} {sshsig : SshsigVerify} {context : FocusContext}
  {ε Diff : Type} {packages : Packages ε Diff}

/-! ### What the packages store says -/

/-- A package of the store has a capture from a root at a time. -/
def Captured (packages : Packages ε Diff) (package : Digest) (root : String) (timeMs : UInt64) :
    Prop :=
  ∃ history, packages.lineage package = .ok (some history) ∧ ⟨root, timeMs⟩ ∈ history

/-- Another package has a capture at a time from a root it shares with the reviewed one. -/
def SharedCapture (packages : Packages ε Diff) (package other : Digest) (timeMs : UInt64) : Prop :=
  ∃ root, Captured packages other root timeMs ∧
    ∃ reviewedMs, Captured packages package root reviewedMs

/-- Another package has a capture at a time earlier than one of the reviewed package's from the
same root. -/
def EarlierCapture (packages : Packages ε Diff) (package other : Digest) (timeMs : UInt64) : Prop :=
  ∃ root, Captured packages other root timeMs ∧
    ∃ reviewedMs, Captured packages package root reviewedMs ∧ timeMs < reviewedMs

/-- Another package of the store that may be the base of a review. -/
def TrustedPackage (sha256 : Sha256) (sshsig : SshsigVerify) (context : FocusContext)
    (packages : Packages ε Diff) (package other : Digest) : Prop :=
  (∃ listed, packages.list = .ok listed ∧ other ∈ listed) ∧ other ≠ package ∧
    (context.basis sha256 sshsig other).isSome = true

variable {package other : Digest} {timeMs : UInt64}

theorem EarlierCapture.shared (h : EarlierCapture packages package other timeMs) :
    SharedCapture packages package other timeMs := by
  obtain ⟨r, hc, rm, hr, -⟩ := h
  exact ⟨r, hc, rm, hr⟩

/-- No trusted package has an earlier capture later than the latest one of the base. -/
def NewestEarlier (sha256 : Sha256) (sshsig : SshsigVerify) (context : FocusContext)
    (packages : Packages ε Diff) (package base : Digest) : Prop :=
  ∃ timeMs, EarlierCapture packages package base timeMs ∧
    ∀ other otherMs, TrustedPackage sha256 sshsig context packages package other →
      EarlierCapture packages package other otherMs → otherMs ≤ timeMs

/-- A trusted package with the newest of all captures that trusted packages have from a shared
root; among captures of one time, the later digest's. -/
def Leading (sha256 : Sha256) (sshsig : SshsigVerify) (context : FocusContext)
    (packages : Packages ε Diff) (package base : Digest) : Prop :=
  TrustedPackage sha256 sshsig context packages package base ∧
    ∃ timeMs, SharedCapture packages package base timeMs ∧
      ∀ other otherMs, TrustedPackage sha256 sshsig context packages package other →
        SharedCapture packages package other otherMs →
        newerFirst (timeMs, base) (otherMs, other) = true

/-- The base a review is to be framed against: a trusted package with the newest earlier capture,
or none where no trusted package has an earlier capture. -/
def Documented (sha256 : Sha256) (sshsig : SshsigVerify) (context : FocusContext)
    (packages : Packages ε Diff) (package : Digest) : Option (Digest × Basis) → Prop
  | some (base, reason) => context.basis sha256 sshsig base = some reason ∧
      NewestEarlier sha256 sshsig context packages package base
  | none => ∀ other timeMs, TrustedPackage sha256 sshsig context packages package other →
      ¬ EarlierCapture packages package other timeMs

/-! ### Ranks -/

theorem latest_eq_none {t : List UInt64} : latest t = none ↔ t = [] := by
  cases t with
  | nil => simp [latest]
  | cons ti t =>
    rw [latest]
    cases latest t <;> simp

theorem latest_eq_some {t : List UInt64} (h : latest t = some timeMs) :
    timeMs ∈ t ∧ ∀ other ∈ t, other ≤ timeMs := by
  induction t generalizing timeMs with
  | nil => simp [latest] at h
  | cons ti t ih =>
    rw [latest] at h
    cases hl : latest t with
    | none =>
      rw [hl, some.injEq] at h
      subst h
      simp [latest_eq_none.mp hl]
    | some l =>
      obtain ⟨hm, hb⟩ := ih hl
      simp only [hl, some.injEq] at h
      by_cases ht : l < ti
      · rw [if_pos ht] at h
        subst h
        refine ⟨mem_cons_self, forall_mem_cons.mpr ⟨UInt64.le_refl _, ?_⟩⟩
        exact fun other ho => UInt64.le_trans (hb other ho) (UInt64.le_of_lt ht)
      · rw [if_neg ht] at h
        subst h
        refine ⟨mem_cons_of_mem _ hm, forall_mem_cons.mpr ⟨?_, hb⟩⟩
        exact UInt64.not_lt.mp ht

theorem newerFirst_trans {a b c : UInt64 × Digest} (hab : newerFirst a b = true)
    (hc : newerFirst b c = true) : newerFirst a c = true := by
  simp only [newerFirst, or_eq_true, and_eq_true, decide_eq_true_eq, beq_iff_eq] at *
  rcases hab with hab | ⟨hab, ha⟩ <;> rcases hc with hc | ⟨hc, hb⟩
  · exact .inl (UInt64.lt_trans hc hab)
  · exact .inl (hc ▸ hab)
  · exact .inl (hab ▸ hc)
  · exact .inr ⟨hab.trans hc, le_trans hb ha⟩

theorem newerFirst_total (a b : UInt64 × Digest) : (newerFirst a b || newerFirst b a) = true := by
  simp only [newerFirst, or_eq_true, and_eq_true, decide_eq_true_eq, beq_iff_eq]
  by_cases ht : a.1 < b.1
  · exact .inr (.inl ht)
  · by_cases hg : b.1 < a.1
    · exact .inl (.inl hg)
    · have heq : a.1 = b.1 := UInt64.le_antisymm (UInt64.not_lt.mp hg) (UInt64.not_lt.mp ht)
      rcases le_total b.2.hex a.2.hex with hl | hl
      · exact .inl (.inr ⟨heq, hl⟩)
      · exact .inr (.inr ⟨heq.symm, hl⟩)

/-- A later capture of the same package ranks before. -/
theorem newerFirst_of_le {lm : UInt64} (h : timeMs ≤ lm) (package : Digest) :
    newerFirst (lm, package) (timeMs, package) = true := by
  simp only [newerFirst, or_eq_true, and_eq_true, decide_eq_true_eq, beq_iff_eq]
  by_cases hl : timeMs < lm
  · exact .inl hl
  · exact .inr ⟨UInt64.le_antisymm (UInt64.not_lt.mp hl) h, le_refl _⟩

/-- The first hit of a sorted list is a hit that ranks before every other. -/
theorem findSome?_mergeSort {α β : Type} (le : α → α → Bool)
    (hr : ∀ a b c, le a b = true → le b c = true → le a c = true)
    (ht : ∀ a b, (le a b || le b a) = true) {xs : List α} {f : α → Option β} {y : β}
    (h : (xs.mergeSort le).findSome? f = some y) : ∃ x ∈ xs, f x = some y ∧
      ∀ other ∈ xs, (f other).isSome = true → le x other = true := by
  obtain ⟨pre, x, l, hp, hi, hb⟩ := List.findSome?_eq_some_iff.mp h
  have hm : ∀ other, other ∈ xs ↔ other ∈ pre ++ x :: l := by
    intro other
    rw [← hp, mem_mergeSort]
  have hs := pairwise_mergeSort hr ht xs
  rw [hp, pairwise_append] at hs
  refine ⟨x, (hm x).mpr (by simp), hi, fun other ho hso => ?_⟩
  rcases mem_append.mp ((hm other).mp ho) with he | hl
  · rw [hb other he] at hso
    contradiction
  · rcases mem_cons.mp hl with rfl | hl
    · simpa using ht other other
    · exact rel_of_pairwise_cons hs.2.1 hl

theorem newerFirst_antisymm {a b : UInt64 × Digest} (hab : newerFirst a b = true)
    (hba : newerFirst b a = true) : a.2 = b.2 := by
  simp only [newerFirst, or_eq_true, and_eq_true, decide_eq_true_eq, beq_iff_eq] at *
  rcases hab with hab | ⟨hab, ha⟩ <;> rcases hba with hba | ⟨hba, hb⟩
  · exact absurd (UInt64.lt_trans hab hba) (UInt64.lt_irrefl _)
  · exact absurd (hba ▸ hab) (UInt64.lt_irrefl _)
  · exact absurd (hab ▸ hba) (UInt64.lt_irrefl _)
  · exact Digest.ext (le_antisymm hb ha)

/-! ### What the code chooses -/

/-- The candidates are the other packages with a capture from a shared root, each with the latest
of them. -/
theorem candidates_spec {c : List LineageCapture} {f : List (UInt64 × Digest)}
    (hli : packages.lineage package = .ok (some c))
    (h : candidates packages package (c.map (·.sourceRoot)) = .ok f) :
    (∀ rm other, (rm, other) ∈ f → (∃ l, packages.list = .ok l ∧ other ∈ l) ∧ other ≠ package ∧
        SharedCapture packages package other rm) ∧
    ∀ l other timeMs, packages.list = .ok l → other ∈ l → other ≠ package →
      SharedCapture packages package other timeMs → ∃ rm, (rm, other) ∈ f ∧ timeMs ≤ rm := by
  simp only [candidates, bind_ok, pure, Except.pure, ok.injEq] at h
  obtain ⟨os, ho, ra, hr, rfl⟩ := h
  obtain ⟨hrw, hc⟩ := mem_of_mapM_ok hr
  -- A shared root is one that a capture of the reviewed package names.
  have hrt : ∀ ro, ro ∈ c.map (·.sourceRoot) → ∃ rem, Captured packages package ro rem := by
    intro ro hro
    obtain ⟨cap, ha, rfl⟩ := mem_map.mp hro
    exact ⟨cap.capturedAtMs, c, hli, ha⟩
  constructor
  · intro rm other hm
    obtain ⟨row, hw, rfl : row = some (rm, other)⟩ := mem_filterMap.mp hm
    obtain ⟨ca, hca, hr⟩ := hrw _ hw
    obtain ⟨hi, hh, heq⟩ := bind_ok.mp hr
    obtain ⟨timeMs, hl, hp⟩ := map_eq_some_iff.mp (ok.inj heq)
    obtain ⟨rfl, rfl⟩ := Prod.mk.inj hp
    obtain ⟨hls, hn⟩ := mem_filter.mp hca
    refine ⟨⟨os, ho, hls⟩, of_decide_eq_true hn, ?_⟩
    obtain ⟨cap, ha, ht⟩ := mem_map.mp (latest_eq_some hl).1
    obtain ⟨hm, hro⟩ := mem_filter.mp ha
    refine ⟨cap.sourceRoot, ?_, hrt _ (of_decide_eq_true hro)⟩
    cases hi with
    | none => simp at hm
    | some hi => exact ⟨hi, hh, ht ▸ hm⟩
  · intro l other timeMs hlis hm hn hs
    obtain rfl := ok.inj (ho.symm.trans hlis)
    obtain ⟨ro, ⟨k, hk, ha⟩, rem, r, he, hf⟩ := hs
    obtain rfl := some.inj (ok.inj (hli.symm.trans he))
    have hca : other ∈ os.filter (· ≠ package) :=
      mem_filter.mpr ⟨hm, decide_eq_true hn⟩
    obtain ⟨row, hw, hr⟩ := hc other hca
    obtain ⟨hi, hh, heq⟩ := bind_ok.mp hr
    obtain rfl := ok.inj (hk.symm.trans hh)
    have ht : timeMs ∈ ((k.filter (·.sourceRoot ∈ c.map (·.sourceRoot))).map (·.capturedAtMs)) := by
      refine mem_map.mpr ⟨⟨ro, timeMs⟩, mem_filter.mpr ⟨ha, ?_⟩, rfl⟩
      exact decide_eq_true (mem_map.mpr ⟨_, hf, rfl⟩)
    cases hl : latest ((k.filter (·.sourceRoot ∈ c.map (·.sourceRoot))).map (·.capturedAtMs)) with
    | none =>
      rw [latest_eq_none.mp hl] at ht
      contradiction
    | some rm =>
      rw [getD_some, hl] at heq
      refine ⟨rm, mem_filterMap.mpr ⟨row, hw, (ok.inj heq).symm⟩, ?_⟩
      exact (latest_eq_some hl).2 timeMs ht

/-- What the code proposes is the leading package; it proposes none where no trusted package has
a capture from a shared root. -/
theorem lineageBase_spec {res : Option (Digest × Basis)}
    (h : context.lineageBase sha256 sshsig packages package = .ok res) :
    (∀ b r, res = some (b, r) → context.basis sha256 sshsig b = some r ∧
      Leading sha256 sshsig context packages package b) ∧
    (res = none → ∀ other timeMs, TrustedPackage sha256 sshsig context packages package other →
      ¬ SharedCapture packages package other timeMs) := by
  obtain ⟨li, hl, h⟩ := bind_ok.mp h
  cases li with
  | none =>
    cases h
    refine ⟨fun _ _ hn => by contradiction, fun _ other timeMs _ hs => ?_⟩
    obtain ⟨ro, -, rem, re, hre, -⟩ := hs
    exact absurd (hl.symm.trans hre) (by simp)
  | some c =>
    obtain ⟨f, hf, h⟩ := bind_ok.mp h
    obtain ⟨ho, hc⟩ := candidates_spec hl hf
    have he := ok.inj h
    constructor
    · rintro b r rfl
      obtain ⟨⟨rm, other⟩, hm, hb, hfi⟩ := findSome?_mergeSort newerFirst
        (fun _ _ _ => newerFirst_trans) newerFirst_total he
      obtain ⟨f, hf, hp⟩ := map_eq_some_iff.mp hb
      obtain ⟨rfl, rfl⟩ := Prod.mk.inj hp
      obtain ⟨hls, hne, hs⟩ := ho rm other hm
      refine ⟨hf, ⟨hls, hne, by simp [hf]⟩, rm, hs, ?_⟩
      intro ri rim ⟨⟨l, hi, hv⟩, hri, ht⟩ hr
      obtain ⟨lm, ha, hle⟩ :=
        hc l ri rim hi hv hri hr
      exact newerFirst_trans (hfi _ ha (by simpa using ht)) (newerFirst_of_le hle ri)
    · rintro rfl other timeMs ⟨⟨l, hi, hm⟩, hne, ht⟩ hs
      obtain ⟨rm, hra, -⟩ := hc l other timeMs hi hm hne hs
      have hn := List.findSome?_eq_none_iff.mp he _ (mem_mergeSort.mpr hra)
      rw [map_eq_none_iff] at hn
      rw [hn] at ht
      contradiction

/-- At most one package leads. -/
theorem Leading.unique {b : Digest} (h : Leading sha256 sshsig context packages package b)
    (ho : Leading sha256 sshsig context packages package other) : b = other := by
  obtain ⟨ht, timeMs, hs, hf⟩ := h
  obtain ⟨ht', tm', hs', hf'⟩ := ho
  exact newerFirst_antisymm (hf other tm' ht' hs') (hf' b timeMs ht hs)

/-- The proposed base is the documented one exactly when the package with the newest capture from
a shared root is also the one with the newest earlier capture. -/
theorem lineageBase_documented_iff {package : Digest} {result : Option (Digest × Basis)}
    (h : context.lineageBase sha256 sshsig packages package = .ok result) :
    Documented sha256 sshsig context packages package result ↔
      ∀ base, Leading sha256 sshsig context packages package base →
        NewestEarlier sha256 sshsig context packages package base := by
  obtain ⟨hso, hno⟩ := lineageBase_spec h
  cases result with
  | none =>
    have hs := hno rfl
    refine iff_of_true (fun other timeMs ht he => ?_) fun base hl => ?_
    · exact hs other timeMs ht he.shared
    · obtain ⟨ht, timeMs, hc, -⟩ := hl
      exact absurd hc (hs base timeMs ht)
  | some c =>
    obtain ⟨base, r⟩ := c
    obtain ⟨hb, hl⟩ := hso base r rfl
    constructor
    · rintro ⟨-, hn⟩ other ho
      exact hl.unique ho ▸ hn
    · intro hn
      exact ⟨hb, hn base hl⟩

/-! ### Captures that are not earlier -/

/-- A store of two packages with one root, each captured once. -/
def twoPackages (reviewed other : Digest) (reviewedMs otherMs : UInt64) : Packages Unit Unit where
  lineage package := .ok <| if package = reviewed then some [⟨"skills", reviewedMs⟩]
    else if package = other then some [⟨"skills", otherMs⟩] else none
  list := .ok [reviewed, other]
  between _ _ := .ok ()

/-- The other package of the sample is admitted, the reviewed one is not. -/
private def otherAdmitted : FocusContext where
  endorsers := ⟨[]⟩
  records := []
  admitted := [.fromRaw (Vector.replicate 32 1)]
  nowMs := 0

private def reviewedDigest : Digest := .fromRaw (Vector.replicate 32 2)

private def otherDigest : Digest := .fromRaw (Vector.replicate 32 1)

private theorem earlier_twoPackages {rm om : UInt64}
    (h : EarlierCapture (twoPackages reviewedDigest otherDigest rm om) reviewedDigest other timeMs)
    (hn : other ≠ reviewedDigest) : timeMs = om ∧ om < rm := by
  obtain ⟨r, ⟨hi, hh, ha⟩, lm, ⟨c, hc, hl⟩, ht⟩ := h
  have hr : c = [⟨"skills", rm⟩] := by
    simpa [twoPackages, eq_comm] using hc
  have ho : hi = [⟨"skills", om⟩] := by
    simp only [twoPackages, hn, if_false, ok.injEq] at hh
    split at hh
    · exact (some.inj hh).symm
    · contradiction
  subst hr ho
  simp only [mem_singleton, LineageCapture.mk.injEq] at ha hl
  exact ⟨ha.2, ha.2 ▸ hl.2 ▸ ht⟩

private def constantSha256 : Sha256 := fun _ => Vector.replicate 32 0

private def noSignatures : SshsigVerify := fun _ _ _ _ _ => .error "unsigned"

/-- Where every shared capture is earlier, the proposed base is the documented one. -/
theorem lineageBase_documented_sample : otherAdmitted.lineageBase constantSha256 noSignatures
        (twoPackages reviewedDigest otherDigest 10 5) reviewedDigest =
      .ok (some (otherDigest, .admitted)) ∧ (Documented constantSha256 noSignatures otherAdmitted
        (twoPackages reviewedDigest otherDigest 10 5) reviewedDigest
        (some (otherDigest, .admitted)) ↔ ∀ base, Leading constantSha256 noSignatures otherAdmitted
          (twoPackages reviewedDigest otherDigest 10 5) reviewedDigest base →
        NewestEarlier constantSha256 noSignatures otherAdmitted
          (twoPackages reviewedDigest otherDigest 10 5) reviewedDigest base) := by
  have hc : otherAdmitted.lineageBase constantSha256 noSignatures
      (twoPackages reviewedDigest otherDigest 10 5) reviewedDigest =
        .ok (some (otherDigest, .admitted)) := by decide +kernel
  exact ⟨hc, lineageBase_documented_iff hc⟩

/-- A package captured only after the reviewed one becomes its base. -/
theorem later_capture_chosen : otherAdmitted.lineageBase constantSha256 noSignatures
        (twoPackages reviewedDigest otherDigest 10 20) reviewedDigest =
      .ok (some (otherDigest, .admitted)) ∧ ¬ Documented constantSha256 noSignatures otherAdmitted
      (twoPackages reviewedDigest otherDigest 10 20) reviewedDigest
      (some (otherDigest, .admitted)) := by
  refine ⟨by decide +kernel, ?_⟩
  rintro ⟨-, timeMs, he, -⟩
  exact absurd (earlier_twoPackages he (by decide +kernel)).2 (by decide)

end FocusContext
end Louiselm.Endorsement
