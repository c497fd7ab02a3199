import Mathlib.Algebra.Order.BigOperators.Group.List
import Louiselm.Admission.Generation
import Louiselm.Endorsement.Imports

/-!
# Withdrawal alerts

`skills-core/src/endorsement/alerts.rs`: which admitted members depended on withdrawn evidence.
A withdrawal is checked for its proof and its signature, never for expiry.
-/

namespace Louiselm.Endorsement
open Base Canonical List
open Admission (GenerationRecord Member)
open Record

/-- How much a withdrawal matters to one admitted member. -/
inductive Urgency where
  | reliedOn
  | subjectOnly
deriving DecidableEq, Repr

/-- One admitted member affected by one withdrawal. -/
structure WithdrawalAlert where
  member : String
  endorser : String
  withdrawal : String
  urgency : Urgency
  nextAction : String
deriving DecidableEq, Repr

/-- What the operator may do. -/
def nextAction (member : String) : String :=
  "review " ++ member ++ "; to stop its use, run: louiselm-skills quarantine exclude " ++ member ++
    " --reason endorsement_withdrawn"

/-- Whether a withdrawal takes back an Endorsement: one signer, one package. -/
def Record.takesBack (withdrawal endorsement : Record) : Bool :=
  withdrawal.signing.signerKey == endorsement.signing.signerKey &&
    withdrawal.covers endorsement.subject.packageDigest

section

variable (sha256 : Sha256)

/-- The record of a displayed digest. -/
def byDigest (records : List Record) (digest : String) : Option Record :=
  (records.filter fun record => (record.digest sha256).toString == digest).getLast?

def alert (endorsers : EndorserSet) (member : String) (urgency : Urgency) (withdrawal : Record) :
    WithdrawalAlert where
  member
  endorser := ((endorsers.find withdrawal.signing.signerKey).map (·.label)).getD
    withdrawal.signing.signerKey
  withdrawal := (withdrawal.digest sha256).toString
  urgency
  nextAction := nextAction member

/-- The records not seen before, each once. -/
def fresh (seen : List Digest) : List Record → List Record
  | [] => []
  | record :: records =>
    let digest := record.digest sha256
    if digest ∈ seen then fresh seen records else record :: fresh (digest :: seen) records

/-- The withdrawals that take back the record of a displayed digest. -/
def withdrawalsOf (records : List Record) (relied : String) : List Record :=
  match byDigest sha256 records relied with
  | none => []
  | some endorsement => (records.filter withdraws).filter (·.takesBack endorsement)

/-- The withdrawals that take back what a member relied on, in the order they are found. -/
def reliedWithdrawals (records : List Record) (member : Member) : List Record :=
  fresh sha256 [] (member.reliedOn.flatMap (withdrawalsOf sha256 records))

/-- The withdrawals of a member's bytes by a currently trusted endorser. -/
def subjectWithdrawals (endorsers : EndorserSet) (records : List Record) (member : Member) :
    List Record :=
  (records.filter withdraws).filter fun withdrawal =>
    (endorsers.find withdrawal.signing.signerKey).isSome &&
      withdrawal.subject.packageDigest.toString == member.packageDigest

/-- The alerts for one member. -/
def memberAlerts (endorsers : EndorserSet) (records : List Record) (member : Member) :
    List WithdrawalAlert :=
  let relied := reliedWithdrawals sha256 records member
  let subject := fresh sha256 (relied.map (·.digest sha256))
    (subjectWithdrawals endorsers records member)
  relied.map (alert sha256 endorsers member.packageDigest .reliedOn) ++
    subject.map (alert sha256 endorsers member.packageDigest .subjectOnly)

/-- The members of a Generation that are in force. -/
def effectiveMembers (generation : GenerationRecord) (effective : List String) : List Member :=
  generation.payload.members.filter (·.packageDigest ∈ effective)

/-- The alerts for the members in force, most urgent first. -/
def fromRecords (generation : GenerationRecord) (effective : List String)
    (endorsers : EndorserSet) (records : List Record) : List WithdrawalAlert :=
  ((effectiveMembers generation effective).flatMap
      (memberAlerts sha256 endorsers records)).mergeSort
    fun a b => a.urgency == .reliedOn || b.urgency != .reliedOn

variable (fmt : JsonFormat) (sshsig : SshsigVerify)

/-- Whether a record is one that alerts may look at: a withdrawal only when it verifies. -/
def Record.counts (record : Record) : Bool :=
  !record.withdraws || (record.verifySignature sha256 sshsig .none).isOk

/-- The alerts from the records stored now. -/
def withdrawalAlerts (directory : Directory) (endorsers : EndorserSet)
    (generation : GenerationRecord) (effective : List String) : List WithdrawalAlert :=
  fromRecords sha256 generation effective endorsers
    ((directory.records sha256 fmt).records.filter (·.counts sha256 sshsig))

/-! ### Each withdrawal once -/

variable {sha256 fmt sshsig}

theorem fresh_sublist (seen : List Digest) (recs : List Record) :
    (fresh sha256 seen recs).Sublist recs := by
  induction recs generalizing seen with
  | nil => exact List.Sublist.refl _
  | cons r recs ih =>
    rw [fresh]
    split
    · exact (ih seen).cons r
    · exact (ih _).cons_cons r

variable {s : List Digest}

theorem fresh_congr {s' : List Digest} (h : ∀ d, d ∈ s ↔ d ∈ s')
    (recs : List Record) : fresh sha256 s recs = fresh sha256 s' recs := by
  induction recs generalizing s s' with
  | nil => rfl
  | cons r recs ih =>
    have hc : ∀ d, d ∈ r.digest sha256 :: s ↔ d ∈ r.digest sha256 :: s' := by
      intro d
      rw [mem_cons, mem_cons, h]
    rw [fresh, fresh]
    simp only [h, ih h, ih hc]

/-- Records are told apart by their digests. -/
def Distinct (sha256 : Sha256) (records : List Record) : Prop :=
  ∀ a ∈ records, ∀ b ∈ records, a.digest sha256 = b.digest sha256 → a = b

variable {rs rs' : List Record}

theorem Distinct.subset (h : Distinct sha256 rs) (hs : rs' ⊆ rs) :
    Distinct sha256 rs' :=
  fun a ha b hb => h a (hs ha) b (hs hb)

theorem mem_fresh (h : Distinct sha256 rs) {r : Record} :
    r ∈ fresh sha256 s rs ↔ r ∈ rs ∧ r.digest sha256 ∉ s := by
  induction rs generalizing s with
  | nil => simp [fresh]
  | cons x rs ih =>
    have hr : Distinct sha256 rs := h.subset (subset_cons_self x rs)
    rw [fresh]
    split
    · next he =>
      rw [ih hr, mem_cons]
      constructor
      · exact fun hm => ⟨.inr hm.1, hm.2⟩
      · rintro ⟨rfl | hm, hn⟩
        · exact absurd he hn
        · exact ⟨hm, hn⟩
    · next hf =>
      rw [mem_cons, mem_cons, ih hr, mem_cons, not_or]
      constructor
      · rintro (rfl | ⟨hm, _, hn⟩)
        · exact ⟨.inl rfl, hf⟩
        · exact ⟨.inr hm, hn⟩
      · rintro ⟨rfl | hm, hn⟩
        · exact .inl rfl
        · by_cases hs : r.digest sha256 = x.digest sha256
          · exact .inl (h r (mem_cons_of_mem _ hm) x (mem_cons_self ..) hs)
          · exact .inr ⟨hm, hs, hn⟩

theorem nodup_fresh (h : Distinct sha256 rs) : (fresh sha256 s rs).Nodup := by
  induction rs generalizing s with
  | nil => exact nodup_nil
  | cons x rs ih =>
    have hr : Distinct sha256 rs := h.subset (subset_cons_self x rs)
    rw [fresh]
    split
    · exact ih hr
    · refine nodup_cons.mpr ⟨fun hm => ?_, ih hr⟩
      exact ((mem_fresh hr).mp hm).2 (mem_cons_self ..)

/-! ### What a member's alerts depend on -/

theorem byDigest_eq_some (h : Distinct sha256 rs) {d : String} {r : Record} :
    byDigest sha256 rs d = some r ↔ r ∈ rs ∧ (r.digest sha256).toString = d := by
  have hm : ∀ f, byDigest sha256 rs d = some f → f ∈ rs ∧ (f.digest sha256).toString = d := by
    intro f hf
    simpa using mem_of_getLast? hf
  constructor
  · exact hm r
  · rintro ⟨hr, rfl⟩
    cases hf : byDigest sha256 rs (r.digest sha256).toString with
    | none =>
      rw [byDigest, List.getLast?_eq_none_iff, filter_eq_nil_iff] at hf
      exact absurd (beq_self_eq_true _) (hf r hr)
    | some f =>
      obtain ⟨ht, hs⟩ := hm f hf
      rw [h f ht r hr (Digest.toString_inj.mp hs)]

theorem mem_withdrawalsOf (h : Distinct sha256 rs) {r : String} {w : Record} :
    w ∈ withdrawalsOf sha256 rs r ↔ ∃ e ∈ rs, (e.digest sha256).toString = r ∧
        w ∈ rs ∧ w.withdraws = true ∧ w.takesBack e = true := by
  unfold withdrawalsOf
  cases hr : byDigest sha256 rs r with
  | none =>
    simp only [not_mem_nil, false_iff]
    rintro ⟨e, he, hd, _⟩
    rw [(byDigest_eq_some h).mpr ⟨he, hd⟩] at hr
    contradiction
  | some e =>
    simp only [mem_filter, and_assoc]
    constructor
    · intro hm
      obtain ⟨he, hd⟩ := (byDigest_eq_some h).mp hr
      exact ⟨e, he, hd, hm⟩
    · rintro ⟨o, he, hd, hm⟩
      rw [(byDigest_eq_some h).mpr ⟨he, hd⟩] at hr
      rw [← Option.some.inj hr]
      exact hm

private theorem distinct_withdrawalsOf (h : Distinct sha256 rs) (r : List String) :
    Distinct sha256 (r.flatMap (withdrawalsOf sha256 rs)) := by
  refine h.subset fun re hr => ?_
  obtain ⟨d, _, hr⟩ := mem_flatMap.mp hr
  obtain ⟨_, _, _, hm, _⟩ := (mem_withdrawalsOf h).mp hr
  exact hm

variable {m : Member}

/-- What a member relied on is taken back by the withdrawals of the same signer and package. -/
theorem mem_reliedWithdrawals (h : Distinct sha256 rs) {w : Record} :
    w ∈ reliedWithdrawals sha256 rs m ↔ w ∈ rs ∧ w.withdraws = true ∧
        ∃ e ∈ rs, (e.digest sha256).toString ∈ m.reliedOn ∧ w.takesBack e = true := by
  rw [reliedWithdrawals, mem_fresh (distinct_withdrawalsOf h _), mem_flatMap]
  simp only [mem_withdrawalsOf h, not_mem_nil, not_false_eq_true, and_true]
  constructor
  · rintro ⟨r, hr, e, hm, rfl, hd, hw, ht⟩
    exact ⟨hd, hw, e, hm, hr, ht⟩
  · rintro ⟨hd, hw, e, hm, hr, ht⟩
    exact ⟨_, hr, e, hm, rfl, hd, hw, ht⟩

theorem nodup_reliedWithdrawals (h : Distinct sha256 rs) (m : Member) :
    (reliedWithdrawals sha256 rs m).Nodup :=
  nodup_fresh (distinct_withdrawalsOf h _)

variable {endorsers : EndorserSet}

/-- The alerts of a member are its relied-on withdrawals, first. -/
theorem memberAlerts_perm (hw : rs'.filter withdraws = rs.filter withdraws)
    (hr : (reliedWithdrawals sha256 rs' m).Perm (reliedWithdrawals sha256 rs m)) :
    (memberAlerts sha256 endorsers rs' m).Perm (memberAlerts sha256 endorsers rs m) := by
  have hs : ∀ d, d ∈ (reliedWithdrawals sha256 rs' m).map (·.digest sha256) ↔
        d ∈ (reliedWithdrawals sha256 rs m).map (·.digest sha256) :=
    fun d => (hr.map _).mem_iff
  have hu : subjectWithdrawals endorsers rs' m =
      subjectWithdrawals endorsers rs m := by
    rw [subjectWithdrawals, hw, subjectWithdrawals]
  rw [memberAlerts, memberAlerts, hu, fresh_congr hs]
  exact (hr.map _).append_right _

/-- Where all that a member relied on is found alike, its alerts are the same. -/
theorem memberAlerts_congr (hw : rs'.filter withdraws = rs.filter withdraws)
    (hf : ∀ r ∈ m.reliedOn, byDigest sha256 rs' r = byDigest sha256 rs r) :
    memberAlerts sha256 endorsers rs' m = memberAlerts sha256 endorsers rs m := by
  have hr : reliedWithdrawals sha256 rs' m =
      reliedWithdrawals sha256 rs m := by
    rw [reliedWithdrawals, reliedWithdrawals]
    refine congrArg (fresh sha256 []) (flatMap_congr fun r hm => ?_)
    rw [withdrawalsOf, hf r hm, hw, withdrawalsOf]
  have hs : subjectWithdrawals endorsers rs' m =
      subjectWithdrawals endorsers rs m := by
    rw [subjectWithdrawals, hw, subjectWithdrawals]
  rw [memberAlerts, hr, hs, memberAlerts]

/-- The urgent alerts of a member count its relied-on withdrawals. -/
theorem countP_memberAlerts (endorsers : EndorserSet) (rs : List Record) (m : Member) :
    (memberAlerts sha256 endorsers rs m).countP (·.urgency == .reliedOn) =
      (reliedWithdrawals sha256 rs m).length := by
  simp [memberAlerts, countP_append, countP_map, Function.comp_def, alert]

private theorem eq_of_sum_eq {α : Type} {f g : α → Nat} {xs : List α} (hl : ∀ it ∈ xs, f it ≤ g it)
    (hs : (xs.map f).sum = (xs.map g).sum) : ∀ it ∈ xs, f it = g it := by
  induction xs with
  | nil => exact fun _ h => nomatch h
  | cons x xs ih =>
    rw [forall_mem_cons] at hl ⊢
    have hr := sum_le_sum hl.2
    rw [map_cons, map_cons, sum_cons, sum_cons] at hs
    exact ⟨by omega, ih hl.2 (by omega)⟩

/-- Records of which only those that are no withdrawals and that no withdrawal looks up are
left out give the same alerts, and only those. -/
theorem fromRecords_perm_iff {k : Record → Bool} (h : Distinct sha256 rs)
    (hk : ∀ r ∈ rs, r.withdraws = true → k r = true) (g : GenerationRecord) (e : List String)
    (endorsers : EndorserSet) : (fromRecords sha256 g e endorsers (rs.filter k)).Perm
        (fromRecords sha256 g e endorsers rs) ↔ ∀ m ∈ effectiveMembers g e,
        ∀ w ∈ reliedWithdrawals sha256 rs m, w ∈ reliedWithdrawals sha256 (rs.filter k) m := by
  have hd : Distinct sha256 (rs.filter k) := h.subset (filter_subset_self _)
  have hw : (rs.filter k).filter withdraws = rs.filter withdraws := by
    rw [filter_filter]
    refine filter_congr fun r hrec => ?_
    cases hwd : r.withdraws with
    | false => rfl
    | true => rw [hk r hrec hwd]; rfl
  have hb : ∀ m, reliedWithdrawals sha256 (rs.filter k) m ⊆
      reliedWithdrawals sha256 rs m := by
    intro m w hmem
    rw [mem_reliedWithdrawals hd] at hmem
    obtain ⟨hi, hwd, en, he, hr, ht⟩ := hmem
    exact (mem_reliedWithdrawals h).mpr ⟨mem_of_mem_filter hi, hwd,
      en, mem_of_mem_filter he, hr, ht⟩
  have hu : ∀ m, List.Subperm (reliedWithdrawals sha256 (rs.filter k) m)
      (reliedWithdrawals sha256 rs m) :=
    fun m => subperm_of_subset (nodup_reliedWithdrawals hd m) (hb m)
  have hs : ∀ rs', (fromRecords sha256 g e endorsers rs').Perm
      ((effectiveMembers g e).flatMap (memberAlerts sha256 endorsers rs')) :=
    fun rs' => mergeSort_perm _ _
  constructor
  · intro hp m hm
    have hc := ((hs _).symm.trans (hp.trans (hs _))).countP_eq (·.urgency == .reliedOn)
    rw [countP_flatMap, countP_flatMap] at hc
    simp only [Function.comp_def, countP_memberAlerts] at hc
    have hl := eq_of_sum_eq (fun m _ => (hu m).length_le) hc m hm
    exact ((hu m).perm_of_length_le hl.ge).symm.subset
  · intro ha
    refine (hs _).trans (List.Perm.trans ?_ (hs _).symm)
    refine List.Perm.flatMap_left _ fun m hm => memberAlerts_perm hw ?_
    exact (hu m).antisymm (subperm_of_subset (nodup_reliedWithdrawals h m) (ha m hm))

/-- An alert is about a withdrawal among the records. -/
theorem withdrawal_of_mem_fromRecords (h : Distinct sha256 rs) {g : GenerationRecord}
    {e : List String} {a : WithdrawalAlert} (ha : a ∈ fromRecords sha256 g e endorsers rs) :
    ∃ w ∈ rs, w.withdraws = true ∧ (w.digest sha256).toString = a.withdrawal := by
  rw [fromRecords, mem_mergeSort, mem_flatMap] at ha
  obtain ⟨m, _, ha⟩ := ha
  rw [memberAlerts, mem_append, mem_map, mem_map] at ha
  rcases ha with ⟨w, hm, rfl⟩ | ⟨w, hm, rfl⟩
  · obtain ⟨hm, hw, _⟩ := (mem_reliedWithdrawals h).mp hm
    exact ⟨w, hm, hw, rfl⟩
  · have hm := mem_of_mem_filter ((fresh_sublist _ _).subset hm)
    rw [mem_filter] at hm
    exact ⟨w, hm.1, hm.2, rfl⟩

end
end Louiselm.Endorsement
