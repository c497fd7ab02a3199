import Mathlib.Data.List.Perm.Basic
import Louiselm.Base.JsonCompact
import Louiselm.Endorsement.Record

/-!
# Signed records can be imported

`skills-core/src/endorsement.rs`: whatever `sign_batch` exports, `parse` reads back to the
batch's own entry, and `Record::verify` accepts it throughout its window. The exporter and
the importer share no code path but the canonical documents, so the two are related field
by field here, and a whole batch through the permutation that sorting its leaves makes.
-/

namespace Louiselm.Endorsement
open Base Canonical Merkle WireRecord Compact

/-! ### Fields -/

@[simp] theorem digestField_toString (f : String) (d : Digest) :
    digestField f d.toString = .ok d := by
  simp [digestField]

@[simp] theorem optionalDigestField_map (f : String) (d : Option Digest) :
    optionalDigestField f (d.map Digest.toString) = .ok d := by
  cases d with
  | none => rfl
  | some d => simp [optionalDigestField, Except.map]

private theorem utf8Size_hex {c : Char} (h : Hex.isDigit c = true) : c.utf8Size = 1 := by
  have hl : c ≤ 'f' := by
    unfold Hex.isDigit Hex.nibble at h
    split at h
    · next hd => exact Char.le_trans hd.2 (by decide)
    · split at h
      · next hd => exact hd.2
      · simp at h
  rw [Char.utf8Size_eq_one_iff]
  exact UInt32.le_trans hl (by decide)

/-- Hexadecimal text has one byte for each digit. -/
private theorem utf8ByteSize_hex (d : List Char) (h : d.all Hex.isDigit = true) :
    (String.ofList d).utf8ByteSize = d.length := by
  induction d with
  | nil => simp
  | cons c d ih =>
    rw [List.all_cons, Bool.and_eq_true] at h
    rw [String.ofList_cons, String.utf8ByteSize_append, String.utf8ByteSize_singleton,
      utf8Size_hex h.1, ih h.2, List.length_cons]
    omega

/-- Drawn blinding passes its own check. -/
@[simp] theorem checkNonce_nonceText (b : Vector UInt8 32) : checkNonce (nonceText b) = .ok () := by
  have hd := Hex.isDigit_encode b.toList
  rw [checkNonce, require_ok, nonceText, utf8ByteSize_hex _ hd, String.toList_ofList, hd]
  simp [nonceBytes]

/-- A blinded package is read back from its leaf. -/
theorem packageFromLeaf_endorsedLeaf {p : EndorsedPackage} (h : validatePackage p = .ok ())
    (b : Vector UInt8 32) : packageFromLeaf (endorsedLeaf p (nonceText b)) = .ok p := by
  have ha : (endorsedLeaf p (nonceText b)).assessment.map
      (fun s => StatedAssessment.mk s.model s.promptVersion) =
        p.assessment := by
    cases ha : p.assessment <;> simp [endorsedLeaf, ha]
  simp only [packageFromLeaf, ha]
  simp [endorsedLeaf, h]

/-- A blinded withdrawal is read back from its leaf. -/
theorem digestFromLeaf_withdrawnLeaf (d : Digest) (b : Vector UInt8 32) :
    digestFromLeaf (withdrawnLeaf d (nonceText b)) = .ok d := by
  simp [digestFromLeaf, withdrawnLeaf]

/-- Encoded proof entries are read back. -/
theorem decodeProof_encode (p : List Node) : decodeProof (p.map encode) = .ok p := by
  rw [decodeProof, mapM_ok, List.forall₂_map_left_iff]
  simp [List.forall₂_same]

section

variable {sha256 : Sha256} {fmt : JsonFormat}

/-! ### One record -/

/-- A canonical document decodes to the record it encodes. -/
theorem typed_toVec {L : Type} [Deserialize L] (r : WireRecord L) :
    typed fmt L (toJson r) (fmt.toVec r) = .ok r := by
  simp [typed]

/-- The members that `parse` looks at before it decodes. -/
theorem get_record {L : Type} [Deserialize L] (r : WireRecord L) :
    (toJson r).get "schema" = some (.str r.schema) ∧
      (toJson r).get "header" = some (toJson r.header) := by
  constructor
  · change r.members.reverse.lookup "schema" = _
    simp [members, List.lookup_cons]
    rfl
  · change r.members.reverse.lookup "header" = _
    simp [members, List.lookup_cons]

/-- The header members that `parse` looks at before it decodes. -/
theorem get_header (h : WireHeader) : (toJson h).get "schema" = some (.str h.schema) ∧
      (toJson h).get "signature_algorithm" = some (.str h.signatureAlgorithm) ∧
      (toJson h).get "kind" = some (.str h.kind.name) := by
  refine ⟨?_, ?_, ?_⟩
  · change h.members.reverse.lookup "schema" = _
    simp [WireHeader.members, List.lookup_cons]
    rfl
  · change h.members.reverse.lookup "signature_algorithm" = _
    simp [WireHeader.members, List.lookup_cons]
    rfl
  · change h.members.reverse.lookup "kind" = _
    simp [WireHeader.members, List.lookup_cons]
    rfl

/-- A record of the supported formats is parsed by the arm of its kind. -/
theorem parse_toVec {L : Type} [Deserialize L] [Normal L] (r : WireRecord L)
    (hd : Serialize.depth (WireRecord L) ≤ maxDepth) (hi : (fmt.toVec r).length ≤ maxRecordBytes)
    (he : r.schema = recordSchema) (ht : r.header.schema = statementSchema)
    (ha : r.header.signatureAlgorithm = sshsigAlgorithm) : parse sha256 fmt (fmt.toVec r) =
      (match r.header.kind with
      | .endorsement => do
        let record' ← typed fmt EndorsedLeaf (toJson r) (fmt.toVec r)
        let package ← packageFromLeaf record'.leaf
        finish sha256 fmt record' (.endorsed package) (fmt.toVec r)
      | .withdrawal => do
        let record' ← typed fmt WithdrawnLeaf (toJson r) (fmt.toVec r)
        let digest ← digestFromLeaf record'.leaf
        finish sha256 fmt record' (.withdrawn digest) (fmt.toVec r)) := by
  have hr := get_record r
  have hh := get_header r.header
  have hs : require (decide ((fmt.toVec r).length ≤ maxRecordBytes))
      (EndorsementError.oversized (fmt.toVec r).length maxRecordBytes) = .ok () := by
    simpa using hi
  rw [parse, hs, fmt.readBytes_toVec hd r]
  simp only [Option.map_some, Normal.normalize_toJson, hr.1, hr.2, Option.bind_some, hh.1, hh.2.1,
    hh.2.2, expectSchema, he, ht, ha, if_true, beq_self_eq_true, require]
  cases r.header.kind <;> rfl

variable {signing : Signing} {kind : StatementKind} {root : Node} {subject : Subject}
  {signature : String}

/-- The header a batch signed is accepted with any proof and position inside the tree. -/
theorem finish_batchHeader {L : Type} [Serialize L] {leafCount leafIndex : UInt64}
    {proof : List Node} {leaf : L} {schema : String} (bytes : Bytes)
    (hs : validateSigning signing = .ok ()) (hi : leafIndex < leafCount)
    (hc : leafCount.toNat ≤ maxBatch) (hk : subjectMatchesKind subject = kind) :
    finish sha256 fmt (mk (batchHeader signing kind leafCount root) leaf leafIndex
        (proof.map encode) schema signature) subject bytes = .ok {
        signing, kind, subject, signature, leafIndex, leafCount, proof, root, bytes
        headerBytes := fmt.toVec (batchHeader signing kind leafCount root)
        leaf := Merkle.leafHash sha256 (fmt.toVec leaf) } := by
  have hl : count maxBatch = .ok 1024 := rfl
  have hp : leafCount ≠ 0 := by
    rintro rfl
    exact absurd hi (by simp [UInt64.lt_iff_toNat_lt])
  have he : leafCount ≤ 1024 := hc
  subst hk
  simp [finish, batchHeader, hs, hl, hp, he, hi, decodeProof_encode, require]

/-- A leaf that every supported record around it is parsed as a statement of `subject`. -/
def ReadsAs {L : Type} [Deserialize L] (sha256 : Sha256) (fmt : JsonFormat) (kind : StatementKind)
    (subject : Subject) (leaf : L) : Prop :=
  subjectMatchesKind subject = kind ∧ ∀ record : WireRecord L,
    record.leaf = leaf → record.header.kind = kind → record.schema = recordSchema →
    record.header.schema = statementSchema → record.header.signatureAlgorithm = sshsigAlgorithm →
    (fmt.toVec record).length ≤ maxRecordBytes →
    parse sha256 fmt (fmt.toVec record) = finish sha256 fmt record subject (fmt.toVec record)

/-- The leaf of a valid package is read as its Endorsement. -/
theorem readsAs_endorsed {p : EndorsedPackage} (h : validatePackage p = .ok ())
    (b : Vector UInt8 32) : ReadsAs sha256 fmt .endorsement (.endorsed p)
      (endorsedLeaf p (nonceText b)) := by
  refine ⟨rfl, fun r hl hk hr hs ha hi => ?_⟩
  rw [parse_toVec r (by decide) hi hr hs ha, hk]
  simp only [typed_toVec, ok_bind, hl, packageFromLeaf_endorsedLeaf h]

/-- The leaf of a withdrawn digest is read as its withdrawal. -/
theorem readsAs_withdrawn (d : Digest) (b : Vector UInt8 32) :
    ReadsAs sha256 fmt .withdrawal (.withdrawn d) (withdrawnLeaf d (nonceText b)) := by
  refine ⟨rfl, fun r hl hk hr hs ha hi => ?_⟩
  rw [parse_toVec r (by decide) hi hr hs ha, hk]
  simp only [typed_toVec, ok_bind, hl, digestFromLeaf_withdrawnLeaf]

/-- The only record of a batch is parsed whatever its root and signature are. -/
theorem parse_lone {L : Type} [Deserialize L] {leaf : L}
    (hs : validateSigning signing = .ok ()) (hr : ReadsAs sha256 fmt kind subject leaf)
    (hsi : (fmt.toVec (mk (batchHeader signing kind 1 root) leaf 0 [] recordSchema
      signature)).length ≤ maxRecordBytes) :
    parse sha256 fmt (fmt.toVec (mk (batchHeader signing kind 1 root) leaf 0 []
      recordSchema signature)) = .ok {
        signing, kind, subject, signature, root
        leafIndex := 0
        leafCount := 1
        proof := []
        bytes := fmt.toVec (mk (batchHeader signing kind 1 root) leaf 0 [] recordSchema signature)
        headerBytes := fmt.toVec (batchHeader signing kind 1 root)
        leaf := Merkle.leafHash sha256 (fmt.toVec leaf) } := by
  rw [hr.2 _ rfl rfl rfl rfl rfl hsi]
  have hl : (1 : UInt64).toNat ≤ maxBatch := by decide
  have hi : (0 : UInt64) < 1 := by decide
  generalize fmt.toVec (mk (batchHeader signing kind 1 root) leaf 0 [] recordSchema
    signature) = bytes
  have hf : finish sha256 fmt (mk (batchHeader signing kind 1 root) leaf 0
      (([] : List Node).map encode) recordSchema signature) subject bytes = _ :=
    finish_batchHeader bytes hs hi hl hr.1
  exact hf

/-- Exported bytes that parse to the batch's own statement and verify exactly in its window. -/
def ImportsAs (sha256 : Sha256) (fmt : JsonFormat) (sshsig : SshsigVerify) (signing : Signing)
    (bytes : Bytes) (subject : Subject) : Prop :=
  ∃ record, parse sha256 fmt bytes = .ok record ∧ record.toBytes = bytes ∧
    record.signing = signing ∧ record.subject = subject ∧ ∀ nowMs : UInt64,
      (∃ verified, record.verify sha256 sshsig nowMs SkPolicy.none = .ok verified) ↔
        signing.issuedAtMs ≤ nowMs ∧ nowMs < signing.expiresAtMs

variable {ss : SshsigVerify}

/-- A record with a verified signature is accepted exactly in its window. -/
theorem verify_window {r : Record} {sp : SkPolicy} (h : r.verifySignature sha256 ss sp = .ok ())
    (ms : UInt64) : (∃ v, r.verify sha256 ss ms sp = .ok v) ↔
      r.signing.issuedAtMs ≤ ms ∧ ms < r.signing.expiresAtMs := by
  simp only [Record.verify, check_ok, h, require_ok, decide_eq_true_eq, true_and]
  constructor
  · rintro ⟨_, hi, he, _⟩
    exact ⟨hi, he⟩
  · rintro ⟨hi, he⟩
    exact ⟨r.subject, hi, he, rfl⟩

theorem count_ok {v : Nat} {w : UInt64} : count v = .ok w ↔ w.toNat = v := by
  have hl := w.toNat_lt_size
  unfold count
  split
  · next h =>
    rw [Except.ok.injEq, ← UInt64.toNat_inj, UInt64.toNat_ofNat', Nat.mod_eq_of_lt h]
    exact eq_comm
  · next h =>
    simp only [reduceCtorEq, false_iff]
    omega

variable {no : List Node}

/-- What an exported record holds. -/
theorem exportRecord_ok {L : Type} [Deserialize L] {he : WireHeader} {l : L} {i : Nat} {b : Bytes}
    (h : exportRecord sha256 fmt he signature no l i = .ok b) :
    ∃ li : UInt64, li.toNat = i ∧ b = fmt.toVec (mk he l li
        ((path sha256 no i).map encode) recordSchema signature) ∧ b.length ≤ maxRecordBytes := by
  obtain ⟨li, hi, h⟩ := bind_ok.mp h
  rw [check_ok, require_ok, decide_eq_true_eq] at h
  rw [← Except.ok.inj h.2]
  exact ⟨li, count_ok.mp hi, rfl, h.1⟩

/-! ### A batch -/

open List

/-- A signed batch: its header verified under the stated key and every record exported. -/
theorem assemble_ok {L : Type} [Deserialize L] {s : Signer} {l : List L} {rs : List Bytes}
    (h : assemble sha256 fmt ss s signing kind l = .ok rs) : ∃ root lc signature,
      Merkle.root sha256 ((sortLeaves sha256 fmt l).map Prod.fst) = some root ∧
      lc.toNat = (sortLeaves sha256 fmt l).length ∧ ss signature endorsementNamespace
        (fmt.toVec (batchHeader signing kind lc root)) signing.signerKey SkPolicy.none = .ok () ∧
      List.Forall₂ (fun e b => exportRecord sha256 fmt (batchHeader signing kind lc root) signature
          ((sortLeaves sha256 fmt l).map Prod.fst) e.1.2 e.2 = .ok b)
        (sortLeaves sha256 fmt l).zipIdx rs := by
  unfold assemble at h
  dsimp only at h
  split at h
  · simp at h
  · next root hr =>
    obtain ⟨lc, hc, h⟩ := bind_ok.mp h
    split at h
    · simp at h
    · next signature _ =>
      split at h
      · simp at h
      · next hv =>
        rw [length_map] at hc
        exact ⟨root, lc, signature, hr, count_ok.mp hc, hv, mapM_ok.mp h⟩

/-- Sorting the leaves keeps them, each with its own hash. -/
theorem sortLeaves_perm (sha256 : Sha256) (fmt : JsonFormat) {L : Type} [Serialize L] (l : List L) :
    (sortLeaves sha256 fmt l).Perm
      (l.map fun leaf => (Merkle.leafHash sha256 (fmt.toVec leaf), leaf)) :=
  mergeSort_perm _ _

/-- One record of a signed batch imports as the statement its leaf is read as. -/
theorem exportRecord_imports {L : Type} [Deserialize L] {lc : UInt64} {l : L} {i : Nat} {b : Bytes}
    (hs : validateSigning signing = .ok ())
    (ho : Merkle.root sha256 no = some root) (hc : lc.toNat = no.length) (hl : no.length ≤ maxBatch)
    (hn : no[i]? = some (Merkle.leafHash sha256 (fmt.toVec l)))
    (hv : ss signature endorsementNamespace
      (fmt.toVec (batchHeader signing kind lc root)) signing.signerKey SkPolicy.none = .ok ())
    (hr : ReadsAs sha256 fmt kind subject l)
    (h : exportRecord sha256 fmt (batchHeader signing kind lc root) signature no l i = .ok b) :
    ImportsAs sha256 fmt ss signing b subject := by
  obtain ⟨li, hi, rfl, hsi⟩ := exportRecord_ok h
  have ht : i < no.length := (List.getElem?_eq_some_iff.mp hn).1
  have hl' : li < lc := by
    rw [UInt64.lt_iff_toNat_lt]
    omega
  have hp := hr.2 _ rfl rfl rfl rfl rfl hsi
  rw [finish_batchHeader _ hs hl' (by omega) hr.1] at hp
  refine ⟨_, hp, rfl, rfl, rfl, verify_window ?_⟩
  have hpr : verify sha256 (Merkle.leafHash sha256 (fmt.toVec l)) li.toNat
      lc.toNat (path sha256 no i) root = true := by
    rw [hi, hc]
    exact verify_of_path sha256 hn ho
  simp [Record.verifySignature, hpr, hv]

/-- Every record of a signed batch imports as one of the statements its leaves are read as. -/
theorem assemble_imports {L : Type} [Deserialize L] {si : Signer} {s : List Subject} {l : List L}
    {rs : List Bytes} (hsi : validateSigning signing = .ok ()) (hl : l.length ≤ maxBatch)
    (hre : List.Forall₂ (ReadsAs sha256 fmt kind) s l)
    (h : assemble sha256 fmt ss si signing kind l = .ok rs) : ∃ es : List Subject, es.Perm s ∧
      List.Forall₂ (ImportsAs sha256 fmt ss signing) rs es := by
  obtain ⟨root, lc, signature, hro, hn, hv, hx⟩ := assemble_ok h
  have hp := sortLeaves_perm sha256 fmt l
  have hlen : (sortLeaves sha256 fmt l).length = l.length := by
    rw [hp.length_eq, length_map]
  -- The statements in the order of the sorted leaves.
  have ha : List.Forall₂ (fun subject e => ReadsAs sha256 fmt kind subject e.2 ∧
      e.1 = Merkle.leafHash sha256 (fmt.toVec e.2)) s
      (l.map fun leaf => (Merkle.leafHash sha256 (fmt.toVec leaf), leaf)) := by
    rw [forall₂_map_right_iff]
    exact hre.imp fun _ _ hr => ⟨hr, rfl⟩
  obtain ⟨es, hes, ho⟩ : ∃ es, s.Perm es ∧
      List.Forall₂ (fun subject e => ReadsAs sha256 fmt kind subject e.2 ∧
        e.1 = Merkle.leafHash sha256 (fmt.toVec e.2)) es (sortLeaves sha256 fmt l) := by
    have hc := (forall₂_comp_perm_eq_perm_comp_forall₂ (r := fun subject e =>
      ReadsAs sha256 fmt kind subject e.2 ∧ e.1 = Merkle.leafHash sha256 (fmt.toVec e.2))).le s
      (sortLeaves sha256 fmt l) ⟨_, ha, hp.symm⟩
    exact hc
  refine ⟨es, hes.symm, ?_⟩
  have hel := hx.length_eq
  have hsl := ho.length_eq
  rw [length_zipIdx] at hel
  rw [forall₂_iff_get] at hx ho ⊢
  refine ⟨by omega, fun i hi hj => ?_⟩
  have hs : i < (sortLeaves sha256 fmt l).length := by omega
  obtain ⟨hre, hh⟩ := ho.2 i hj hs
  have he := hx.2 i (by simpa using hs) hi
  rw [get_eq_getElem, getElem_zipIdx, Nat.zero_add] at he
  refine exportRecord_imports hsi hro (by rw [hn, length_map])
    (by rw [length_map]; omega) ?_ hv hre he
  rw [List.getElem?_map, List.getElem?_eq_getElem hs, Option.map_some]
  exact congrArg some hh

/-- Every subject is blinded in place. -/
theorem blind_ok {α L : Type} {n : Nonces} {lo : α → String → L} {s : List α}
    {leaves : List L} (h : blind n lo s = .ok leaves) :
    List.Forall₂ (fun subject l => ∃ b, l = lo subject (nonceText b)) s
      leaves := by
  have hm := mapM_ok.mp h
  rw [← zipIdx_map_fst 0 s, forall₂_map_left_iff]
  refine hm.imp fun ⟨subject, d⟩ l hl => ?_
  dsimp only at hl
  split at hl
  · next b _ => exact ⟨b, (Except.ok.inj hl).symm⟩
  · simp at hl

/-- A batch within the limit names its subjects once. -/
theorem checkSubjects_ok {ds : List Digest} (h : checkSubjects ds = .ok ()) :
    ds.length ≤ maxBatch := by
  simp only [checkSubjects, check_ok, require_ok, decide_eq_true_eq] at h
  exact h.2.2

end

open List

private def headHash : Sha256 := fun bytes => Vector.replicate 32 (bytes.headD 0)

private def acceptAll : SshsigVerify := fun _ _ _ _ _ => .ok ()

private def armored : Signer := fun _ _ => .ok "armored"

private def oneNonce : Nonces := fun _ => .ok (Vector.replicate 32 1)

private def publisher : Signing := ⟨.publisher, "ssh-ed25519 AAAA", 1000, 2000⟩

private def sevens : Digest := Digest.fromRaw (Vector.replicate 32 7)

private def loneLeaf : WithdrawnLeaf := withdrawnLeaf sevens (nonceText (Vector.replicate 32 1))

private def loneNode : Node := Merkle.leafHash headHash (format.toVec loneLeaf)

private def loneRecord : WireRecord WithdrawnLeaf :=
  mk (batchHeader publisher .withdrawal 1 loneNode) loneLeaf 0 [] recordSchema "armored"

private theorem loneRecord_exports :
    exportRecord headHash format (batchHeader publisher .withdrawal 1 loneNode) "armored"
      [loneNode] loneLeaf 0 = .ok (format.toVec loneRecord) := by
  have hc : count 0 = .ok 0 := rfl
  have hw : weight (toJson loneRecord) ≤ 4096 := by decide
  have hs : (format.toVec loneRecord).length ≤ maxRecordBytes :=
    Nat.le_trans (length_toVec_le loneRecord) (Nat.mul_le_mul_left 4 hw)
  unfold exportRecord
  rw [hc, ok_bind, path_singleton]
  exact check_ok.mpr ⟨require_ok.mpr (decide_eq_true hs), rfl⟩

/-- A batch of one withdrawal exports the record of its only leaf. -/
private theorem lone_signs {sha256 : Sha256} {fmt : JsonFormat} {b : Bytes}
    (h : exportRecord sha256 fmt
      (batchHeader publisher .withdrawal 1 (Merkle.leafHash sha256 (fmt.toVec loneLeaf)))
      "armored" [Merkle.leafHash sha256 (fmt.toVec loneLeaf)] loneLeaf 0 = .ok b) :
    signBatch sha256 fmt acceptAll armored oneNonce publisher (.withdrawals [sevens]) =
      .ok [b] := by
  have hi : validateSigning publisher = .ok () := by decide
  have hs : checkSubjects [sevens] = .ok () := by
    simp [checkSubjects, checkDistinct, require, maxBatch]
  have hb : blind oneNonce withdrawnLeaf [sevens] = .ok [loneLeaf] := rfl
  have ho : sortLeaves sha256 fmt [loneLeaf] =
      [(Merkle.leafHash sha256 (fmt.toVec loneLeaf), loneLeaf)] := by
    simp [sortLeaves]
  have hc : count 1 = .ok 1 := rfl
  unfold signBatch
  rw [hi, ok_bind]
  simp only [hs, hb, ok_bind, assemble, ho, map_cons, map_nil,
    root_singleton, length_singleton, hc, acceptAll, armored, zipIdx_cons,
    zipIdx_nil, mapM_cons, mapM_nil, h]
  rfl

end Louiselm.Endorsement
