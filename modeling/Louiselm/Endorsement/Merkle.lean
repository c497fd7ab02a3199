import Louiselm.Base.AuditPath
import Louiselm.Canonical.Digest

/-!
# The Merkle tree behind one Endorsement batch signature

`skills-core/src/endorsement/merkle.rs`. The prover recurses on an unbalanced split
and the verifier walks two counters; both are related here through the turns of
`Base.AuditPath`. SHA-256 is a parameter of the whole module.
-/

namespace Louiselm.Endorsement.Merkle
open Base Canonical List AuditPath Option

/-- One SHA-256 tree node. -/
abbrev Node := RawHash

/-- Prefix of every hashed leaf, RFC 9162 §2.1. -/
def leafPrefix : UInt8 := 0x00

/-- Prefix of every hashed interior node, RFC 9162 §2.1. -/
def nodePrefix : UInt8 := 0x01

variable (sha256 : Sha256)

/-- Hash exact leaf bytes. -/
def leafHash (bytes : Bytes) : Node := sha256 (leafPrefix :: bytes)

/-- Hash one interior node. -/
def nodeHash (left right : Node) : Node :=
  sha256 (nodePrefix :: (left.toList ++ right.toList))

/-- The doubling loop of `split`, entered with a positive `half`. -/
def splitFrom (count half : Nat) (h : 0 < half) : Nat :=
  if half * 2 < count then splitFrom count (half * 2) (Nat.mul_pos h Nat.two_pos) else half
termination_by count - half

/-- Largest power of two strictly below `count`, for `count >= 2`. -/
def split (count : Nat) : Nat := splitFrom count 1 (by decide)

private theorem splitFrom_spec (c half : Nat) (h : 0 < half) (m : Nat) (hp : half = 2 ^ m)
    (hl : half < c) : ∃ e, splitFrom c half h = 2 ^ e ∧ 2 ^ e < c ∧ c ≤ 2 ^ e * 2 := by
  fun_induction splitFrom c half h generalizing m with
  | case1 half h hs ih => exact ih (m + 1) (by rw [Nat.pow_succ, hp]) hs
  | case2 half h hs => exact ⟨m, hp, hp ▸ hl, by omega⟩

/-- The split of more than one leaf is the largest power of two below their number. -/
theorem split_spec (c : Nat) (h : 2 ≤ c) : ∃ e, split c = 2 ^ e ∧ 2 ^ e < c ∧ c ≤ 2 ^ e * 2 :=
  splitFrom_spec c 1 (by decide) 0 rfl (by omega)

/-- Both sides of a split hold a leaf. -/
theorem split_pos_lt (c : Nat) (h : 2 ≤ c) : 0 < split c ∧ split c < c := by
  obtain ⟨e, he, hl, _⟩ := split_spec c h
  exact ⟨he ▸ Nat.two_pow_pos e, he ▸ hl⟩

/-- Tree head over `leaves`, absent for an empty tree. -/
def root (leaves : List Node) : Option Node :=
  match leaves with
  | [] => none
  | [only] => some only
  | a :: b :: rest =>
    let half := split (a :: b :: rest).length
    match root ((a :: b :: rest).take half), root ((a :: b :: rest).drop half) with
    | some left, some right => some (nodeHash sha256 left right)
    | _, _ => none
termination_by leaves.length
decreasing_by
  all_goals
    have hs := split_pos_lt (a :: b :: rest).length (by simp)
    simp only [length_take, length_drop, length_cons] at hs ⊢
    omega

/-- The recursion of `path`: siblings of the leaf at `index`, nearest first. -/
def collectPath (leaves : List Node) (index : Nat) : List Node :=
  if _h : leaves.length < 2 then []
  else
    let half := split leaves.length
    let left := leaves.take half
    let right := leaves.drop half
    if index < left.length then collectPath left index ++ (root sha256 right).toList
    else collectPath right (index - left.length) ++ (root sha256 left).toList
termination_by leaves.length
decreasing_by
  all_goals
    have hs := split_pos_lt leaves.length (by omega)
    grind

/-- Audit path for the leaf at `index`, nearest sibling first. -/
def path (leaves : List Node) (index : Nat) : List Node := collectPath sha256 leaves index

/-- The inner loop of `verify`: leave the levels on which the node has no right sibling. -/
def climbEdge (nodeIndex last : Nat) : Nat × Nat :=
  if nodeIndex % 2 = 0 ∧ nodeIndex ≠ 0 then climbEdge (nodeIndex / 2) (last / 2)
  else (nodeIndex, last)
termination_by nodeIndex
decreasing_by omega

/-- The loop of `verify` over the siblings, with its counters and computed node.
`none` is the early refusal of a path that is longer than the tree is high. -/
def verifyLoop : List Node → Nat → Nat → Node → Option (Nat × Node)
  | [], _, last, computed => some (last, computed)
  | sibling :: path, nodeIndex, last, computed =>
    if last = 0 then none
    else if nodeIndex % 2 = 1 ∨ nodeIndex = last then
      let edge := climbEdge nodeIndex last
      verifyLoop path (edge.1 / 2) (edge.2 / 2) (nodeHash sha256 sibling computed)
    else verifyLoop path (nodeIndex / 2) (last / 2) (nodeHash sha256 computed sibling)

/-- Verify an RFC 9162 §2.1.3.2 inclusion proof. -/
def verify (leaf : Node) (index size : Nat) (path : List Node) (expected : Node) : Bool :=
  if index ≥ size then false
  else
    match verifyLoop sha256 path index (size - 1) leaf with
    | none => false
    | some (last, computed) => last == 0 && computed == expected

/-- Render a node as `sha256:<64 lowercase hex>`. -/
def encode (node : Node) : String := "sha256:" ++ String.ofList (Hex.encode node.toList)

/-- Parse exactly `sha256:<64 lowercase hex>`. -/
def decode (text : String) : Option Node :=
  ((stripPrefix "sha256:".toList text.toList).bind Hex.decode).bind fun bytes =>
    if h : bytes.toArray.size = 32 then some ⟨bytes.toArray, h⟩ else none

/-- Every node is read back from its text. -/
@[simp] theorem decode_encode (n : Node) : decode (encode n) = some n := by
  have hs : n.toList.toArray.size = 32 := by simp
  rw [decode, encode, String.toList_append, stripPrefix_append, bind_some,
    String.toList_ofList, Hex.decode_encode, bind_some, dif_pos hs]
  exact congrArg some (Vector.toArray_inj.mp Array.toArray_toList)

/-! ### The two algorithms take the same turns -/

/-- An odd node is left where it is. -/
theorem climbEdge_odd {ni l : Nat} (h : ni % 2 = 1) : climbEdge ni l = (ni, l) := by
  rw [climbEdge, if_neg (by omega)]

/-- On the right edge the counters stay equal and the first turn is to the left sibling. -/
theorem climbEdge_diagonal (l : Nat) (h : l ≠ 0) : ∃ top, climbEdge l l = (top, top) ∧
      climb l l = .siblingLeft :: climb (top / 2) (top / 2) := by
  induction l using Nat.strongRecOn with
  | ind l ih =>
    rcases Nat.mod_two_eq_zero_or_one l with he | ho
    · obtain ⟨top, ht, hc⟩ := ih (l / 2) (by omega) (by omega)
      refine ⟨top, ?_, ?_⟩
      · rw [climbEdge, if_pos ⟨he, h⟩, ht]
      · rw [climb_edge he, hc]
    · exact ⟨l, climbEdge_odd ho, climb_odd h ho⟩

/-- The loop accepts a path exactly when it has one sibling for each turn of the walk. -/
theorem verifyLoop_eq (s : List Node) (i l : Nat) (c : Node) (hi : i ≤ l) (expected : Node) :
    (∃ n, verifyLoop sha256 s i l c = some (0, n) ∧ n = expected) ↔
      s.length = (climb i l).length ∧ ascend (nodeHash sha256) (climb i l) s c =
          expected := by
  induction s generalizing i l c with
  | nil =>
    by_cases hl : l = 0
    · subst l
      simp [verifyLoop, ascend]
    · have hn := climb_ne_nil i l hl hi
      have hlen : 0 ≠ (climb i l).length := fun h =>
        hn (length_eq_zero_iff.mp h.symm)
      simp [verifyLoop, hl, hlen]
  | cons si s ih =>
    by_cases hl : l = 0
    · subst l
      simp [verifyLoop]
    · rw [verifyLoop, if_neg hl]
      by_cases hd : i % 2 = 0 ∧ i = l
      · obtain ⟨he, hd⟩ := hd
        subst i
        obtain ⟨top, ht, hc⟩ := climbEdge_diagonal l hl
        rw [if_pos (Or.inr rfl), ht, hc]
        simpa [ascend, pair] using ih (top / 2) (top / 2) (nodeHash sha256 si c) (Nat.le_refl _)
      · rcases Nat.mod_two_eq_zero_or_one i with he | ho
        · have hn : i ≠ l := fun hx => hd ⟨he, hx⟩
          rw [if_neg (by omega), climb_even hl he hn]
          simpa [ascend, pair] using ih (i / 2) (l / 2) (nodeHash sha256 c si) (by omega)
        · rw [if_pos (Or.inl ho), climbEdge_odd ho, climb_odd hl ho]
          simpa [ascend, pair] using ih (i / 2) (l / 2) (nodeHash sha256 si c) (by omega)

/-- Verification recombines the siblings along the turns that the counters determine. -/
theorem verify_iff (l : Node) (i si : Nat) (s : List Node) (expected : Node) :
    verify sha256 l i si s expected = true ↔ i < si ∧ s.length = (climb i (si - 1)).length ∧
        ascend (nodeHash sha256) (climb i (si - 1)) s l =
          expected := by
  unfold verify
  split
  · next hg =>
    simp only [Bool.false_eq_true, false_iff, not_and]
    intro ht
    omega
  · next hg =>
    have ht : i < si := by omega
    rw [← verifyLoop_eq sha256 s i (si - 1) l (by omega) expected]
    cases hl : verifyLoop sha256 s i (si - 1) l with
    | none => simp
    | some p =>
      obtain ⟨la, c⟩ := p
      simp [ht]

/-- Left of the split the walk is that of the left half and one turn more. -/
theorem climb_split_left (c i : Nat) (h : 2 ≤ c) (hi : i < split c) : climb i (c - 1) =
      climb i (split c - 1) ++ [.siblingRight] := by
  obtain ⟨e, he, hl, hle⟩ := split_spec c h
  rw [he] at hi ⊢
  exact climb_left e i (c - 1) hi (by omega) (by rw [Nat.pow_succ]; omega)

/-- Right of the split the walk is that of the right half and one turn more. -/
theorem climb_split_right (c i : Nat) (h : 2 ≤ c) (hi : split c ≤ i) (hc : i < c) :
    climb i (c - 1) = climb (i - split c) (c - split c - 1) ++ [.siblingLeft] := by
  obtain ⟨e, he, hl, hle⟩ := split_spec c h
  rw [he] at hi ⊢
  have hr := climb_right e (i - 2 ^ e) (c - 2 ^ e - 1) (by omega) (by omega)
  rw [← hr]
  congr 1 <;> omega

/-- The left slice of `split_at`. -/
def leftHalf (leaves : List Node) : List Node := leaves.take (split leaves.length)

/-- The right slice of `split_at`. -/
def rightHalf (leaves : List Node) : List Node := leaves.drop (split leaves.length)

/-- The left half is as long as the split says. -/
theorem length_leftHalf (leaves : List Node) (h : 2 ≤ leaves.length) :
    (leftHalf leaves).length = split leaves.length := by
  have hs := split_pos_lt leaves.length h
  rw [leftHalf, length_take]
  omega

/-- The right half holds the other leaves. -/
theorem length_rightHalf (leaves : List Node) :
    (rightHalf leaves).length = leaves.length - split leaves.length := length_drop

/-- Leaves left of the split are those of the left half. -/
theorem getElem_leftHalf (leaves : List Node) (i : Nat) (hi : i < split leaves.length) :
    (leftHalf leaves)[i]? = leaves[i]? := List.getElem?_take_of_lt hi

/-- Leaves right of the split are those of the right half. -/
theorem getElem_rightHalf (leaves : List Node) (i : Nat) (hi : split leaves.length ≤ i) :
    (rightHalf leaves)[i - split leaves.length]? = leaves[i]? := by
  rw [rightHalf, List.getElem?_drop]
  congr 1
  omega

/-- Neither half is empty. -/
theorem halves_ne_nil (leaves : List Node) (h : 2 ≤ leaves.length) :
    leftHalf leaves ≠ [] ∧ rightHalf leaves ≠ [] := by
  have hs := split_pos_lt leaves.length h
  have hl := length_leftHalf leaves h
  have hr := length_rightHalf leaves
  exact ⟨ne_nil_of_length_pos (by omega), ne_nil_of_length_pos (by omega)⟩

/-- Induction along the recursion of `root`: no leaf, one leaf, or two halves. -/
theorem leaves_induction {motive : List Node → Prop} (nil : motive []) (one : ∀ l, motive [l])
    (ha : ∀ leaves, 2 ≤ leaves.length → motive (leftHalf leaves) →
      motive (rightHalf leaves) → motive leaves) (leaves : List Node) : motive leaves := by
  induction hn : leaves.length using Nat.strongRecOn generalizing leaves with
  | ind n ih =>
    match leaves with
    | [] => exact nil
    | [l] => exact one l
    | a :: b :: rest =>
      have h2 : 2 ≤ (a :: b :: rest).length := by simp
      have hs := split_pos_lt (a :: b :: rest).length h2
      have hl := length_leftHalf (a :: b :: rest) h2
      have hr := length_rightHalf (a :: b :: rest)
      exact ha _ h2 (ih _ (by omega) _ rfl) (ih _ (by omega) _ rfl)

/-- A single leaf is its own head. -/
@[simp] theorem root_singleton (l : Node) : root sha256 [l] = some l := by
  rw [root]

/-- A larger tree hashes the heads of its halves. -/
theorem root_halves (leaves : List Node) (h : 2 ≤ leaves.length) : root sha256 leaves =
      match root sha256 (leftHalf leaves), root sha256 (rightHalf leaves) with
      | some left, some right => some (nodeHash sha256 left right)
      | _, _ => none := by
  match leaves, h with
  | a :: b :: rest, _ =>
    rw [root]
    rfl

/-- Every non-empty tree has a head. -/
theorem root_isSome (leaves : List Node) (hn : leaves ≠ []) :
    ∃ head, root sha256 leaves = some head := by
  induction leaves using leaves_induction with
  | nil => exact absurd rfl hn
  | one l => exact ⟨l, root_singleton sha256 l⟩
  | ha leaves h ihl ihr =>
    obtain ⟨hnl, hnr⟩ := halves_ne_nil leaves h
    obtain ⟨left, hl⟩ := ihl hnl
    obtain ⟨r, hr⟩ := ihr hnr
    exact ⟨nodeHash sha256 left r, by rw [root_halves sha256 leaves h, hl, hr]⟩

variable {leaves : List Node}

/-- A head of more than one leaf is the hash of both half heads. -/
theorem root_halves_some {head : Node} (h : 2 ≤ leaves.length)
    (hr : root sha256 leaves = some head) : ∃ l r, root sha256 (leftHalf leaves) = some l ∧
      root sha256 (rightHalf leaves) = some r ∧ head = nodeHash sha256 l r := by
  rw [root_halves sha256 leaves h] at hr
  split at hr
  · next l r hl hi => exact ⟨l, r, hl, hi, (some.inj hr).symm⟩
  · simp at hr

/-- A leaf alone has the empty path. -/
@[simp] theorem path_singleton (l : Node) (i : Nat) : path sha256 [l] i = [] := by
  rw [path, collectPath, dif_pos (by simp)]

/-- Left of the split the path ends with the head of the right half. -/
theorem path_leftHalf (leaves : List Node) (i : Nat) (h : 2 ≤ leaves.length)
    (hi : i < split leaves.length) : path sha256 leaves i =
      path sha256 (leftHalf leaves) i ++ (root sha256 (rightHalf leaves)).toList := by
  have hl := length_leftHalf leaves h
  unfold leftHalf at hl
  rw [path, collectPath, dif_neg (by omega)]
  simp only [hl, hi, if_true]
  rfl

/-- Right of the split the path ends with the head of the left half. -/
theorem path_rightHalf (leaves : List Node) (i : Nat) (h : 2 ≤ leaves.length)
    (hi : split leaves.length ≤ i) : path sha256 leaves i = path sha256 (rightHalf leaves)
      (i - split leaves.length) ++ (root sha256 (leftHalf leaves)).toList := by
  have hl := length_leftHalf leaves h
  unfold leftHalf at hl
  rw [path, collectPath, dif_neg (by omega)]
  simp only [hl, if_neg (Nat.not_lt.mpr hi)]
  rfl

/-! ### Completeness -/

/-- The prover's path has one sibling for each turn and leads to the tree head. -/
theorem ascend_path (leaves : List Node) (i : Nat) (leaf head : Node) (hl : leaves[i]? = some leaf)
    (hh : root sha256 leaves = some head) :
    (path sha256 leaves i).length = (climb i (leaves.length - 1)).length ∧ ascend (nodeHash sha256)
      (climb i (leaves.length - 1)) (path sha256 leaves i) leaf = head := by
  induction leaves using leaves_induction generalizing i leaf head with
  | nil => simp at hl
  | one only =>
    have hz : i = 0 := by
      have := (List.getElem?_eq_some_iff.mp hl).1
      simpa using this
    subst hz
    simp only [List.getElem?_cons_zero, root_singleton] at hl hh
    simp [ascend, ← some.inj hl, some.inj hh]
  | ha leaves h ihl ihr =>
    obtain ⟨left, r, he, hr, rfl⟩ := root_halves_some sha256 h hh
    have ht := (List.getElem?_eq_some_iff.mp hl).1
    by_cases hi : i < split leaves.length
    · rw [path_leftHalf sha256 leaves i h hi, climb_split_left _ _ h hi, hr]
      have hih := ihl i leaf left (by rw [getElem_leftHalf leaves i hi, hl]) he
      rw [length_leftHalf leaves h] at hih
      refine ⟨by simp [hih.1], ?_⟩
      rw [toList_some, ascend_concat _ _ _ _ _ _ hih.1, hih.2]
      rfl
    · have hg : split leaves.length ≤ i := Nat.not_lt.mp hi
      rw [path_rightHalf sha256 leaves i h hg, climb_split_right _ _ h hg ht, he]
      have hih := ihr (i - split leaves.length) leaf r
        (by rw [getElem_rightHalf leaves i hg, hl]) hr
      rw [length_rightHalf] at hih
      refine ⟨by simp [hih.1], ?_⟩
      rw [toList_some, ascend_concat _ _ _ _ _ _ hih.1, hih.2]
      rfl

/-- The proof of any leaf verifies against the head of its tree. -/
theorem verify_of_path {i : Nat} {l head : Node} (hl : leaves[i]? = some l)
    (hh : root sha256 leaves = some head) :
    verify sha256 l i leaves.length (path sha256 leaves i) head = true := by
  have ht := (List.getElem?_eq_some_iff.mp hl).1
  exact (verify_iff sha256 l i leaves.length _ head).mpr
    ⟨ht, ascend_path sha256 leaves i l head hl hh⟩

/-- Inclusion proofs are complete: every position of every non-empty tree verifies. -/
theorem verify_complete (leaves : List Node) (index : Fin leaves.length) :
    ∃ head, root sha256 leaves = some head ∧
      verify sha256 (leaves.get index) index leaves.length (path sha256 leaves index) head =
        true := by
  have hl := index.isLt
  obtain ⟨head, hh⟩ :=
    root_isSome sha256 leaves (ne_nil_of_length_pos (by omega))
  exact ⟨head, hh, verify_of_path sha256 (List.getElem?_eq_getElem hl) hh⟩

/-! ### Soundness -/

/-- Every pair that `root` hashes. -/
def rootPairs (leaves : List Node) : List (Node × Node) :=
  if _h : leaves.length < 2 then []
  else
    rootPairs (leftHalf leaves) ++ rootPairs (rightHalf leaves) ++
      match root sha256 (leftHalf leaves), root sha256 (rightHalf leaves) with
      | some left, some right => [(left, right)]
      | _, _ => []
termination_by leaves.length
decreasing_by
  all_goals
    have hs := split_pos_lt leaves.length (by omega)
    have hl := length_leftHalf leaves (by omega)
    have hr := length_rightHalf leaves
    omega

/-- Every pair that the loop of `verify` hashes, in its order. -/
def verifyPairs : List Node → Nat → Nat → Node → List (Node × Node)
  | [], _, _, _ => []
  | sibling :: path, nodeIndex, last, computed =>
    if last = 0 then []
    else if nodeIndex % 2 = 1 ∨ nodeIndex = last then
      let edge := climbEdge nodeIndex last
      (sibling, computed) ::
        verifyPairs path (edge.1 / 2) (edge.2 / 2) (nodeHash sha256 sibling computed)
    else
      (computed, sibling) ::
        verifyPairs path (nodeIndex / 2) (last / 2) (nodeHash sha256 computed sibling)

/-- The loop hashes exactly the pairs of its turns. -/
theorem verifyPairs_eq (s : List Node) (i l : Nat) (c : Node) (hi : i ≤ l) :
    verifyPairs sha256 s i l c = ascendPairs (nodeHash sha256) (climb i l) s c := by
  induction s generalizing i l c with
  | nil => cases climb i l <;> rfl
  | cons si s ih =>
    by_cases hl : l = 0
    · subst l
      simp [verifyPairs, ascendPairs]
    · rw [verifyPairs, if_neg hl]
      by_cases hd : i % 2 = 0 ∧ i = l
      · obtain ⟨he, hd⟩ := hd
        subst i
        obtain ⟨top, ht, hc⟩ := climbEdge_diagonal l hl
        rw [if_pos (Or.inr rfl), ht, hc]
        simp [ascendPairs, pair, ih]
      · rcases Nat.mod_two_eq_zero_or_one i with he | ho
        · have hn : i ≠ l := fun hx => hd ⟨he, hx⟩
          rw [if_neg (by omega), climb_even hl he hn, ih _ _ _ (by omega)]
          rfl
        · rw [if_pos (Or.inl ho), climbEdge_odd ho, climb_odd hl ho]
          simp only
          rw [ih _ _ _ (by omega)]
          rfl

/-- The pairs of a larger tree are those of its halves and the one of its head. -/
theorem rootPairs_halves {l r : Node} (h : 2 ≤ leaves.length)
    (hl : root sha256 (leftHalf leaves) = some l)
    (hr : root sha256 (rightHalf leaves) = some r) : rootPairs sha256 leaves =
      rootPairs sha256 (leftHalf leaves) ++ rootPairs sha256 (rightHalf leaves) ++ [(l, r)] := by
  rw [rootPairs, dif_neg (by omega), hl, hr]

/-- A path of the right length that leads to the head is the prover's path of that very leaf,
unless the walk and the tree hash two different pairs to one node. -/
theorem ascend_sound (leaves : List Node) (i : Nat) (leaf head : Node) (s : List Node)
    (hlt : i < leaves.length) (he : s.length = (climb i (leaves.length - 1)).length)
    (hh : root sha256 leaves = some head)
    (hasc : ascend (nodeHash sha256) (climb i (leaves.length - 1))
      s leaf = head) : (leaves[i]? = some leaf ∧ s = path sha256 leaves i) ∨
      Collision (nodeHash sha256) (rootPairs sha256 leaves) (ascendPairs (nodeHash sha256)
          (climb i (leaves.length - 1)) s leaf) := by
  induction leaves using leaves_induction generalizing i leaf head s with
  | nil => simp at hlt
  | one only =>
    have hz : i = 0 := by simpa using hlt
    subst hz
    have hs : s = [] := length_eq_zero_iff.mp (by simpa using he)
    subst hs
    simp only [root_singleton, some.injEq] at hh
    subst hh
    left
    simpa [ascend, eq_comm] using hasc
  | ha leaves h ihl ihr =>
    obtain ⟨left, r, hl, hr, rfl⟩ := root_halves_some sha256 h hh
    rw [rootPairs_halves sha256 h hl hr]
    have hll := length_leftHalf leaves h
    have hlr := length_rightHalf leaves
    by_cases hi : i < split leaves.length
    · rw [climb_split_left _ _ h hi, ← hll] at he hasc ⊢
      rcases ascend_concat_inv _ _ _ _ _ left r (by simpa using he) hasc with
        ⟨b, top, rfl, hb, hp, hu⟩ | hc
      · obtain ⟨hn, ht⟩ := Prod.mk.inj hp
        rcases ihl i leaf left b (by omega) hb hl hn with ⟨hm, hpa⟩ | hc
        · left
          refine ⟨by rw [← getElem_leftHalf leaves i hi, hm], ?_⟩
          rw [path_leftHalf sha256 leaves i h hi, hr, ← hpa, ht]
          rfl
        · exact Or.inr (hc.mono (by simp) hu)
      · exact Or.inr (hc.mono (by simp) (List.Subset.refl _))
    · have hg : split leaves.length ≤ i := Nat.not_lt.mp hi
      rw [climb_split_right _ _ h hg hlt, ← hlr] at he hasc ⊢
      rcases ascend_concat_inv _ _ _ _ _ left r (by simpa using he) hasc with
        ⟨b, top, rfl, hb, hp, hu⟩ | hc
      · obtain ⟨ht, hn⟩ := Prod.mk.inj hp
        rcases ihr (i - split leaves.length) leaf r b (by omega) hb hr hn with ⟨hm, hpa⟩ | hc
        · left
          refine ⟨by rw [← getElem_rightHalf leaves i hg, hm], ?_⟩
          rw [path_rightHalf sha256 leaves i h hg, hl, ← hpa, ht]
          rfl
        · exact Or.inr (hc.mono (by simp) hu)
      · exact Or.inr (hc.mono (by simp) (List.Subset.refl _))

/-- Inclusion proofs are sound for a fixed size: whatever verifies against the head of `leaves`
is the leaf at that index with the prover's own path, or both computations hashed two different
pairs to one node. -/
theorem verify_sound (leaves : List Node) (leaf head : Node) (index : Nat) (siblings : List Node)
    (hhead : root sha256 leaves = some head)
    (hv : verify sha256 leaf index leaves.length siblings head = true) :
    (index < leaves.length ∧ leaves[index]? = some leaf ∧ siblings = path sha256 leaves index) ∨
      Collision (nodeHash sha256) (rootPairs sha256 leaves)
        (verifyPairs sha256 siblings index (leaves.length - 1) leaf) := by
  obtain ⟨ht, he, ha⟩ := (verify_iff sha256 leaf index leaves.length siblings head).mp hv
  rw [verifyPairs_eq sha256 siblings index (leaves.length - 1) leaf (by omega)]
  rcases ascend_sound sha256 leaves index leaf head siblings ht he hhead ha with
    ⟨hl, hp⟩ | hc
  · exact Or.inl ⟨ht, hl, hp⟩
  · exact Or.inr hc

private def sumHash : Sha256 := fun bytes => Vector.replicate 32 (bytes.foldl (· + ·) 0)

private def sumLeaves : List Node := [[1], [2], [3]].map (leafHash sumHash)

theorem verify_sound_three : ∃ head, root sumHash sumLeaves = some head ∧
      ((2 < sumLeaves.length ∧ sumLeaves[2]? = some (leafHash sumHash [3]) ∧
          path sumHash sumLeaves 2 = path sumHash sumLeaves 2) ∨
        Collision (nodeHash sumHash) (rootPairs sumHash sumLeaves)
          (verifyPairs sumHash (path sumHash sumLeaves 2) 2 (sumLeaves.length - 1)
            (leafHash sumHash [3]))) := by
  obtain ⟨head, hh⟩ := root_isSome sumHash sumLeaves (by simp [sumLeaves])
  exact ⟨head, hh, verify_sound sumHash sumLeaves (leafHash sumHash [3]) head 2
    (path sumHash sumLeaves 2) hh (verify_of_path sumHash rfl hh)⟩

end Louiselm.Endorsement.Merkle
