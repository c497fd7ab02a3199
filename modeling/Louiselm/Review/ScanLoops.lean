import Louiselm.Review.SvgDetection
import Mathlib.Data.List.TakeWhile

/-!
# Offsets into scanned texts

`skills-core/src/scan.rs` as it goes through the bytes of a text: back to a boundary for the end
of the scanned region, through the starts of its lines by halves, and on behind each occurrence of
a needle. A slice that would cut a character is a panic. What is found is what is there.
-/

namespace Louiselm.Review
open Base List Option

/-! ### Slices -/

/-- A text before and behind an offset, where that is between two characters. -/
def splitAt? (n : Nat) : List Char → Option (List Char × List Char)
  | [] => if n = 0 then some ([], []) else none
  | c :: rest =>
    if n = 0 then some ([], c :: rest)
    else if c.utf8Size ≤ n then
      (splitAt? (n - c.utf8Size) rest).map fun cut => (c :: cut.1, cut.2)
    else none

def isCharBoundary (text : List Char) (n : Nat) : Bool := (splitAt? n text).isSome

/-- The end of a region, back from an offset to the boundary before it. -/
def backOff (text : List Char) : Nat → Nat
  | 0 => 0
  | n + 1 =>
    if n + 1 < byteSize text ∧ isCharBoundary text (n + 1) = false then backOff text n else n + 1

/-- The offset of the first occurrence of a needle. -/
def findIn (needle : List Char) : List Char → Option Nat
  | [] => if needle = [] then some 0 else none
  | c :: rest =>
    if needle.isPrefixOf (c :: rest) then some 0
    else (findIn needle rest).map (c.utf8Size + ·)

/-- The offset of the last line feed. -/
def rfindLine (text : List Char) : Option Nat :=
  if '\n' ∈ text then some (byteSize (text.reverse.dropWhile (· != '\n')) - 1) else none

/-! ### Boundaries -/

variable {text region rest : List Char} {n : Nat}

@[simp] theorem byteSize_nil : byteSize [] = 0 := rfl

@[simp] theorem byteSize_cons (c : Char) (ch : List Char) :
    byteSize (c :: ch) = c.utf8Size + byteSize ch := by
  simp [byteSize]

theorem splitAt?_eq_some {a b : List Char} :
    splitAt? n text = some (a, b) ↔ text = a ++ b ∧ byteSize a = n := by
  induction text generalizing n a with
  | nil =>
    rw [splitAt?]
    constructor
    · intro h
      split at h
      · next hn =>
        obtain ⟨rfl, rfl⟩ := Prod.mk.inj (some.inj h)
        exact ⟨rfl, hn.symm⟩
      · simp at h
    · rintro ⟨h, rfl⟩
      obtain ⟨rfl, rfl⟩ := append_eq_nil_iff.mp h.symm
      rfl
  | cons c rest ih =>
    have hp := c.utf8Size_pos
    rw [splitAt?]
    constructor
    · intro h
      split at h
      · next hn =>
        obtain ⟨rfl, rfl⟩ := Prod.mk.inj (some.inj h)
        exact ⟨rfl, hn.symm⟩
      · split at h
        · next hl =>
          obtain ⟨⟨x, y⟩, hs, he⟩ := map_eq_some_iff.mp h
          obtain ⟨rfl, rfl⟩ := Prod.mk.inj he
          obtain ⟨rfl, hx⟩ := ih.mp hs
          exact ⟨rfl, by rw [byteSize_cons, hx]; omega⟩
        · simp at h
    · rintro ⟨h, rfl⟩
      cases a with
      | nil =>
        rw [if_pos byteSize_nil, h]
        rfl
      | cons d a =>
        obtain ⟨rfl, hr⟩ := List.cons.inj h
        rw [byteSize_cons, if_neg (by omega), if_pos (by omega), Nat.add_sub_cancel_left,
          ih.mpr ⟨hr, rfl⟩]
        rfl

theorem splitAt?_append (a b : List Char) : splitAt? (byteSize a) (a ++ b) = some (a, b) :=
  splitAt?_eq_some.mpr ⟨rfl, rfl⟩

theorem isCharBoundary_iff :
    isCharBoundary text n = true ↔ ∃ a b, text = a ++ b ∧ byteSize a = n := by
  simp [isCharBoundary, isSome_iff_exists, splitAt?_eq_some]

/-- The next character does not fit into the limit. -/
theorem within_append (l : Nat) (text : List Char) : ∃ rest,
    text = within l text ++ rest ∧ byteSize (within l text) ≤ l ∧
      ∀ c ∈ rest.head?, l < byteSize (within l text) + c.utf8Size := by
  induction text generalizing l with
  | nil => exact ⟨[], rfl, Nat.zero_le _, by simp⟩
  | cons c text ih =>
    rw [within]
    split
    · obtain ⟨rest, h, he, hl⟩ := ih (l - c.utf8Size)
      refine ⟨rest, congrArg _ h, by rw [byteSize_cons]; omega, fun d hd => ?_⟩
      have := hl d hd
      rw [byteSize_cons]
      omega
    · exact ⟨c :: text, rfl, Nat.zero_le _, by simp; omega⟩

/-- The characters that fit end at the last boundary within the limit. -/
theorem boundary_le_within {l : Nat} (hn : n ≤ l)
    (h : isCharBoundary text n = true) : n ≤ byteSize (within l text) := by
  obtain ⟨rest, ht, -, hl⟩ := within_append l text
  obtain ⟨a, b, ha, rfl⟩ := isCharBoundary_iff.mp h
  generalize within l text = w at *
  by_contra hg
  obtain ⟨x, hx⟩ := prefix_of_byteSize_le ⟨rest, ht.symm⟩ ⟨b, ha.symm⟩ (by omega)
  cases x with
  | nil =>
    rw [append_nil] at hx
    exact hg (by rw [hx])
  | cons c x =>
    rw [ha, ← hx, append_assoc, append_cancel_left_eq] at ht
    have := hl c (by rw [← ht]; rfl)
    rw [← hx, byteSize_append, byteSize_cons] at hn
    omega

theorem backOff_eq {w : Nat} (hn : n ≤ byteSize text) (hw : isCharBoundary text w = true)
    (hwn : w ≤ n) (hm : ∀ k ≤ n, isCharBoundary text k = true → k ≤ w) : backOff text n = w := by
  induction n with
  | zero => exact (Nat.le_zero.mp hwn).symm
  | succ n ih =>
    rw [backOff]
    split
    · next h =>
      have he : w ≠ n + 1 := by
        rintro rfl
        rw [h.2] at hw
        contradiction
      exact ih (by omega) (by omega) fun k hk => hm k (by omega)
    · next h =>
      have hb : isCharBoundary text (n + 1) = true := by
        by_cases hl : n + 1 < byteSize text
        · simpa using not_and.mp h hl
        · exact isCharBoundary_iff.mpr ⟨text, [], by simp, by omega⟩
      exact Nat.le_antisymm (hm _ (Nat.le_refl _) hb) hwn

/-! ### The scan -/

/-- Prepare a text, of which at most `limit` bytes are scanned. -/
def newByBytes (text : String) (limit : Nat) : Option TextScan := do
  let stop := backOff text.toList (min text.utf8ByteSize limit)
  let (region, _) ← splitAt? stop text.toList
  return { text := region
           lowered := region.map Char.toLower
           lineStarts := 0 :: (charIndices 0 region).filterMap fun item =>
             if item.2 = '\n' then some (item.1 + 1) else none
           truncated := decide (stop < text.utf8ByteSize)
           scannedBytes := stop }

theorem utf8ByteSize_eq (text : String) : text.utf8ByteSize = byteSize text.toList := by
  rw [← length_utf8, length_utf8_eq_byteSize]

/-- Going back from the limit, the region is what fits into it. -/
theorem newByBytes_eq (text : String) (l : Nat) :
    newByBytes text l = some (TextScan.new text l) := by
  obtain ⟨rest, ht, hl, -⟩ := within_append l text.toList
  have hi := utf8ByteSize_eq text
  have hl' : byteSize (within l text.toList) ≤ byteSize text.toList := by
    rw [congrArg byteSize ht, byteSize_append]
    omega
  have hst : backOff text.toList (min text.utf8ByteSize l) = byteSize (within l text.toList) :=
    backOff_eq (by omega) (isCharBoundary_iff.mpr ⟨_, rest, ht, rfl⟩) (by omega)
      fun k hk hb => boundary_le_within (by omega) hb
  have hs : splitAt? (byteSize (within l text.toList)) text.toList =
      some (within l text.toList, rest) := splitAt?_eq_some.mpr ⟨ht, rfl⟩
  simp only [newByBytes, hst, hs]
  rfl

/-! ### Lines -/

/-- The last index of a part of a sorted list whose item is not above `x`, or the first one. -/
def bisect (items : List Nat) (x base size : Nat) : Nat :=
  if size ≤ 1 then base
  else
    bisect items x (if x < items.getD (base + size / 2) 0 then base else base + size / 2)
      (size - size / 2)
termination_by size
decreasing_by omega

/-- The index of an item, or the one at which it belongs. -/
def binarySearch (items : List Nat) (x : Nat) : Except Nat Nat :=
  let index := bisect items x 0 items.length
  if items = [] then .error 0
  else if items.getD index 0 = x then .ok index
  else .error (if items.getD index 0 < x then index + 1 else index)

section

/-- The offsets of the lines that start behind a line feed of a text at an offset. -/
def startsIn (start : Nat) (text : List Char) : List Nat :=
  (charIndices start text).filterMap fun item =>
    if item.2 = '\n' then some (item.1 + 1) else none

theorem startsIn_cons (s : Nat) (c : Char) (text : List Char) :
    startsIn s (c :: text) = (if c = '\n' then [s + 1] else []) ++
      startsIn (s + c.utf8Size) text := by
  unfold startsIn
  rw [charIndices, filterMap_cons]
  split <;> simp_all

theorem lt_of_mem_startsIn {s x : Nat} (h : x ∈ startsIn s text) : s < x := by
  induction text generalizing s with
  | nil => simp [startsIn, charIndices] at h
  | cons c text ih =>
    rw [startsIn_cons, mem_append] at h
    rcases h with h | h
    · split at h <;> simp_all
    · have := ih h
      omega

theorem pairwise_startsIn (s : Nat) (text : List Char) :
    (s :: startsIn s text).Pairwise (· < ·) := by
  induction text generalizing s with
  | nil => simp [startsIn, charIndices]
  | cons c text ih =>
    have ho := c.utf8Size_pos
    have hp := pairwise_cons.mp (ih (s + c.utf8Size))
    refine pairwise_cons.mpr ⟨fun x hx => lt_of_mem_startsIn hx, ?_⟩
    rw [startsIn_cons]
    split
    · next hc =>
      subst hc
      exact pairwise_cons.mpr ⟨fun x hx => lt_of_mem_startsIn hx, hp.2⟩
    · exact hp.2

/-- Up to an offset, as many lines start as there are line feeds before it. -/
theorem length_startsIn_le (s : Nat) (a b : List Char) :
    ((startsIn s (a ++ b)).filter (decide <| · ≤ s + byteSize a)).length =
      a.count '\n' := by
  induction a generalizing s with
  | nil =>
    rw [filter_eq_nil_iff.mpr fun x hx => by
      have := lt_of_mem_startsIn hx
      simpa using this]
    rfl
  | cons c a ih =>
    have hp := c.utf8Size_pos
    have ih' := ih (s + c.utf8Size)
    rw [cons_append, startsIn_cons, byteSize_cons, filter_append, length_append,
      ← Nat.add_assoc, ih', count_cons, Nat.add_comm]
    congr 1
    by_cases hc : c = '\n'
    · have hn : '\n'.utf8Size = 1 := rfl
      subst hc
      rw [hn]
      simp
    · simp [hc]

end

section

variable {items : List Nat} {x base size : Nat}

/-- Nothing at an index or before it is above `x`, but the first item may be; all behind it is. -/
structure Bisects (items : List Nat) (x index : Nat) (behind : Nat) : Prop where
  inside : index < items.length
  below : index = 0 ∨ items.getD index 0 ≤ x
  above : ∀ j, behind ≤ j → j < items.length → x < items.getD j 0

theorem getD_le_getD (hs : items.Pairwise (· < ·)) {i j : Nat} (hij : i ≤ j)
    (hj : j < items.length) : items.getD i 0 ≤ items.getD j 0 := by
  have hi : i < items.length := by omega
  rw [← getElem_eq_getD (h := hi) 0, ← getElem_eq_getD (h := hj) 0]
  rcases Nat.lt_or_eq_of_le hij with h | rfl
  · exact Nat.le_of_lt (pairwise_iff_getElem.mp hs i j (by omega) hj h)
  · exact Nat.le_refl _

/-- Each step halves the part that is left and keeps both sides of it. -/
theorem bisect_spec (hs : items.Pairwise (· < ·)) (hl : base + size ≤ items.length)
    (h : Bisects items x base (base + size)) :
    Bisects items x (bisect items x base size) (bisect items x base size + 1) := by
  induction base, size using bisect.induct items x with
  | case1 base size he =>
    rw [bisect, if_pos he]
    exact ⟨h.inside, h.below, fun j hj => h.above j (by omega)⟩
  | case2 base size hg ih =>
    rw [bisect, if_neg hg]
    split at ih <;> rename_i hx
    · rw [if_pos hx]
      refine ih (by omega) ⟨h.inside, h.below, fun j hj ht => ?_⟩
      exact Nat.lt_of_lt_of_le hx (getD_le_getD hs (by omega) ht)
    · rw [if_neg hx]
      exact ih (by omega) ⟨by omega, Or.inr (Nat.not_lt.mp hx), fun j hj => h.above j (by omega)⟩

/-- Where the items up to an index are the ones not above `x`, so many are. -/
theorem length_filter_le {k : Nat} (hk : k ≤ items.length)
    (hb : ∀ j < k, items.getD j 0 ≤ x) (ha : ∀ j, k ≤ j → j < items.length → x < items.getD j 0) :
    (items.filter (decide <| · ≤ x)).length = k := by
  rw [← take_append_drop k items, filter_append]
  have ht : (items.take k).filter (decide <| · ≤ x) = items.take k := by
    refine filter_eq_self.mpr fun y hy => ?_
    obtain ⟨j, hj, rfl⟩ := mem_iff_getElem.mp hy
    rw [length_take] at hj
    have := hb j (by omega)
    rw [← getElem_eq_getD (h := by omega) 0] at this
    simpa using this
  have hd : (items.drop k).filter (decide <| · ≤ x) = [] := by
    refine filter_eq_nil_iff.mpr fun y hy => ?_
    obtain ⟨j, hj, rfl⟩ := mem_iff_getElem.mp hy
    rw [length_drop] at hj
    have := ha (k + j) (by omega) (by omega)
    rw [← getElem_eq_getD (h := by omega) 0] at this
    simpa using this
  rw [ht, hd, append_nil, length_take]
  omega

end

namespace TextScan

/-- The number of the line of an offset, from one on. -/
def lineBySearch (scan : TextScan) (offset : Nat) : Nat :=
  match binarySearch scan.lineStarts offset with
  | .ok index => index + 1
  | .error index => index

variable {scan : TextScan} {o : Nat}

/-- The search finds how many lines start at an offset or before it. -/
theorem lineBySearch_eq (hs : scan.lineStarts.Pairwise (· < ·)) :
    scan.lineBySearch o = scan.lineOf o := by
  unfold lineBySearch binarySearch lineOf
  generalize scan.lineStarts = items at hs
  by_cases hn : items = []
  · subst hn
    rfl
  · have hp := length_pos_iff.mpr hn
    have h := bisect_spec (x := o) hs (Nat.le_of_eq (Nat.zero_add _))
      ⟨hp, Or.inl rfl, fun j hj => by omega⟩
    simp only [if_neg hn]
    generalize bisect items o 0 items.length = i at h
    have hin := h.inside
    have hl : items.getD i 0 ≤ o → (items.filter (decide <| · ≤ o)).length = i + 1 := fun hi =>
      length_filter_le (by omega)
        (fun j hj => Nat.le_trans (getD_le_getD hs (by omega) hin) hi) h.above
    split
    · next hi =>
      split at hi
      · next he =>
        rw [← Except.ok.inj hi, hl (by omega)]
      · simp at hi
    · next hi =>
      split at hi
      · simp at hi
      · rw [← Except.error.inj hi]
        split
        · next hlt => exact (hl (by omega)).symm
        · next ht =>
          have hz : i = 0 := h.below.resolve_right (by omega)
          subst hz
          exact (length_filter_le (by omega) (by omega) fun j _ hj =>
            Nat.lt_of_lt_of_le (by omega) (getD_le_getD hs (Nat.zero_le j) hj)).symm

end TextScan

namespace TextScan

theorem lineOf_new {l : Nat} {text : String} {a b : List Char} (h : (new text l).text = a ++ b) :
    (new text l).lineOf (byteSize a) = 1 + a.count '\n' := by
  have hc := length_startsIn_le 0 a b
  rw [← h, Nat.zero_add] at hc
  unfold lineOf
  rw [show (new text l).lineStarts = 0 :: startsIn 0 (new text l).text from rfl,
    filter_cons_of_pos (by simp), length_cons, hc, Nat.add_comm]

/-- The escaped start of the line of an offset. -/
def snippetBySlices (scan : TextScan) (offset : Nat) : Option String := do
  let (before, behind) ← splitAt? offset scan.text
  let lineStart := ((rfindLine before).map (· + 1)).getD 0
  let lineEnd := ((findIn ['\n'] behind).map (offset + ·)).getD (byteSize scan.text)
  let (upTo, _) ← splitAt? lineEnd scan.text
  let (_, line) ← splitAt? lineStart upTo
  return escape (String.ofList (line.take MAX_EVIDENCE_CHARS))

def locatedBySlices (scan : TextScan) (offset : Nat) (detail : String) : Option Match := do
  let evidence ← scan.snippetBySlices offset
  return ⟨offset, scan.lineBySearch offset, evidence, escape detail⟩

/-- The offsets of a needle, searched on behind each one. -/
def offsetsFrom (lowered needle : List Char) (start : Nat) : Option (List Nat) :=
  match _h : splitAt? start lowered with
  | none => none
  | some (_, rest) =>
    match findIn needle rest with
    | none => some []
    | some found =>
      (offsetsFrom lowered needle (start + found + max (byteSize needle) 1)).map
        ((start + found) :: ·)
termination_by byteSize lowered + 1 - start
decreasing_by
  obtain ⟨hl, rfl⟩ := splitAt?_eq_some.mp _h
  rw [hl, byteSize_append]
  omega

/-- Every occurrence of any needle in the lowercase copy. -/
def findAnyBySlices (scan : TextScan) (needles : List String) : Option (List Match) := do
  let found ← needles.mapM fun needle => do
    let offsets ← offsetsFrom scan.lowered needle.toList 0
    offsets.mapM fun offset => scan.locatedBySlices offset needle
  return sortMatches found.flatten

end TextScan

/-! ### What is found -/

theorem within_byteSize (a b : List Char) : within (byteSize a) (a ++ b) = a := by
  obtain ⟨rest, ht, hl, hlt⟩ := within_append (byteSize a) (a ++ b)
  have hb := boundary_le_within (Nat.le_refl _) (isCharBoundary_iff.mpr ⟨a, b, rfl, rfl⟩)
  have hw : splitAt? (byteSize a) (a ++ b) = some (within (byteSize a) (a ++ b), rest) :=
    splitAt?_eq_some.mpr ⟨ht, by omega⟩
  rw [splitAt?_append] at hw
  exact (Prod.mk.inj (some.inj hw)).1.symm

theorem rfindLine_next (a : List Char) :
    ((rfindLine a).map (· + 1)).getD 0 = byteSize (a.reverse.dropWhile (· != '\n')).reverse := by
  have hr : ∀ x : List Char, byteSize x.reverse = byteSize x := fun x => by
    simp [byteSize, sum_reverse]
  unfold rfindLine
  rw [hr]
  split
  · next h =>
    cases hd : a.reverse.dropWhile (· != '\n') with
    | nil => exact absurd (dropWhile_eq_nil_iff.mp hd _ (mem_reverse.mpr h)) (by simp)
    | cons c x =>
      have := c.utf8Size_pos
      simp only [byteSize_cons, map_some, getD_some]
      omega
  · next h =>
    have hd : a.reverse.dropWhile (· != '\n') = [] :=
      dropWhile_eq_nil_iff.mpr fun c hc => by
        simpa using fun he : c = '\n' => h (mem_reverse.mp (he ▸ hc))
    rw [hd]
    rfl

theorem findIn_line (b : List Char) (n : Nat) :
    ((findIn ['\n'] b).map (n + ·)).getD (n + byteSize b) =
      n + byteSize (b.takeWhile (· != '\n')) := by
  induction b generalizing n with
  | nil => rfl
  | cons c b ih =>
    rw [findIn]
    by_cases hc : c = '\n'
    · subst hc
      rfl
    · have hp : ['\n'].isPrefixOf (c :: b) = false := by
        simpa [List.isPrefixOf] using Ne.symm hc
      have hi := ih (n + c.utf8Size)
      rw [hp, if_neg Bool.false_ne_true, takeWhile_cons_of_pos (by simpa using hc),
        byteSize_cons, byteSize_cons, ← Nat.add_assoc, ← Nat.add_assoc, ← hi, Option.map_map]
      congr 2
      exact funext fun _ => (Nat.add_assoc _ _ _).symm

namespace TextScan

variable {scan : TextScan}

theorem snippetBySlices_eq {a b : List Char} (h : scan.text = a ++ b) :
    scan.snippetBySlices (byteSize a) = some (scan.snippet (byteSize a)) := by
  have hu : a ++ b = (a ++ b.takeWhile (· != '\n')) ++ b.dropWhile (· != '\n') := by
    rw [append_assoc, takeWhile_append_dropWhile]
  have hl : a ++ b.takeWhile (· != '\n') = (a.reverse.dropWhile (· != '\n')).reverse ++
      ((a.reverse.takeWhile (· != '\n')).reverse ++ b.takeWhile (· != '\n')) := by
    rw [← append_assoc, ← reverse_append, takeWhile_append_dropWhile, reverse_reverse]
  have h2 := splitAt?_eq_some.mpr ⟨hu, byteSize_append _ _⟩
  have h3 := splitAt?_eq_some.mpr ⟨hl, rfl⟩
  simp only [snippetBySlices, h, splitAt?_append, bind_eq_bind, bind_some,
    byteSize_append, findIn_line, h2, rfindLine_next, h3, snippet, within_byteSize, drop_left]
  rfl

end TextScan

section

variable {ne lowered : List Char}

theorem occurrences_of_findIn_none (s : Nat) (h : findIn ne rest = none) :
    occurrences ne s rest = [] := by
  induction rest generalizing s with
  | nil => simp [occurrences]
  | cons c rest ih =>
    rw [findIn] at h
    split at h
    · simp at h
    · next hp => rw [occurrences, if_neg hp, ih _ (map_eq_none_iff.mp h)]

/-- What is found is the first occurrence, and the others are behind it. -/
theorem occurrences_of_findIn {f : Nat} (hn : ne ≠ [])
    (h : findIn ne rest = some f) : ∃ x y, rest = x ++ ne ++ y ∧ f = byteSize x ∧
      ∀ s, occurrences ne s rest =
        (s + x.length) :: occurrences ne (s + x.length + ne.length) y := by
  induction rest generalizing f with
  | nil => simp [findIn, hn] at h
  | cons c rest ih =>
    rw [findIn] at h
    split at h
    · next hp =>
      obtain ⟨y, hy⟩ := isPrefixOf_iff_prefix.mp hp
      refine ⟨[], y, by simp [hy], (some.inj h).symm, fun s => ?_⟩
      have hs := length_pos_iff.mpr hn
      have hd : rest.drop (ne.length - 1) = y := by
        have hr : rest.drop (ne.length - 1) = (c :: rest).drop ne.length := by
          obtain ⟨k, hk⟩ := Nat.exists_eq_add_of_lt hs
          rw [hk, Nat.zero_add, drop_succ_cons, Nat.add_sub_cancel]
        rw [hr, ← hy, drop_left]
      rw [occurrences, if_pos hp, hd, Nat.max_eq_left hs]
      rfl
    · next hp =>
      obtain ⟨k, hk, rfl⟩ := map_eq_some_iff.mp h
      obtain ⟨x, y, rfl, rfl, ho⟩ := ih hk
      refine ⟨c :: x, y, rfl, by simp, fun s => ?_⟩
      rw [occurrences, if_neg hp, ho, length_cons, Nat.add_assoc s 1, Nat.add_comm 1]

theorem byteSize_pos (h : ne ≠ []) : 0 < byteSize ne := by
  cases ne with
  | nil => exact absurd rfl h
  | cons c ch =>
    have := c.utf8Size_pos
    rw [byteSize_cons]
    omega

/-- The search goes on at boundaries, and finds the occurrences. -/
theorem offsetsFrom_eq (hn : ne ≠ []) (pre rest : List Char) :
    TextScan.offsetsFrom (pre ++ rest) ne (byteSize pre) =
      some ((occurrences ne pre.length rest).map fun k =>
        byteSize ((pre ++ rest).take k)) := by
  rw [TextScan.offsetsFrom, splitAt?_append]
  simp only
  split
  · next h => rw [occurrences_of_findIn_none _ h, map_nil]
  · next f h =>
    obtain ⟨x, y, hr, rfl, ho⟩ := occurrences_of_findIn hn h
    have hp := byteSize_pos hn
    have hl := length_pos_iff.mpr hn
    have ih := offsetsFrom_eq hn (pre ++ x ++ ne) y
    have hs : pre ++ rest = pre ++ x ++ ne ++ y := by
      rw [hr]
      simp
    rw [ho, Nat.max_eq_left hp, ← byteSize_append, ← byteSize_append, hs, ih, map_cons,
      ← length_append, ← length_append, append_assoc _ ne y, take_left]
    rfl
termination_by rest.length
decreasing_by
  rw [hr, length_append, length_append]
  omega

theorem utf8Size_toLower (c : Char) : c.toLower.utf8Size = c.utf8Size := by
  unfold Char.toLower
  split
  · next hu =>
    have hh : c.val.toNat ≤ 90 := UInt32.le_iff_toNat_le.mp hu.2
    have hs : ('a'.val - 'A'.val).toNat = 32 := by decide
    have h1 : c.utf8Size = 1 := Char.utf8Size_eq_one_iff.mpr (UInt32.le_iff_toNat_le.mpr (by
      rw [show (127 : UInt32).toNat = 127 from rfl]
      omega))
    rw [h1]
    refine Char.utf8Size_eq_one_iff.mpr (UInt32.le_iff_toNat_le.mpr ?_)
    change (c.val + ('a'.val - 'A'.val)).toNat ≤ 127
    rw [UInt32.toNat_add, hs]
    omega
  · rfl

theorem byteSize_map_toLower (text : List Char) :
    byteSize (text.map Char.toLower) = byteSize text := by
  simp [byteSize, Function.comp_def, utf8Size_toLower]

theorem mem_occurrences {s k : Nat} (h : k ∈ occurrences ne s rest) :
    ∃ a b, rest = a ++ ne ++ b ∧ k = s + a.length := by
  induction s, rest using occurrences.induct ne with
  | case1 s => simp [occurrences] at h
  | case2 s c rest hp ih =>
    rw [occurrences, if_pos hp] at h
    rcases mem_cons.mp h with rfl | h
    · obtain ⟨b, hb⟩ := isPrefixOf_iff_prefix.mp hp
      exact ⟨[], b, by simp [hb], rfl⟩
    · obtain ⟨a, b, hr, rfl⟩ := ih h
      have hl := (List.isPrefixOf_iff_prefix.mp hp).length_le
      have hd : (c :: rest).drop (max ne.length 1) = a ++ ne ++ b := by
        rw [← hr, show max ne.length 1 = ne.length - 1 + 1 by omega, drop_succ_cons]
      refine ⟨(c :: rest).take (max ne.length 1) ++ a, b, ?_, ?_⟩
      · rw [append_assoc, append_assoc, ← append_assoc a, ← hd, take_append_drop]
      · rw [length_append, length_take, length_cons] at *
        omega
  | case3 s c rest hp ih =>
    rw [occurrences, if_neg hp] at h
    obtain ⟨a, b, hr, rfl⟩ := ih h
    exact ⟨c :: a, b, by simp [hr], by rw [length_cons]; omega⟩

/-- Fewer characters of one text have fewer bytes. -/
theorem byteSize_lt {a b : List Char} (h : a <+: b) (hl : a.length < b.length) :
    byteSize a < byteSize b := by
  obtain ⟨x, rfl⟩ := h
  rw [length_append] at hl
  have hx : x ≠ [] := length_pos_iff.mp (by omega)
  have := byteSize_pos hx
  rw [byteSize_append]
  omega

end

theorem mapM_eq_some_map {α β : Type} {f : α → Option β} {g : α → β} {xs : List α}
    (h : ∀ x ∈ xs, f x = some (g x)) : xs.mapM f = some (xs.map g) := by
  induction xs with
  | nil => rfl
  | cons x xs ih =>
    rw [mapM_cons, h x mem_cons_self, ih fun y hy => h y (mem_cons_of_mem _ hy)]
    rfl

namespace TextScan

variable {scan : TextScan} {nee : List String}

/-- What a scan of a text is prepared as. -/
structure Prepared (scan : TextScan) : Prop where
  lowered : scan.lowered = scan.text.map Char.toLower
  lineStarts : scan.lineStarts.Pairwise (· < ·)

theorem prepared_new (text : String) (l : Nat) : (new text l).Prepared :=
  ⟨rfl, pairwise_startsIn 0 _⟩

theorem Prepared.locatedBySlices (h : scan.Prepared) (k : Nat) (needle : String) :
    scan.locatedBySlices (byteSize (scan.lowered.take k)) needle =
      some (scan.located (byteSize (scan.text.take k)) needle) := by
  have hs : scan.snippetBySlices (byteSize (scan.text.take k)) = some _ :=
    snippetBySlices_eq (take_append_drop k scan.text).symm
  rw [h.lowered, ← map_take, byteSize_map_toLower, TextScan.locatedBySlices, hs,
    lineBySearch_eq h.lineStarts]
  rfl

/-- Searched for by slices, the needles are found where they are. -/
theorem Prepared.findAnyBySlices (h : scan.Prepared) (hne : "" ∉ nee) :
    scan.findAnyBySlices nee = scan.findAny nee := by
  have hm : ∀ needle ∈ nee, (do
      let offsets ← offsetsFrom scan.lowered needle.toList 0
      offsets.mapM fun offset => scan.locatedBySlices offset needle) =
      some ((occurrences needle.toList 0 scan.lowered).map fun k =>
        scan.located (byteSize (scan.text.take k)) needle) := by
    intro needle hn
    have hi : needle.toList ≠ [] := fun he =>
      hne ((String.toList_inj.mp he : needle = "") ▸ hn)
    have ho := offsetsFrom_eq hi [] scan.lowered
    rw [nil_append] at ho
    rw [byteSize_nil, length_nil] at ho
    rw [ho, bind_eq_bind, bind_some, mapM_map]
    exact mapM_eq_some_map fun k _ => h.locatedBySlices k needle
  rw [TextScan.findAnyBySlices, mapM_eq_some_map hm, findAny, if_neg (by simpa using hne)]
  rfl

/-- A match is where a needle stands, in any ASCII case, on the line of its first character. -/
def Locates (scan : TextScan) (needle : String) (found : Match) : Prop :=
  ∃ before hit behind, scan.text = before ++ hit ++ behind ∧
    hit.map Char.toLower = needle.toList ∧ found.byteOffset = byteSize before ∧
    found.line = 1 + before.count '\n' ∧ found.detail = escape needle

/-- Where a needle is found in the lowercase copy, it stands in the text, in some ASCII case. -/
theorem Prepared.eq_append {needle : String} {k : Nat} (h : scan.Prepared)
    (hk : k ∈ occurrences needle.toList 0 scan.lowered) : ∃ pre hit be,
      scan.text = pre ++ hit ++ be ∧ hit.map Char.toLower = needle.toList ∧
        pre.length = k ∧ scan.text.take k = pre := by
  obtain ⟨a, b, hr, rfl⟩ := mem_occurrences hk
  rw [h.lowered] at hr
  obtain ⟨ah, be, ht, ha, -⟩ := map_eq_append_iff.mp hr
  obtain ⟨pre, hit, rfl, rfl, hh⟩ := map_eq_append_iff.mp ha
  rw [Nat.zero_add, length_map]
  exact ⟨pre, hit, be, ht, hh, rfl, by rw [ht, append_assoc, take_left]⟩

/-- The region is the longest part of the text within the limit that ends between characters. -/
def Longest (scan : TextScan) (text : String) (limit : Nat) : Prop :=
  splitAt? scan.scannedBytes text.toList = some (scan.text, text.toList.drop scan.text.length) ∧
    scan.scannedBytes ≤ limit ∧
    ∀ n ≤ limit, isCharBoundary text.toList n = true → n ≤ scan.scannedBytes

theorem longest_new (text : String) (l : Nat) : (new text l).Longest text l := by
  obtain ⟨rest, ht, hl, -⟩ := within_append l text.toList
  refine ⟨splitAt?_eq_some.mpr ⟨?_, rfl⟩, hl, fun n hn hb => boundary_le_within hn hb⟩
  change text.toList = within l text.toList ++ text.toList.drop (within l text.toList).length
  generalize within l text.toList = w at ht
  rw [ht, drop_left]

/-- Without an empty needle no slice cuts a character; what is found is in the order of its
offsets, stands where it is found, and leaves out only what overlaps an earlier match. -/
theorem findAny_exact (text : String) (limit : Nat) {nee : List String} (hne : "" ∉ nee) :
    ∃ scan found, newByBytes text limit = some scan ∧ scan.Longest text limit ∧
      scan.findAnyBySlices nee = some found ∧ found.Pairwise (·.byteOffset ≤ ·.byteOffset) ∧
      (∀ m ∈ found, ∃ needle ∈ nee, scan.Locates needle m) ∧
      ∀ needle ∈ nee, ∀ before hit behind, scan.text = before ++ hit ++ behind →
        hit.map Char.toLower = needle.toList → ∃ m ∈ found, scan.Locates needle m ∧
          m.byteOffset ≤ byteSize before ∧
          byteSize before < m.byteOffset + byteSize needle.toList := by
  obtain ⟨found, hf⟩ : ∃ found, (new text limit).findAny nee = some found :=
    findAny_isSome_iff.mpr hne
  refine ⟨new text limit, found, newByBytes_eq text limit, longest_new text limit,
    ((prepared_new text limit).findAnyBySlices hne).trans hf, ?_⟩
  rw [findAny, if_neg (by simpa using hne), some.injEq] at hf
  subst hf
  have hp := prepared_new text limit
  have ho : ∀ {needle k}, k ∈ occurrences needle.toList 0 (new text limit).lowered →
      (new text limit).Locates needle
        ((new text limit).located (byteSize ((new text limit).text.take k)) needle) := by
    intro needle k hk
    obtain ⟨before, hit, behind, ht, hh, -, ha⟩ := hp.eq_append hk
    rw [ha]
    exact ⟨before, hit, behind, ht, hh, rfl, lineOf_new (ht.trans (append_assoc _ _ _)), rfl⟩
  refine ⟨pairwise_insertionSort _ _, fun m hm => ?_, fun needle hn before hit behind ht hh => ?_⟩
  · rw [sortMatches, mem_insertionSort, mem_flatMap] at hm
    obtain ⟨needle, hn, hm⟩ := hm
    obtain ⟨k, hk, rfl⟩ := mem_map.mp hm
    exact ⟨needle, hn, ho hk⟩
  · have hi : needle.toList ≠ [] := fun he =>
      hne ((String.toList_inj.mp he : needle = "") ▸ hn)
    have hl : (new text limit).lowered = before.map Char.toLower ++ needle.toList ++
        behind.map Char.toLower := by
      rw [hp.lowered, ht, map_append, map_append, hh]
    obtain ⟨k, hk, hle, hlt⟩ := exists_mem_occurrences 0 hi hl
    rw [length_map, Nat.zero_add] at hle hlt
    refine ⟨_, ?_, ho hk, ?_⟩
    · rw [sortMatches, mem_insertionSort, mem_flatMap]
      exact ⟨needle, hn, mem_map_of_mem hk⟩
    · obtain ⟨x, y, z, hx, hy, rfl, ha⟩ := hp.eq_append hk
      change byteSize ((new text limit).text.take x.length) ≤ byteSize before ∧
        byteSize before < byteSize ((new text limit).text.take x.length) + _
      rw [ha, ← hy, byteSize_map_toLower, ← byteSize_append]
      rw [← hy, length_map, ← length_append] at hlt
      have hb : before <+: (new text limit).text := ⟨hit ++ behind, by rw [ht, append_assoc]⟩
      have hxy : x ++ y <+: (new text limit).text := ⟨z, hx.symm⟩
      obtain ⟨w, hw⟩ := prefix_of_prefix_length_le ((prefix_append x y).trans hxy) hb hle
      refine ⟨?_, byteSize_lt (prefix_of_prefix_length_le hb hxy (Nat.le_of_lt hlt)) hlt⟩
      rw [← hw, byteSize_append]
      omega

/-- The limit is inside a character here, and one needle is found behind it in both cases. -/
theorem findAny_exact_sample : ∃ scan f, newByBytes "a\nIMportimé" 11 = some scan ∧
    scan.findAnyBySlices ["im", "port"] = some f ∧ f.Pairwise (·.byteOffset ≤ ·.byteOffset) :=
  have ⟨scan, f, hs, _, hf, hp, _⟩ := findAny_exact "a\nIMportimé" 11 (by decide)
  ⟨scan, f, hs, hf, hp⟩

end TextScan

end Louiselm.Review
