import Louiselm.Review.Inspection

/-!
# Detected SVG markup

`skills-core/src/scan.rs` decodes the window that it looks for the start of an SVG in, so the
window has to end between two characters. Where it does, the markers of scripted markup are
reported wherever they stand in the scanned region.
-/

namespace Louiselm.Review
open Base List Option TextScan

/-! ### Sizes -/

theorem byteSize_append (x s : List Char) : byteSize (x ++ s) = byteSize x + byteSize s := by
  simp [byteSize]

theorem byteSize_replicate (n : Nat) (c : Char) :
    byteSize (List.replicate n c) = n * c.utf8Size := by
  simp [byteSize]

/-- A text has the bytes of its characters. -/
theorem length_utf8_eq_byteSize (text : String) : (utf8 text).length = byteSize text.toList := by
  obtain ⟨ch, rfl⟩ : ∃ ch, text = String.ofList ch := ⟨_, String.ofList_toList.symm⟩
  rw [length_utf8, String.toList_ofList]
  induction ch with
  | nil => rfl
  | cons c ch ih =>
    rw [String.ofList_cons, String.utf8ByteSize_append, String.utf8ByteSize_singleton, ih]
    simp [byteSize]

/-- Of two prefixes of a text the one with fewer bytes is a prefix of the other. -/
theorem prefix_of_byteSize_le {x s text : List Char} (hf : x <+: text)
    (hs : s <+: text) (h : byteSize x ≤ byteSize s) : x <+: s := by
  by_cases hl : x.length ≤ s.length
  · exact prefix_of_prefix_length_le hf hs hl
  · obtain ⟨xs, hr⟩ := prefix_of_prefix_length_le hs hf (by omega)
    have hi : byteSize x = byteSize s + byteSize xs := by
      rw [← hr, byteSize_append]
    cases xs with
    | nil =>
      rw [append_nil] at hr
      rw [hr]
    | cons c xs =>
      have hp := c.utf8Size_pos
      have hc : byteSize (c :: xs) = c.utf8Size + byteSize xs := by simp [byteSize]
      omega

/-! ### The window -/

/-- After white space a text starts with `<svg`, in any ASCII case, within the window. -/
def OpensSvg (bytes : Bytes) : Prop :=
  ∃ text lead tag rest, fromUtf8 bytes = some text ∧ text.toList = lead ++ tag ++ rest ∧
    lead.all Text.isWhitespace = true ∧ tag.map Char.toLower = "<svg".toList ∧
    byteSize (lead ++ tag) ≤ SVG_WINDOW

/-- The window ends between two characters: the byte behind it, if there is one, starts one. -/
def EndsBetween (bytes : Bytes) : Prop :=
  ∀ byte, bytes[SVG_WINDOW]? = some byte → byte.IsUTF8FirstByte

theorem eq_of_toLower_eq_lt {c : Char} (h : c.toLower = '<') : c = '<' := by
  unfold Char.toLower at h
  split at h
  · next hu =>
    have hl : 65 ≤ c.val.toNat := UInt32.le_iff_toNat_le.mp hu.1
    have hh : c.val.toNat ≤ 90 := UInt32.le_iff_toNat_le.mp hu.2
    have hn : (c.val + ('a'.val - 'A'.val)).toNat = 60 := congrArg Char.toNat h
    have hs : ('a'.val - 'A'.val).toNat = 32 := by decide
    rw [UInt32.toNat_add, hs] at hn
    omega
  · exact h

variable {bytes : Bytes}

/-- A file whose window is a text is recognized by its start. -/
theorem looksLikeSvg_of_window {p : String} {l tag xs : List Char}
    (hw : fromUtf8 (bytes.take SVG_WINDOW) = some p)
    (hpa : p.toList = l ++ tag ++ xs) (hl : l.all Text.isWhitespace = true)
    (ha : tag.map Char.toLower = "<svg".toList) : looksLikeSvg bytes = true := by
  obtain ⟨x, os, rfl⟩ : ∃ x os, tag = x :: os := by
    cases tag with
    | nil => simp at ha
    | cons x os => exact ⟨x, os, rfl⟩
  have hf : x = '<' := by
    rw [map_cons] at ha
    exact eq_of_toLower_eq_lt (List.cons.inj ha).1
  have hs : Text.isWhitespace x = false := by
    rw [hf]
    decide
  have ht : p.toList.dropWhile Text.isWhitespace = x :: os ++ xs := by
    rw [hpa, append_assoc, dropWhile_append_of_pos (all_eq_true.mp hl),
      cons_append, dropWhile_cons_of_neg (by simp [hs])]
  have hp : "<svg".toList.isPrefixOf
      ((p.toList.dropWhile Text.isWhitespace).map Char.toLower) = true := by
    rw [ht, map_append, ha]
    exact isPrefixOf_iff_prefix.mpr (prefix_append _ _)
  simp only [looksLikeSvg, hw, hp, Bool.true_or]

/-- A file that opens as an SVG is recognized when the window ends between two characters. -/
theorem looksLikeSvg_iff (h : OpensSvg bytes) : looksLikeSvg bytes = true ↔ EndsBetween bytes := by
  obtain ⟨text, l, tag, xs, ht, hs, he, ha, hi⟩ := h
  obtain rfl := utf8_of_fromUtf8 ht
  rw [EndsBetween, ← exists_fromUtf8_take_iff]
  constructor
  · intro hl
    unfold looksLikeSvg at hl
    split at hl
    · simp at hl
    · next p hp => exact ⟨p, hp⟩
  · rintro ⟨p, hp⟩
    obtain ⟨b, rfl⟩ := eq_append_of_fromUtf8_take hp
    have ho : l ++ tag <+: p.toList := by
      have hb := congrArg List.length (utf8_of_fromUtf8 hp)
      rw [length_take, length_utf8_eq_byteSize, length_utf8_eq_byteSize, hs, byteSize_append] at hb
      refine prefix_of_byteSize_le ⟨xs, hs.symm⟩ ?_ (by omega)
      rw [String.toList_append]
      exact prefix_append _ _
    obtain ⟨m, hm⟩ := ho
    exact looksLikeSvg_of_window hp hm.symm he ha

/-! ### The markers -/

/-- No text of the policy that is looked for is empty. -/
def Policy.Usable (policy : Policy) : Prop :=
  ∀ needles ∈ [policy.urlSchemes, policy.credentialMarkers, policy.networkImports,
    policy.processImports, policy.decoderMarkers, policy.svgBehavior], "" ∉ needles

instance (policy : Policy) : Decidable policy.Usable := inferInstanceAs (Decidable (∀ _ ∈ _, _))

variable {scan : TextScan} {ne : List String} {found : List Match}

theorem findAny_isSome_iff : (∃ found, scan.findAny ne = some found) ↔ "" ∉ ne := by
  unfold findAny
  split
  · next h => simp [contains_iff_mem.mp h]
  · next h =>
    rw [contains_iff_mem] at h
    simp [h]

/-- Wherever a needle stands in the lowercase copy, one of its matches reaches there. -/
theorem exists_mem_findAny {n : String} {pre l : List Char} (h : scan.findAny ne = some found)
    (hn : n ∈ ne) (hs : scan.lowered = pre ++ n.toList ++ l) :
    ∃ p, p ≤ pre.length ∧ pre.length < p + n.toList.length ∧
      scan.located (byteSize (scan.text.take p)) n ∈ found := by
  have hne : n.toList ≠ [] := by
    intro he
    refine findAny_isSome_iff.mp ⟨found, h⟩ ?_
    have hn' : n = "" := String.toList_inj.mp he
    exact hn' ▸ hn
  obtain ⟨p, hm, hl, ht⟩ := exists_mem_occurrences 0 hne hs
  rw [Nat.zero_add] at hl ht
  refine ⟨p, hl, ht, ?_⟩
  unfold findAny at h
  split at h
  · simp at h
  · rw [← Option.some.inj h, sortMatches, mem_insertionSort, mem_flatMap]
    exact ⟨n, hn, mem_map_of_mem hm⟩

variable {path text : String} {policy : Policy} {isSvg : Bool} {findings : List Finding}

/-- A scan that does not panic had no empty needle. -/
theorem usable_of_scanText (h : scanText path text policy true = some findings) :
    policy.Usable ∧ ∃ found, (new text policy.maxTextScanBytes).findAny
      policy.svgBehavior = some found ∧ ∀ f ∈ collect path .svgBehavior found, f ∈ findings := by
  simp only [scanText, if_true, bind_eq_bind, bind_eq_some_iff] at h
  obtain ⟨u, hu, c, hc, n, hn, p, hp, d, hd, b, hb, hf⟩ := h
  obtain ⟨found, ho, -⟩ := map_eq_some_iff.mp hu
  refine ⟨?_, b, hb, fun f hm => ?_⟩
  · simp only [Policy.Usable, forall_mem_cons, not_mem_nil,
    false_implies, implies_true, and_true]
    exact ⟨findAny_isSome_iff.mp ⟨found, ho⟩, findAny_isSome_iff.mp ⟨_, hc⟩,
      findAny_isSome_iff.mp ⟨_, hn⟩, findAny_isSome_iff.mp ⟨_, hp⟩,
      findAny_isSome_iff.mp ⟨_, hd⟩, findAny_isSome_iff.mp ⟨_, hb⟩⟩
  · rw [← Option.some.inj hf]
    exact mem_append_right _ hm

/-- Without an empty needle no scan panics. -/
theorem exists_scanText (h : policy.Usable) (isSvg : Bool) :
    ∃ findings, scanText path text policy isSvg = some findings := by
  simp only [Policy.Usable, forall_mem_cons, not_mem_nil,
    false_implies, implies_true, and_true] at h
  obtain ⟨hu, hc, hn, hp, hd, hb⟩ := h
  have hs : ∀ {ne : List String}, "" ∉ ne →
      ∃ found, (new text policy.maxTextScanBytes).findAny ne = some found :=
    findAny_isSome_iff.mpr
  obtain ⟨u, hu⟩ := hs hu
  obtain ⟨c, hc⟩ := hs hc
  obtain ⟨n, hn⟩ := hs hn
  obtain ⟨p, hp⟩ := hs hp
  obtain ⟨d, hd⟩ := hs hd
  obtain ⟨b, hb⟩ := hs hb
  simp only [scanText, findUrls, hu, hc, hn, hp, hd, map_some, bind_eq_bind, bind_some]
  cases isSvg with
  | false => exact ⟨_, rfl⟩
  | true =>
    simp only [hb, if_true, bind_some]
    exact ⟨_, rfl⟩

/-! ### Detection -/

/-- A file is taken for an SVG, and its text is scanned for scripted markup: wherever a marker
stands in the scanned region, a match that reaches there is counted in the finding. -/
structure Detected (path : String) (bytes : Bytes) (executable : Bool) (policy : Policy) :
    Prop where
  looks : looksLikeSvg bytes = true
  kind : (classify path bytes executable policy).kind = .svg
  reported : ∃ text findings, fromUtf8 bytes = some text ∧
    scanFile path bytes executable policy = some (.findings findings) ∧
    ∀ marker ∈ policy.svgBehavior, ∀ before after,
      (new text policy.maxTextScanBytes).lowered = before ++ marker.toList ++ after →
      ∃ (found : List Match) (position : Nat),
        ⟨.svgBehavior, path, found.length, found.take MAX_SAMPLES⟩ ∈ findings ∧
        position ≤ before.length ∧ before.length < position + marker.toList.length ∧
        (new text policy.maxTextScanBytes).located
          (byteSize ((new text policy.maxTextScanBytes).text.take position)) marker ∈ found

theorem kind_of_looksLikeSvg (h : looksLikeSvg bytes = true) (path : String) (e : Bool)
    (policy : Policy) : (classify path bytes e policy).kind = .svg := by
  simp only [classify, contentKind, h, if_true]

/-- The scan of a file that is taken for an SVG. -/
theorem scanFile_of_looksLikeSvg (h : looksLikeSvg bytes = true) (ht : fromUtf8 bytes = some text)
    (e : Bool) : scanFile path bytes e policy =
      (scanText path text policy true).map Scanned.findings := by
  have hk := kind_of_looksLikeSvg h path e policy
  simp only [scanFile, hk, or_true, if_true, ht, beq_self_eq_true]

/-- A file that opens as an SVG is detected, with its markers, exactly when the window ends between
two characters; the scan needs a policy without empty texts. -/
theorem svg_detected_iff {bytes : Bytes} (h : OpensSvg bytes) (path : String) (executable : Bool)
    (policy : Policy) :
    Detected path bytes executable policy ↔ EndsBetween bytes ∧ policy.Usable := by
  obtain ⟨text, ht⟩ : ∃ text, fromUtf8 bytes = some text := by
    obtain ⟨text, -, -, -, ht, -⟩ := h
    exact ⟨text, ht⟩
  constructor
  · rintro ⟨hl, -, o, findings, -, hs, -⟩
    rw [scanFile_of_looksLikeSvg hl ht] at hs
    obtain ⟨found, ho, -⟩ := map_eq_some_iff.mp hs
    exact ⟨(looksLikeSvg_iff h).mp hl, (usable_of_scanText ho).1⟩
  · rintro ⟨he, hu⟩
    have hl := (looksLikeSvg_iff h).mpr he
    have hs : ∃ findings, scanText path text policy true = some findings :=
      exists_scanText hu true
    obtain ⟨findings, hf⟩ := hs
    refine ⟨hl, kind_of_looksLikeSvg hl path executable policy, text, findings, ht, ?_,
      fun m hm pre l hst => ?_⟩
    · rw [scanFile_of_looksLikeSvg hl ht, hf, map_some]
    · obtain ⟨-, found, ho, hr⟩ := usable_of_scanText hf
      obtain ⟨p, hle, hlt, hmem⟩ := exists_mem_findAny ho hm hst
      refine ⟨found, p, hr _ ?_, hle, hlt, hmem⟩
      have hso : found ≠ [] := ne_nil_of_mem hmem
      simp [collect, hso]

/-- A policy with one marker. -/
def scriptPolicy : Policy where
  maxTextScanBytes := 4096
  classes := []
  confusables := []
  urlSchemes := ["http://"]
  credentialMarkers := ["aws_secret"]
  networkImports := ["import socket"]
  processImports := ["eval("]
  svgBehavior := ["<script"]
  minBase64Run := 200
  minHexRun := 200
  decoderMarkers := ["atob("]
  imageExtensions := ["png", "svg"]

/-- A short scripted file that opens as an SVG is detected. -/
theorem svg_detected_script : OpensSvg (utf8 " <SVG><script") ∧
    (Detected "a.svg" (utf8 " <SVG><script") false scriptPolicy ↔
      EndsBetween (utf8 " <SVG><script") ∧ scriptPolicy.Usable) := by
  have ho : OpensSvg (utf8 " <SVG><script") :=
    ⟨" <SVG><script", [' '], "<SVG".toList, "><script".toList, fromUtf8_utf8 _, by decide,
      by decide, by decide, by decide⟩
  exact ⟨ho, svg_detected_iff ho "a.svg" false scriptPolicy⟩

/-- The start of a file up to the byte before the last one of the window. -/
def cutHead : List Char := "<svg".toList ++ List.replicate 1019 'x'

/-- A scripted file with a character of two bytes across the end of the window. -/
def cutFile : Bytes := utf8 (String.ofList cutHead ++ "é<script")

/-- A file that opens as an SVG is not detected when the window ends inside a character. -/
theorem cut_file_undetected : OpensSvg cutFile ∧ ¬ Detected "a.svg" cutFile false scriptPolicy := by
  have hh : (utf8 (String.ofList cutHead)).length = 1023 := by
    rw [length_utf8_eq_byteSize, String.toList_ofList, cutHead, byteSize_append, byteSize_replicate]
    decide
  have ho : OpensSvg cutFile := by
    refine ⟨_, [], "<svg".toList, List.replicate 1019 'x' ++ "é<script".toList, fromUtf8_utf8 _,
      ?_, rfl, by decide, by decide⟩
    rw [String.toList_append, String.toList_ofList, cutHead, nil_append, append_assoc]
  refine ⟨ho, fun hd => ?_⟩
  have he := (looksLikeSvg_iff ho).mp hd.looks
  have hb : cutFile[SVG_WINDOW]? = some 0xa9 := by
    rw [cutFile, utf8_append, List.getElem?_append_right (by rw [hh]; decide), hh]
    decide
  exact absurd (he 0xa9 hb) (by decide)

end Louiselm.Review
