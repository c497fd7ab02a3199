import Louiselm.Base.Hex

/-!
# Cutting UTF-8

The first bytes of a text are a text exactly when the byte behind them starts a character, and
then they are a prefix of it.
-/

namespace Louiselm.Base

variable {t p : String} {n : Nat}

/-- The text of valid UTF-8. -/
def fromUtf8 (bytes : Bytes) : Option String := String.fromUTF8? ⟨bytes.toArray⟩

@[simp] theorem fromUtf8_utf8 (t : String) : fromUtf8 (utf8 t) = some t :=
  fromUTF8?_utf8 t

theorem utf8_of_fromUtf8 {b : Bytes} (h : fromUtf8 b = some t) : b = utf8 t :=
  utf8_of_fromUTF8? h

/-- A text is the one its bytes are read as. -/
theorem fromUtf8_eq_some_iff {b : Bytes} : fromUtf8 b = some t ↔ b = utf8 t := by
  constructor
  · exact utf8_of_fromUtf8
  · rintro rfl
    exact fromUtf8_utf8 t

@[simp] theorem length_utf8 (t : String) : (utf8 t).length = t.utf8ByteSize := rfl

theorem utf8_append (x s : String) : utf8 (x ++ s) = utf8 x ++ utf8 s := by
  simp [utf8, String.toByteArray_append]

/-- A position within a text is between two of its characters. -/
theorem isValid_iff_getElem (h : n ≤ (utf8 t).length) : (⟨n⟩ : String.Pos.Raw).IsValid t ↔
      ∀ b, (utf8 t)[n]? = some b → b.IsUTF8FirstByte := by
  rw [String.Pos.Raw.isValid_iff_isUTF8FirstByte]
  have hs : t.rawEndPos.byteIdx = (utf8 t).length := rfl
  constructor
  · rintro (he | ⟨hl, hf⟩) b hb
    · have hn : n = (utf8 t).length := congrArg String.Pos.Raw.byteIdx he
      rw [hn, List.getElem?_eq_none (Nat.le_refl _)] at hb
      simp at hb
    · obtain ⟨hl', heq⟩ := List.getElem?_eq_some_iff.mp hb
      rw [← heq]
      exact hf
  · intro ha
    by_cases hl : n < (utf8 t).length
    · refine Or.inr ⟨hl, ha _ ?_⟩
      exact List.getElem?_eq_getElem hl
    · refine Or.inl (String.Pos.Raw.ext ?_)
      change n = (utf8 t).length
      omega

/-- A cut text is a text when the byte behind the cut starts a character. -/
theorem exists_fromUtf8_take_iff : (∃ p, fromUtf8 ((utf8 t).take n) = some p) ↔
    ∀ b, (utf8 t)[n]? = some b → b.IsUTF8FirstByte := by
  by_cases hl : n ≤ (utf8 t).length
  · rw [← isValid_iff_getElem hl, String.Pos.Raw.isValid_iff_exists_append]
    constructor
    · rintro ⟨p, hp⟩
      have hb := utf8_of_fromUtf8 hp
      have hv : (⟨n⟩ : String.Pos.Raw).IsValid t := by
        refine String.Pos.Raw.isValid_iff_isValidUTF8_extract_zero.mpr ⟨hl, ?_⟩
        have he : t.toByteArray.extract 0 n = p.toByteArray := by
          refine ByteArray.ext (Array.toList_inj.mp ?_)
          simpa [utf8, ByteArray.data_extract, Array.toList_extract] using hb
        rw [he]
        exact p.isValidUTF8
      exact String.Pos.Raw.isValid_iff_exists_append.mp hv
    · rintro ⟨p, xs, rfl, hd⟩
      have hn : n = (utf8 p).length := congrArg String.Pos.Raw.byteIdx hd
      refine ⟨p, fromUtf8_eq_some_iff.mpr ?_⟩
      rw [utf8_append, hn, List.take_left]
  · rw [List.take_of_length_le (by omega), List.getElem?_eq_none (by omega)]
    simp

/-- What a cut text reads as is a prefix of it. -/
theorem eq_append_of_fromUtf8_take (h : fromUtf8 ((utf8 t).take n) = some p) :
    ∃ xs, t = p ++ xs := by
  by_cases hl : n ≤ (utf8 t).length
  · have hv := (isValid_iff_getElem hl).mpr (exists_fromUtf8_take_iff.mp ⟨p, h⟩)
    obtain ⟨x, xs, rfl, he⟩ := String.Pos.Raw.isValid_iff_exists_append.mp hv
    have hn : n = (utf8 x).length := congrArg String.Pos.Raw.byteIdx he
    rw [utf8_append, hn, List.take_left, fromUtf8_utf8] at h
    exact ⟨xs, by rw [Option.some.inj h]⟩
  · rw [List.take_of_length_le (by omega), fromUtf8_utf8] at h
    exact ⟨"", by rw [← Option.some.inj h, String.append_empty]⟩

end Louiselm.Base
