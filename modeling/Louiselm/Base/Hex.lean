import Mathlib.Data.List.Basic

/-!
# Bytes and lowercase hexadecimal text

Two lowercase digits per byte, high half first. Decoding accepts exactly what
encoding writes, so a text names at most one byte string and the reverse.
-/

namespace Louiselm.Base
open List

/-- Byte strings, in the order they are stored or hashed. -/
abbrev Bytes := List UInt8

/-- The UTF-8 bytes of a text. -/
def utf8 (text : String) : Bytes := text.toUTF8.data.toList

/-- Equal UTF-8 bytes come from equal texts. -/
theorem utf8_inj {a b : String} : utf8 a = utf8 b ↔ a = b := by
  constructor
  · intro h
    apply String.toByteArray_inj.mp
    apply ByteArray.ext
    exact Array.toList_inj.mp h
  · exact congrArg utf8

/-- The bytes of a text are read as that text. -/
theorem fromUTF8?_utf8 (t : String) : String.fromUTF8? ⟨(utf8 t).toArray⟩ = some t := by
  have hb : (⟨(utf8 t).toArray⟩ : ByteArray) = t.toUTF8 := by
    simp [utf8]
  rw [hb, String.fromUTF8?, dif_pos (by simp [t.isValidUTF8])]
  rfl

/-- Only the bytes of a text are read as it. -/
theorem utf8_of_fromUTF8? {b : Bytes} {t : String}
    (h : String.fromUTF8? ⟨b.toArray⟩ = some t) : b = utf8 t := by
  rw [String.fromUTF8?] at h
  split at h
  · rw [← Option.some.inj h]
    simp [utf8, String.fromUTF8]
  · simp at h

/-- A text has at most four bytes for each character. -/
theorem length_utf8_ofList_le (t : List Char) : (utf8 (String.ofList t)).length ≤ 4 * t.length := by
  change (String.ofList t).utf8ByteSize ≤ _
  induction t with
  | nil => simp
  | cons c t ih =>
    have hc := c.utf8Size_le_four
    rw [String.ofList_cons, String.utf8ByteSize_append, String.utf8ByteSize_singleton, length_cons]
    omega

/-- A text of one-byte characters has as many bytes as characters. -/
theorem utf8ByteSize_eq_length {t : String} (h : ∀ c ∈ t.toList, c.utf8Size = 1) :
    t.utf8ByteSize = t.toList.length := by
  obtain ⟨ch, rfl⟩ : ∃ ch, t = String.ofList ch := ⟨_, String.ofList_toList.symm⟩
  rw [String.toList_ofList] at h ⊢
  induction ch with
  | nil => simp
  | cons c ch ih =>
    have hr := ih fun d hd => h d (mem_cons_of_mem c hd)
    rw [String.ofList_cons, String.utf8ByteSize_append, String.utf8ByteSize_singleton, hr,
      h c mem_cons_self, length_cons]
    omega

/-- The remainder of `text` after `pre`, when it starts with it. -/
def stripPrefix (pre text : List Char) : Option (List Char) :=
  if pre.isPrefixOf text then some (text.drop pre.length) else none

/-- Stripping a prefix that was just added returns the rest. -/
theorem stripPrefix_append (pre t : List Char) : stripPrefix pre (pre ++ t) = some t := by
  have hp : pre.isPrefixOf (pre ++ t) = true := by simp
  rw [stripPrefix, if_pos hp, drop_left]

namespace Hex

/-- The sixteen lowercase digits. -/
def digits : List Char :=
  ['0', '1', '2', '3', '4', '5', '6', '7', '8', '9', 'a', 'b', 'c', 'd', 'e', 'f']

/-- The digit of a half byte. -/
def digit (half : Nat) : Char := digits.getD half '0'

/-- Both digits of one byte, high half first. -/
def byteDigits (byte : UInt8) : List Char :=
  [digit (byte.toNat / 16), digit (byte.toNat % 16)]

/-- Two lowercase digits per byte. -/
def encode (raw : Bytes) : List Char := raw.flatMap byteDigits

/-- The value of one lowercase digit. -/
def nibble (c : Char) : Option Nat :=
  if '0' ≤ c ∧ c ≤ '9' then some (c.toNat - '0'.toNat)
  else if 'a' ≤ c ∧ c ≤ 'f' then some (c.toNat - 'a'.toNat + 10)
  else none

/-- Whether a character is an ASCII digit or one of `a` to `f`. -/
def isDigit (c : Char) : Bool := (nibble c).isSome

theorem utf8Size_of_isDigit {c : Char} (h : isDigit c = true) : c.utf8Size = 1 := by
  rw [Char.utf8Size_eq_one_iff]
  unfold isDigit nibble at h
  split at h
  · next hc => exact UInt32.le_trans hc.2 (by decide)
  · split at h
    · next hc => exact UInt32.le_trans hc.2 (by decide)
    · simp at h

/-- Read bytes two digits at a time; an odd digit at the end is refused. -/
def decode : List Char → Option Bytes
  | [] => some []
  | high :: low :: rest =>
    match nibble high, nibble low, decode rest with
    | some h, some l, some bytes => some (UInt8.ofNat (h * 16 + l) :: bytes)
    | _, _, _ => none
  | [_] => none

/-- A digit reads back as its half byte. -/
theorem nibble_digit {half : Nat} (h : half < 16) : nibble (digit half) = some half := by
  have all : ∀ n : Fin 16, nibble (digit n.val) = some n.val := by decide
  exact all ⟨half, h⟩

/-- Encoding writes two digits per byte. -/
@[simp] theorem length_encode (raw : Bytes) : (encode raw).length = 2 * raw.length := by
  induction raw with
  | nil => rfl
  | cons b raw ih =>
    simp only [encode, flatMap_cons, length_append, length_cons] at ih ⊢
    rw [ih]
    simp only [byteDigits, length_cons, length_nil]
    omega

/-- Encoding writes nothing but lowercase digits. -/
theorem isDigit_encode (raw : Bytes) : (encode raw).all isDigit = true := by
  rw [all_eq_true]
  intro c hc
  obtain ⟨b, _, hb⟩ := mem_flatMap.mp hc
  have ht : b.toNat < 256 := b.toNat_lt
  have hh : isDigit (digit (b.toNat / 16)) = true := by
    rw [isDigit, nibble_digit (by omega)]
    rfl
  have hl : isDigit (digit (b.toNat % 16)) = true := by
    rw [isDigit, nibble_digit (by omega)]
    rfl
  simp only [byteDigits, mem_cons, not_mem_nil, or_false] at hb
  rcases hb with rfl | rfl
  · exact hh
  · exact hl

/-- Decoding inverts encoding on every byte string. -/
theorem decode_encode (raw : Bytes) : decode (encode raw) = some raw := by
  induction raw with
  | nil => rfl
  | cons b raw ih =>
    have hl : b.toNat < 256 := b.toNat_lt
    have hv : b.toNat / 16 * 16 + b.toNat % 16 = b.toNat := by omega
    change decode (digit (b.toNat / 16) :: digit (b.toNat % 16) :: encode raw) = _
    rw [decode, nibble_digit (by omega), nibble_digit (by omega), ih]
    simp only [hv, UInt8.ofNat_toNat]

/-- Two byte strings with one encoding are equal. -/
theorem encode_inj {a b : Bytes} : encode a = encode b ↔ a = b := by
  constructor
  · intro h
    have hd := decode_encode a
    rw [h, decode_encode] at hd
    exact (Option.some.inj hd).symm
  · exact congrArg encode

end Hex
end Louiselm.Base
