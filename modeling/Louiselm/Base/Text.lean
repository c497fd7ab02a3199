import Mathlib.Data.List.Dedup
import Mathlib.Data.List.Sort
import Mathlib.Data.String.Basic

/-!
# Character classes of the texts the program checks

Unicode white space and control characters, and the ASCII classes that identifiers and
tokens are made of. Lengths are counted in UTF-8 bytes throughout.
-/

namespace Louiselm.Base.Text
open List

/-- The characters of Unicode property `White_Space`. -/
def isWhitespace (c : Char) : Bool :=
  let n := c.toNat
  (0x09 ≤ n && n ≤ 0x0D) || n == 0x20 || n == 0x85 || n == 0xA0 || n == 0x1680 ||
    (0x2000 ≤ n && n ≤ 0x200A) || n == 0x2028 || n == 0x2029 || n == 0x202F || n == 0x205F ||
    n == 0x3000

/-- The characters of general category `Cc`. -/
def isControl (c : Char) : Bool := c.toNat ≤ 0x1F || (0x7F ≤ c.toNat && c.toNat ≤ 0x9F)

/-- Printable ASCII without the space. -/
def isAsciiGraphic (c : Char) : Bool := 0x21 ≤ c.toNat && c.toNat ≤ 0x7E

/-- Letters and digits of identifiers, with `-` and `_`. -/
def isIdentifierChar (c : Char) : Bool := c.isAlphanum || c == '-' || c == '_'

/-- Whether trimming white space leaves nothing. -/
def isBlank (text : String) : Bool := text.toList.all isWhitespace

/-- A non-empty text of at most `limit` bytes, all of one class. -/
def bounded (limit : Nat) (ok : Char → Bool) (text : String) : Bool :=
  text != "" && text.utf8ByteSize ≤ limit && text.toList.all ok

/-- A `u32` in decimal digits, without a sign. -/
def parseU32 (text : String) : Option Nat :=
  let value := text.toList.foldl (fun value c => value * 10 + (c.toNat - '0'.toNat)) 0
  if text != "" && text.toList.all Char.isDigit && decide (value < 2 ^ 32) then some value else none

/-- The digits of a code point, without leading zeros. -/
def codePoint (c : Char) : List Char := Nat.toDigits 16 c.toNat

/-- Printable ASCII as it is, a backslash doubled, anything else as `\u\x7b..\x7d`. -/
def escape (text : String) : String :=
  String.ofList <| text.toList.flatMap fun c =>
    if c = '\\' then ['\\', '\\']
    else if ' ' ≤ c ∧ c ≤ '~' then [c]
    else ['\\', 'u', '\x7b'] ++ codePoint c ++ ['\x7d']

/-- A set of texts, sorted. -/
def sortedSet (texts : List String) : List String := texts.dedup.insertionSort (· ≤ ·)

@[simp] theorem mem_sortedSet {te : String} {t : List String} : te ∈ sortedSet t ↔ te ∈ t := by
  rw [sortedSet, mem_insertionSort, mem_dedup]

/-! ### Numbers in names -/

theorem toList_toString (n : Nat) : (toString n).toList = Nat.toDigits 10 n := Nat.toList_repr

theorem toList_toString_uint64 (n : UInt64) : (toString n).toList = Nat.toDigits 10 n.toNat :=
  Nat.toList_repr

theorem toDigits_inj {m n : Nat} : Nat.toDigits 10 m = Nat.toDigits 10 n ↔ m = n := by
  constructor
  · intro h
    rw [← Nat.ofDigitChars_ten_toDigits (n := m), h, Nat.ofDigitChars_ten_toDigits]
  · exact congrArg _

theorem toString_inj {m n : Nat} : toString m = toString n ↔ m = n := by
  rw [← String.toList_inj, toList_toString, toList_toString, toDigits_inj]

/-- Decimal digits up to another character name one number. -/
theorem digits_inj {c : Char} (hc : c.isDigit = false) {m n : Nat} {xs o : List Char} :
    Nat.toDigits 10 m ++ c :: xs = Nat.toDigits 10 n ++ c :: o ↔ m = n ∧ xs = o := by
  have ht : ∀ k (t : List Char),
      (Nat.toDigits 10 k ++ c :: t).takeWhile Char.isDigit = Nat.toDigits 10 k := by
    intro k t
    rw [takeWhile_append_of_pos fun _ h => Nat.isDigit_of_mem_toDigits (by omega) le_rfl h,
      takeWhile_cons, hc, if_neg Bool.false_ne_true, append_nil]
  constructor
  · intro h
    have hd := congrArg (List.takeWhile Char.isDigit) h
    rw [ht, ht] at hd
    exact ⟨toDigits_inj.mp hd, (cons_inj_right c).mp (append_cancel_left (hd ▸ h))⟩
  · rintro ⟨rfl, rfl⟩
    rfl

/-- The number of a name and what follows its separator can be read back. -/
theorem numbered_inj (c : Char) {s : String} (hs : s.toList = [c]) (hc : c.isDigit = false)
    {pre t u : String} {m n : UInt64} : pre ++ toString m ++ s ++ t = pre ++ toString n ++ s ++ u ↔
      m = n ∧ t = u := by
  rw [← String.toList_inj]
  simp only [String.toList_append, append_assoc, append_cancel_left_eq,
    toList_toString_uint64, hs, singleton_append]
  rw [digits_inj hc, UInt64.toNat_inj, String.toList_inj]

end Louiselm.Base.Text
