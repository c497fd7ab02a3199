import Louiselm.Base.Hex
import Louiselm.Review.Diff

/-!
# Escaped texts

`skills-core/src/scan.rs`: `escape` writes every text in printable ASCII. What it wrote for one
character is told from whatever follows, so an escaped text is read back in exactly one way.
-/

namespace Louiselm.Review
open Base List

/-! ### Reading -/

/-- The characters that are shown as they are. -/
def isPrintable (c : Char) : Bool := decide (' ' ≤ c ∧ c ≤ '~')

/-- The number that hexadecimal digits stand for. -/
def hexValue (digits : List Char) : Nat :=
  digits.foldl (fun value c => value * 16 + (Hex.nibble c).getD 0) 0

/-- The first character of an escaped text, and what is left of it. -/
def readChar : List Char → Option (Char × List Char)
  | '\\' :: '\\' :: rest => some ('\\', rest)
  | '\\' :: 'u' :: '{' :: rest =>
    let c := Char.ofNat (hexValue (rest.takeWhile (· != '}')))
    let left := (rest.dropWhile (· != '}')).drop 1
    if escapeChar c ++ left = '\\' :: 'u' :: '{' :: rest then some (c, left) else none
  | c :: rest => if c ≠ '\\' ∧ isPrintable c = true then some (c, rest) else none
  | [] => none

variable {text : List Char} {c : Char}

/-- Nothing but escaped characters is read. -/
theorem eq_append_of_readChar {xs : List Char} (h : readChar text = some (c, xs)) :
    text = escapeChar c ++ xs := by
  unfold readChar at h
  split at h
  · obtain ⟨rfl, rfl⟩ := Prod.mk.inj (Option.some.inj h)
    rfl
  · dsimp only at h
    split at h
    · next heq =>
      obtain ⟨rfl, rfl⟩ := Prod.mk.inj (Option.some.inj h)
      exact heq.symm
    · simp at h
  · split at h
    · next hc =>
      obtain ⟨rfl, rfl⟩ := Prod.mk.inj (Option.some.inj h)
      rw [escapeChar, if_neg hc.1, if_pos (of_decide_eq_true hc.2)]
      rfl
    · simp at h
  · simp at h

theorem length_lt_of_readChar {xs : List Char} (h : readChar text = some (c, xs)) :
    xs.length < text.length := by
  have hp : 0 < (escapeChar c).length := by
    unfold escapeChar
    split
    · exact Nat.zero_lt_succ _
    · split
      · exact Nat.zero_lt_succ _
      · simp
  rw [eq_append_of_readChar h, length_append]
  omega

/-- The characters that an escaped text was made of. -/
def unescapeChars (text : List Char) : Option (List Char) :=
  if text = [] then some []
  else
    match _h : readChar text with
    | none => none
    | some (c, rest) => (unescapeChars rest).map (c :: ·)
termination_by text.length
decreasing_by exact length_lt_of_readChar _h

/-- The text that was escaped, where one was. -/
def unescape (escaped : String) : Option String :=
  (unescapeChars escaped.toList).map String.ofList

/-! ### Hexadecimal digits -/

theorem nibble_digitChar {n : Nat} (h : n < 16) : Hex.nibble n.digitChar = some n := by
  have ha : ∀ k : Fin 16, Hex.nibble (k : Nat).digitChar = some (k : Nat) := by decide
  exact ha ⟨n, h⟩

/-- The digits of a number stand for it. -/
theorem hexValue_toDigits (n : Nat) : hexValue (Nat.toDigits 16 n) = n := by
  induction n using Nat.strongRecOn with
  | ind n ih =>
    by_cases h : n < 16
    · rw [Nat.toDigits_of_lt_base h, hexValue, foldl_cons, foldl_nil, nibble_digitChar h]
      simp
    · have hf := ih (n / 16) (by omega)
      rw [hexValue] at hf
      rw [Nat.toDigits_of_base_le (by omega) (by omega), hexValue, foldl_append, hf,
        foldl_cons, foldl_nil, nibble_digitChar (Nat.mod_lt _ (by omega)), Option.getD_some]
      omega

theorem isDigit_of_mem_toDigits {n : Nat} (h : c ∈ Nat.toDigits 16 n) : Hex.isDigit c = true := by
  induction n using Nat.strongRecOn with
  | ind n ih =>
    have hd : ∀ k, k < 16 → Hex.isDigit k.digitChar = true := by
      intro k hk
      rw [Hex.isDigit, nibble_digitChar hk]
      rfl
    by_cases hn : n < 16
    · rw [Nat.toDigits_of_lt_base hn, mem_singleton] at h
      exact h ▸ hd n hn
    · rw [Nat.toDigits_of_base_le (by omega) (by omega), mem_append, mem_singleton] at h
      rcases h with h | rfl
      · exact ih (n / 16) (by omega) h
      · exact hd _ (Nat.mod_lt _ (by omega))

theorem isPrintable_of_isDigit (h : Hex.isDigit c = true) : isPrintable c = true := by
  unfold Hex.isDigit Hex.nibble at h
  split at h
  · next hc =>
    have hl : ' ' ≤ '0' := by decide
    have hh : '9' ≤ '~' := by decide
    exact decide_eq_true ⟨Char.le_trans hl hc.1, Char.le_trans hc.2 hh⟩
  · split at h
    · next hc =>
      have hl : ' ' ≤ 'a' := by decide
      have hh : 'f' ≤ '~' := by decide
      exact decide_eq_true ⟨Char.le_trans hl hc.1, Char.le_trans hc.2 hh⟩
    · simp at h

theorem isDigit_brace : Hex.isDigit '}' = false := by decide

/-! ### Reading what was written -/

/-- An escaped character is read back whatever follows it. -/
theorem readChar_escapeChar (c : Char) (xs : List Char) :
    readChar (escapeChar c ++ xs) = some (c, xs) := by
  by_cases hs : c = '\\'
  · rw [hs]
    rfl
  · by_cases hp : ' ' ≤ c ∧ c ≤ '~'
    · have he : escapeChar c = [c] := by rw [escapeChar, if_neg hs, if_pos hp]
      rw [he, singleton_append]
      have hl : c ≠ '\\' ∧ isPrintable c = true := ⟨hs, decide_eq_true hp⟩
      rw [readChar, if_pos hl]
      · exact fun _ h => absurd h hs
      · exact fun _ h => absurd h hs
    · have he : escapeChar c = '\\' :: 'u' :: '{' :: (Nat.toDigits 16 c.toNat ++ ['}']) := by
        rw [escapeChar, if_neg hs, if_neg hp]
        rfl
      have hn : ∀ d ∈ Nat.toDigits 16 c.toNat, (d != '}') = true := by
        intro d hd
        have h := isDigit_of_mem_toDigits hd
        refine bne_iff_ne.mpr ?_
        rintro rfl
        rw [isDigit_brace] at h
        exact absurd h Bool.false_ne_true
      have hb : Nat.toDigits 16 c.toNat ++ ['}'] ++ xs =
          Nat.toDigits 16 c.toNat ++ '}' :: xs := by simp
      have ht : (Nat.toDigits 16 c.toNat ++ '}' :: xs).takeWhile (· != '}') =
          Nat.toDigits 16 c.toNat := by
        rw [takeWhile_append_of_pos hn]
        simp
      have hdr : (Nat.toDigits 16 c.toNat ++ '}' :: xs).dropWhile (· != '}') = '}' :: xs := by
        rw [dropWhile_append_of_pos hn]
        simp
      rw [he, cons_append, cons_append, cons_append, hb, readChar]
      simp only [ht, hdr, hexValue_toDigits, Char.ofNat_toNat, drop_succ_cons,
        drop_zero, he, cons_append, hb, if_true]

/-- Escaping is read back to the characters it was made of, and to nothing else. -/
theorem unescapeChars_iff {ch : List Char} :
    unescapeChars text = some ch ↔ text = ch.flatMap escapeChar := by
  induction ch generalizing text with
  | nil =>
    rw [unescapeChars, flatMap_nil]
    by_cases h : text = []
    · simp [h]
    · rw [if_neg h]
      split
      · simp [h]
      · simp [h]
  | cons c ch ih =>
    rw [flatMap_cons]
    constructor
    · intro h
      rw [unescapeChars] at h
      split at h
      · simp at h
      · split at h
        · simp at h
        · next x xs hr =>
          obtain ⟨l, hl, heq⟩ := Option.map_eq_some_iff.mp h
          obtain ⟨rfl, rfl⟩ := List.cons.inj heq
          rw [← ih.mp hl]
          exact eq_append_of_readChar hr
    · rintro rfl
      have hr := readChar_escapeChar c (ch.flatMap escapeChar)
      have he : escapeChar c ++ ch.flatMap escapeChar ≠ [] := by
        intro h
        rw [h] at hr
        simp [readChar] at hr
      rw [unescapeChars, if_neg he]
      split
      · next hn => simp [hr] at hn
      · next x xs hs =>
        obtain ⟨rfl, rfl⟩ := Prod.mk.inj (Option.some.inj (hr.symm.trans hs))
        rw [ih.mpr rfl, Option.map_some]

/-- An escaped text has one reading, the text it was made of. -/
theorem unescape_iff {e text : String} : unescape e = some text ↔ e = escape text := by
  rw [unescape, Option.map_eq_some_iff]
  constructor
  · rintro ⟨ch, hc, rfl⟩
    rw [escape, String.toList_ofList, ← unescapeChars_iff.mp hc, String.ofList_toList]
  · rintro rfl
    refine ⟨text.toList, unescapeChars_iff.mpr ?_, String.ofList_toList⟩
    rw [escape, String.toList_ofList]

/-! ### What is written -/

/-- Escaping a character writes printable ASCII. -/
theorem isPrintable_escapeChar {d : Char} (h : d ∈ escapeChar c) : isPrintable d = true := by
  unfold escapeChar at h
  split at h
  · simp only [mem_cons, not_mem_nil, or_false, or_self] at h
    exact h ▸ (by decide)
  · split at h
    · next hc => exact mem_singleton.mp h ▸ decide_eq_true hc
    · simp only [mem_append, mem_cons, not_mem_nil, or_false] at h
      rcases h with (h | h) | rfl
      · rcases h with rfl | rfl | rfl <;> decide
      · exact isPrintable_of_isDigit (isDigit_of_mem_toDigits h)
      · decide

/-- A text in printable ASCII has printable bytes. -/
theorem printable_bytes (h : ∀ c ∈ text, isPrintable c = true) :
    ∀ b ∈ utf8 (String.ofList text), 0x20 ≤ b ∧ b ≤ 0x7e := by
  have hy : utf8 (String.ofList text) = text.flatMap String.utf8EncodeChar := by
    simp [utf8, List.utf8Encode]
  intro b hb
  rw [hy, mem_flatMap] at hb
  obtain ⟨c, hc, hb⟩ := hb
  obtain ⟨hl, hh⟩ := of_decide_eq_true (h c hc)
  have hl : (0x20 : UInt32) ≤ c.val := hl
  have hh : c.val ≤ (0x7e : UInt32) := hh
  have hs : c.utf8Size = 1 := by
    rw [Char.utf8Size_eq_one_iff]
    exact UInt32.le_trans hh (by decide)
  rw [String.utf8EncodeChar_eq_singleton hs, mem_singleton] at hb
  subst hb
  rw [UInt32.le_iff_toNat_le] at hl hh
  rw [UInt8.le_iff_toNat_le, UInt8.le_iff_toNat_le, UInt32.toNat_toUInt8]
  have hl : 0x20 ≤ c.val.toNat := hl
  have hh : c.val.toNat ≤ 0x7e := hh
  rw [Nat.mod_eq_of_lt (by omega)]
  exact ⟨hl, hh⟩

theorem escape_append (x s : String) : escape (x ++ s) = escape x ++ escape s := by
  rw [escape, String.toList_append, flatMap_append, String.ofList_append, escape, escape]

/-- Escaping writes printable ASCII, respects concatenation and loses nothing: the escape of a
character is told from whatever follows it, and an escaped text has one reading. -/
theorem escape_lossless : (∀ text, ∀ byte ∈ utf8 (escape text), 0x20 ≤ byte ∧ byte ≤ 0x7e) ∧
    Function.Injective escape ∧
    (∀ first second, escape (first ++ second) = escape first ++ escape second) ∧ escape "" = "" ∧
    (∀ c rest, readChar (escapeChar c ++ rest) = some (c, rest)) ∧
    ∀ escaped text, unescape escaped = some text ↔ escaped = escape text := by
  refine ⟨fun text => ?_, fun first second h => ?_, escape_append, rfl, readChar_escapeChar,
    fun escaped text => unescape_iff⟩
  · refine printable_bytes fun c hc => ?_
    obtain ⟨d, -, hd⟩ := mem_flatMap.mp hc
    exact isPrintable_escapeChar hd
  · have hf := unescape_iff.mpr (rfl : escape first = escape first)
    rw [h] at hf
    exact Option.some.inj (hf.symm.trans (unescape_iff.mpr rfl))

end Louiselm.Review
