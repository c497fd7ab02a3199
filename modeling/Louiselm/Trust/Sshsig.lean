import Louiselm.Base.Text
import Louiselm.Base.Utf8
import Mathlib.Data.List.DropRight
import Mathlib.Tactic.IntervalCases

/-!
# Armored signatures

`skills-core/src/sshsig.rs`: the parser of `SSHSIG` envelopes and the base64 it is armored with.
What it reads out of an envelope is what was put into it, however the armor is wrapped. The
checks against an enrolled key and the call of `ssh-keygen` are not modelled.
-/

namespace Louiselm.Trust.Sshsig
open Base List

/-- A signature that cannot be accepted; parsing fails in this one way. -/
inductive SignatureError where
  | malformed (reason : String)
deriving DecidableEq

/-! ### Base64 -/

/-- The digits of base64. -/
def alphabet : List Char :=
  "ABCDEFGHIJKLMNOPQRSTUVWXYZabcdefghijklmnopqrstuvwxyz0123456789+/".toList

/-- Three bytes at a time, the last ones fewer. -/
def chunks : Bytes → List Bytes
  | a :: b :: c :: rest => [a, b, c] :: chunks rest
  | [] => []
  | rest => [rest]

/-- The number whose bytes these are, high first. -/
def fromBeBytes (bytes : Bytes) : Nat :=
  bytes.foldl (fun value byte => value * 256 + byte.toNat) 0

/-- Four characters for a chunk of at most three bytes. -/
def encodeChunk (chunk : Bytes) : List Char :=
  let value := fromBeBytes (chunk ++ List.replicate (3 - chunk.length) 0)
  (List.range 4).map fun position =>
    if position ≤ chunk.length then
      alphabet.getD ((value >>> (18 - 6 * position)) &&& 0x3f) '='
    else '='

/-- The base64 of bytes, padded. -/
def base64Encode (bytes : Bytes) : String := String.ofList ((chunks bytes).flatMap encodeChunk)

/-- The six bits that a digit stands for. -/
def digitValue (c : Char) : Option Nat :=
  if 'A' ≤ c ∧ c ≤ 'Z' then some (c.toNat - 'A'.toNat)
  else if 'a' ≤ c ∧ c ≤ 'z' then some (c.toNat - 'a'.toNat + 26)
  else if '0' ≤ c ∧ c ≤ '9' then some (c.toNat - '0'.toNat + 52)
  else if c = '+' then some 62
  else if c = '/' then some 63
  else none

/-- What a decoder holds between characters. The accumulator is a `u32`. -/
structure Decoder where
  decoded : Bytes
  accumulator : Nat
  bits : Nat

/-- Six more bits; the ones shifted out of the word are lost. -/
def Decoder.push (d : Decoder) (value : Nat) : Decoder :=
  let accumulator := (d.accumulator <<< 6) % 2 ^ 32 ||| value
  let bits := d.bits + 6
  if 8 ≤ bits then
    { decoded := d.decoded ++ [UInt8.ofNat (accumulator >>> (bits - 8))]
      accumulator
      bits := bits - 8 }
  else { d with accumulator, bits }

/-- One character of the text. -/
def Decoder.step (d : Decoder) (c : Char) : Except SignatureError Decoder :=
  if Text.isWhitespace c = true ∨ c = '=' then .ok d
  else
    match digitValue c with
    | some value => .ok (d.push value)
    | none =>
      .error (.malformed ("'" ++ Text.escape (String.singleton c) ++ "' is not base64"))

/-- The bytes of a base64 text. -/
def base64Decode (text : String) : Except SignatureError Bytes :=
  (text.toList.foldlM Decoder.step ⟨[], 0, 0⟩).map Decoder.decoded

/-! ### Armor -/

def beginLine : List Char := "-----BEGIN SSH SIGNATURE-----".toList

def endLine : List Char := "-----END SSH SIGNATURE-----".toList

/-- A line without the carriage return before its end. -/
def stripReturn (line : List Char) : List Char :=
  if line.getLast? = some '\r' then line.dropLast else line

/-- The lines of a text; an empty one after the last line feed is none. -/
def lines (text : List Char) : List (List Char) :=
  let pieces := text.splitOn '\n'
  let last := pieces.getLastD []
  pieces.dropLast.map stripReturn ++ if last = [] then [] else [last]

/-- A text without the white space around it. -/
def trim (text : List Char) : List Char :=
  (text.dropWhile Text.isWhitespace).rdropWhile Text.isWhitespace

/-- The bytes between the armor lines. -/
def dearmor (armored : String) : Except SignatureError Bytes :=
  let trimmed := trim armored.toList
  if !beginLine.isPrefixOf trimmed || !endLine.isSuffixOf trimmed then
    .error (.malformed "missing SSH SIGNATURE armor")
  else
    base64Decode <| String.ofList
      ((lines trimmed).filter fun line => !"-----".toList.isPrefixOf line).flatten

/-! ### Reading -/

/-- A place in a byte string. -/
structure Reader where
  bytes : Bytes
  offset : Nat
  inside : offset ≤ bytes.length

/-- A step of reading. -/
abbrev Read := StateT Reader (Except SignatureError)

/-- At the start of a byte string. -/
def Reader.new (bytes : Bytes) : Reader := ⟨bytes, 0, Nat.zero_le _⟩

/-- What is behind the place. -/
def Reader.left (r : Reader) : Bytes := r.bytes.drop r.offset

def isEmpty : Read Bool := do
  let r ← get
  return decide (r.bytes.length ≤ r.offset)

/-- The next bytes. An end that overflows is past the end of the bytes, too. -/
def take (length : Nat) : Read Bytes := do
  let r ← get
  if h : r.offset + length ≤ r.bytes.length then
    set { r with offset := r.offset + length, inside := h }
    return (r.bytes.drop r.offset).take length
  else throw (.malformed "truncated signature")

def u8 : Read UInt8 := do
  let bytes ← take 1
  return bytes.headD 0

def u32 : Read UInt32 := do
  let bytes ← take 4
  return UInt32.ofNat (fromBeBytes bytes)

/-- Bytes behind their length. -/
def string : Read Bytes := do
  let length ← u32
  take length.toNat

/-- Bytes behind their length that are a text. -/
def utf8String : Read String := do
  let bytes ← string
  match fromUtf8 bytes with
  | some text => return text
  | none => throw (.malformed "field is not UTF-8")

/-! ### Signatures -/

/-- What a hardware key reports of its use. -/
structure SkFlags where
  userPresence : Bool
  userVerification : Bool
  counter : UInt32
deriving DecidableEq

/-- A parsed signature. -/
structure SshSignature where
  algorithm : String
  nameSpace : String
  hashAlgorithm : String
  skFlags : Option SkFlags
  publicKeyBlob : Bytes
  publicKeyAlgorithm : String
deriving DecidableEq

/-- The signing key as a line of `authorized_keys`. -/
def SshSignature.opensshPublicKey (s : SshSignature) : String :=
  s.publicKeyAlgorithm ++ " " ++ base64Encode s.publicKeyBlob

def magic : Bytes := utf8 "SSHSIG"

/-- Whether an algorithm is one of hardware keys. -/
def isSk (algorithm : String) : Bool := "sk-".toList.isPrefixOf algorithm.toList

/-- The flags that a byte and a counter report. -/
def skFlagsOf (flags : UInt8) (counter : UInt32) : SkFlags :=
  { userPresence := flags &&& 0x01 != 0
    userVerification := flags &&& 0x04 != 0
    counter }

/-- The fields of an envelope: public key, namespace, hash algorithm and signature. -/
def readFields : Read (Bytes × String × String × Bytes) := do
  let found ← take magic.length
  if found ≠ magic then throw (.malformed "envelope does not start with SSHSIG")
  let version ← u32
  if version ≠ 1 then throw (.malformed ("unsupported signature version " ++ toString version))
  let publicKey ← string
  let nameSpace ← utf8String
  let _reserved ← string
  let hashAlgorithm ← utf8String
  let signature ← string
  return (publicKey, nameSpace, hashAlgorithm, signature)

/-- An envelope with nothing behind it. -/
def readEnvelope : Read (Bytes × String × String × Bytes) := do
  let fields ← readFields
  if !(← isEmpty) then throw (.malformed "trailing bytes after the signature")
  return fields

/-- The algorithm of a signature, and what a hardware key says in it. -/
def readSignature : Read (String × Option SkFlags) := do
  let algorithm ← utf8String
  let _raw ← string
  if isSk algorithm then
    let flags ← u8
    let counter ← u32
    return (algorithm, some (skFlagsOf flags counter))
  else return (algorithm, none)

/-- Read an armored signature without verifying it. -/
def parse (armored : String) : Except SignatureError SshSignature := do
  let blob ← dearmor armored
  let (publicKey, nameSpace, hashAlgorithm, signature) ← readEnvelope.run' (.new blob)
  let publicKeyAlgorithm ← utf8String.run' (.new publicKey)
  let (algorithm, skFlags) ← readSignature.run' (.new signature)
  return { algorithm, nameSpace, hashAlgorithm, skFlags, publicKeyBlob := publicKey
           publicKeyAlgorithm }

/-! ### Decoding what was encoded -/

set_option maxRecDepth 8000 in
theorem digitValue_alphabet : ∀ i : Fin 64, digitValue (alphabet.getD i '=') = some i.val ∧
      Text.isWhitespace (alphabet.getD i '=') = false ∧ alphabet.getD i '=' ≠ '=' := by
  decide

theorem dash_not_mem_alphabet : '-' ∉ alphabet := by
  decide

namespace Decoder

variable {d : Decoder} {v : Nat}

theorem step_alphabet (h : v < 64) : d.step (alphabet.getD v '=') = .ok (d.push v) := by
  obtain ⟨hv, hw, hp⟩ := digitValue_alphabet ⟨v, h⟩
  rw [step, if_neg (not_or.mpr ⟨ne_true_of_eq_false hw, hp⟩), hv]

@[simp] theorem step_padding : d.step '=' = .ok d := by
  rw [step, if_pos (Or.inr rfl)]

theorem step_whitespace {c : Char} (h : Text.isWhitespace c = true) : d.step c = .ok d := by
  rw [step, if_pos (Or.inl h)]

/-- Shifting makes room for the next six bits. -/
theorem shifted_or {a : Nat} (h : v < 64) : (a <<< 6) % 2 ^ 32 ||| v = a * 64 % 2 ^ 32 + v := by
  have hs : (a <<< 6) % 2 ^ 32 = (a % 2 ^ 26) <<< 6 := by
    rw [Nat.shiftLeft_eq, Nat.shiftLeft_eq]
    omega
  rw [hs, ← Nat.shiftLeft_add_eq_or_of_lt (by omega), Nat.shiftLeft_eq]
  omega

/-- What a decoder has read, how many bits are open, and the digit they are the end of. -/
def At (d : Decoder) (decoded : Bytes) (bits digit : Nat) : Prop :=
  d.decoded = decoded ∧ d.bits = bits ∧ d.accumulator % 64 = digit

variable {read : Bytes}

theorem push_first (hd : d.decoded = read) (hb : d.bits = 0) (h : v < 64) :
    (d.push v).At read 6 v := by
  rw [push, shifted_or h, hb, if_neg (by omega)]
  exact ⟨hd, rfl, by simp only; omega⟩

/-- A digit that completes a byte: the bits that were open, and the first of its own. -/
theorem push_full {o u : Nat} (hd : d.At read (o + 2) u) (ho : o ≤ 4) (h : v < 64) :
    (d.push v).At (read ++ [UInt8.ofNat (u * 2 ^ (6 - o) + v / 2 ^ o)]) o v := by
  obtain ⟨rfl, hb, hu⟩ := hd
  rw [push, shifted_or h, hb, if_pos (by omega)]
  refine ⟨?_, by simp, by simp only; omega⟩
  simp only
  rw [Nat.shiftRight_eq_div_pow]
  congr 2
  apply UInt8.toNat_inj.mp
  simp only [UInt8.toNat_ofNat']
  interval_cases o <;> simp <;> omega

end Decoder

/-- The digit at a place of a chunk's number. -/
def digitAt (value place : Nat) : Nat := value / 2 ^ (18 - 6 * place) % 64

theorem digitAt_lt (n p : Nat) : digitAt n p < 64 := Nat.mod_lt _ (by omega)

theorem encodeChunk_eq (ch : Bytes) : encodeChunk ch = (List.range 4).map fun pos =>
      if pos ≤ ch.length then alphabet.getD
        (digitAt (fromBeBytes (ch ++ List.replicate (3 - ch.length) 0)) pos) '='
      else '=' := by
  unfold encodeChunk digitAt
  simp only [Nat.shiftRight_eq_div_pow, show (0x3f : Nat) = 2 ^ 6 - 1 from rfl,
    Nat.and_two_pow_sub_one_eq_mod]

variable {d : Decoder} {read : Bytes} {a b c : UInt8}

theorem foldlM_digit {v : Nat} (h : v < 64) (text : List Char) :
    (alphabet.getD v '=' :: text).foldlM Decoder.step d = text.foldlM Decoder.step (d.push v) := by
  rw [foldlM_cons, Decoder.step_alphabet h]
  rfl

/-- The bytes that the digits of a number stand for. -/
theorem digits_bytes {n : Nat} (hn : n = a.toNat * 65536 + b.toNat * 256 + c.toNat) :
    UInt8.ofNat (digitAt n 0 * 2 ^ (6 - 4) + digitAt n 1 / 2 ^ 4) = a ∧
      UInt8.ofNat (digitAt n 1 * 2 ^ (6 - 2) + digitAt n 2 / 2 ^ 2) = b ∧
      UInt8.ofNat (digitAt n 2 * 2 ^ (6 - 0) + digitAt n 3 / 2 ^ 0) = c := by
  have ha := a.toNat_lt
  have hb := b.toNat_lt
  have hc := c.toNat_lt
  refine ⟨?_, ?_, ?_⟩ <;> apply UInt8.toNat_inj.mp <;>
    simp only [UInt8.toNat_ofNat', digitAt] <;> omega

/-- The characters of a whole chunk give its bytes and leave no bits open. -/
theorem foldlM_whole (hd : d.decoded = read) (hb : d.bits = 0) (text : List Char) :
    ∃ d', (encodeChunk [a, b, c] ++ text).foldlM Decoder.step d = text.foldlM Decoder.step d' ∧
      d'.decoded = read ++ [a, b, c] ∧ d'.bits = 0 := by
  obtain ⟨n, hn⟩ : ∃ n, n = fromBeBytes [a, b, c] := ⟨_, rfl⟩
  have h1 := Decoder.push_first hd hb (digitAt_lt n 0)
  have h2 := Decoder.push_full h1 (by omega) (digitAt_lt n 1)
  have h3 := Decoder.push_full h2 (by omega) (digitAt_lt n 2)
  have h4 := Decoder.push_full h3 (by omega) (digitAt_lt n 3)
  obtain ⟨ha, hb', hc⟩ := digits_bytes (a := a) (b := b) (c := c) (n := n) (by
    rw [hn]
    simp only [fromBeBytes, foldl_cons, foldl_nil]
    omega)
  have he : encodeChunk [a, b, c] = [alphabet.getD (digitAt n 0) '=',
      alphabet.getD (digitAt n 1) '=', alphabet.getD (digitAt n 2) '=',
      alphabet.getD (digitAt n 3) '='] := by
    rw [encodeChunk_eq, hn]
    rfl
  refine ⟨_, ?_, h4.1.trans ?_, h4.2.1⟩
  · rw [he]
    simp only [cons_append, nil_append, foldlM_digit (digitAt_lt _ _)]
  · rw [ha, hb', hc]
    simp

theorem foldlM_one (hd : d.decoded = read) (hb : d.bits = 0) :
    ∃ d', (encodeChunk [a]).foldlM Decoder.step d = .ok d' ∧ d'.decoded = read ++ [a] := by
  obtain ⟨n, hn⟩ : ∃ n, n = fromBeBytes [a, 0, 0] := ⟨_, rfl⟩
  have h1 := Decoder.push_first hd hb (digitAt_lt n 0)
  have h2 := Decoder.push_full h1 (by omega) (digitAt_lt n 1)
  have ha := (digits_bytes (a := a) (b := 0) (c := 0) (n := n) (by
    rw [hn]
    simp only [fromBeBytes, foldl_cons, foldl_nil]
    omega)).1
  have he : encodeChunk [a] = [alphabet.getD (digitAt n 0) '=', alphabet.getD (digitAt n 1) '=',
      '=', '='] := by
    rw [encodeChunk_eq, hn]
    rfl
  refine ⟨_, ?_, h2.1.trans (by rw [ha])⟩
  rw [he, foldlM_digit (digitAt_lt _ _), foldlM_digit (digitAt_lt _ _), foldlM_cons,
    Decoder.step_padding]
  rfl

theorem foldlM_two (hd : d.decoded = read) (hb : d.bits = 0) :
    ∃ d', (encodeChunk [a, b]).foldlM Decoder.step d = .ok d' ∧ d'.decoded = read ++ [a, b] := by
  obtain ⟨n, hn⟩ : ∃ n, n = fromBeBytes [a, b, 0] := ⟨_, rfl⟩
  have h1 := Decoder.push_first hd hb (digitAt_lt n 0)
  have h2 := Decoder.push_full h1 (by omega) (digitAt_lt n 1)
  have h3 := Decoder.push_full h2 (by omega) (digitAt_lt n 2)
  obtain ⟨ha, hb', -⟩ := digits_bytes (a := a) (b := b) (c := 0) (n := n) (by
    rw [hn]
    simp only [fromBeBytes, foldl_cons, foldl_nil]
    omega)
  have he : encodeChunk [a, b] = [alphabet.getD (digitAt n 0) '=',
      alphabet.getD (digitAt n 1) '=', alphabet.getD (digitAt n 2) '=', '='] := by
    rw [encodeChunk_eq, hn]
    rfl
  refine ⟨_, ?_, h3.1.trans ?_⟩
  · rw [he, foldlM_digit (digitAt_lt _ _), foldlM_digit (digitAt_lt _ _),
      foldlM_digit (digitAt_lt _ _), foldlM_cons, Decoder.step_padding]
    rfl
  · rw [ha, hb']
    simp

/-- Base64 is read back, wherever the decoder stands between two groups. -/
theorem foldlM_encode (bs : Bytes) (hd : d.decoded = read) (hb : d.bits = 0) :
    ∃ d', ((chunks bs).flatMap encodeChunk).foldlM Decoder.step d = .ok d' ∧
      d'.decoded = read ++ bs := by
  induction bs using chunks.induct generalizing d read with
  | case1 a b c rest ih =>
    obtain ⟨d', hs, hr, hz⟩ := foldlM_whole (a := a) (b := b) (c := c) hd hb
      ((chunks rest).flatMap encodeChunk)
    obtain ⟨e, he, hdec⟩ := ih hr hz
    exact ⟨e, by rw [chunks, flatMap_cons, hs, he], by simpa using hdec⟩
  | case2 => exact ⟨d, rfl, by simpa using hd⟩
  | case3 rest hw hn =>
    match rest with
    | [a] => simpa [chunks] using foldlM_one (a := a) hd hb
    | [a, b] => simpa [chunks] using foldlM_two (a := a) (b := b) hd hb
    | [] => exact absurd rfl hn
    | a :: b :: c :: rest => exact absurd rfl (hw a b c rest)

theorem base64Decode_base64Encode (bs : Bytes) : base64Decode (base64Encode bs) = .ok bs := by
  obtain ⟨d, hs, hd⟩ := foldlM_encode (d := ⟨[], 0, 0⟩) bs rfl rfl
  rw [base64Decode, base64Encode, String.toList_ofList, hs]
  exact congrArg _ hd

/-- White space in a text is not looked at. -/
theorem foldlM_filter (text : List Char) : text.foldlM Decoder.step d =
    (text.filter (!Text.isWhitespace ·)).foldlM Decoder.step d := by
  induction text generalizing d with
  | nil => rfl
  | cons c text ih =>
    rw [foldlM_cons]
    by_cases hw : Text.isWhitespace c = true
    · rw [Decoder.step_whitespace hw, filter_cons_of_neg (by simp [hw])]
      exact ih
    · rw [filter_cons_of_pos (by simp [hw]), foldlM_cons]
      exact congrArg _ (funext fun _ => ih)

/-! ### Taking the armor off -/

/-- Base64 between armor lines, broken by any white space. -/
def Armors (armored : String) (bytes : Bytes) : Prop :=
  ∃ lead wrapped trail eol : List Char,
    (∀ c ∈ lead ++ trail, Text.isWhitespace c = true) ∧ (eol = ['\n'] ∨ eol = ['\r', '\n']) ∧
      wrapped.filter (!Text.isWhitespace ·) = (base64Encode bytes).toList ∧
      armored = String.ofList (lead ++ (beginLine ++ eol ++ wrapped ++ eol ++ endLine) ++ trail)

theorem dash_not_mem_base64 (bs : Bytes) : '-' ∉ (base64Encode bs).toList := by
  rw [base64Encode, String.toList_ofList, mem_flatMap]
  rintro ⟨ch, -, h⟩
  rw [encodeChunk_eq, mem_map] at h
  obtain ⟨p, -, h⟩ := h
  split at h
  · rw [getD_eq_getElem?_getD] at h
    rcases hg : alphabet[digitAt (fromBeBytes (ch ++ List.replicate (3 - ch.length) 0)) p]?
      with _ | c
    · simp [hg] at h
    · rw [hg] at h
      exact dash_not_mem_alphabet (h ▸ mem_of_getElem? hg)
  · simp at h

variable {p : Char → Bool}

theorem filter_stripReturn (hr : p '\r' = false) (line : List Char) :
    (stripReturn line).filter p = line.filter p := by
  unfold stripReturn
  split
  · next h =>
    obtain ⟨init, rfl⟩ := List.getLast?_eq_some_iff.mp h
    rw [dropLast_concat, filter_append, filter_cons_of_neg (by simp [hr])]
    simp
  · rfl

/-- Nothing but line ends is lost with the line ends. -/
theorem filter_pieces (hr : p '\r' = false) (hn : p '\n' = false) (text : List Char) :
    ((text.splitOn '\n').map stripReturn).flatten.filter p = text.filter p := by
  rw [filter_flatten, map_map,
    show List.filter p ∘ stripReturn = List.filter p from funext (filter_stripReturn hr),
    ← filter_flatten]
  induction text with
  | nil => rfl
  | cons c text ih =>
    rw [splitOn_cons_eq_if_modifyHead]
    split
    · next hc =>
      rw [flatten_cons, nil_append, ih, beq_iff_eq.mp hc, filter_cons_of_neg (by simp [hn])]
    · obtain ⟨x, xs, hx⟩ := exists_cons_of_ne_nil (splitOn_ne_nil '\n' text)
      rw [hx] at ih ⊢
      rw [modifyHead_cons, flatten_cons, cons_append, filter_cons, filter_cons, ← flatten_cons, ih]

/-- The lines of an armored text, the armor's own ones at both ends. -/
theorem lines_armored {fi w : List Char} (hf : '\n' ∉ fi) :
    lines (fi ++ '\n' :: (w ++ '\n' :: endLine)) =
      stripReturn fi :: (w.splitOn '\n').map stripReturn ++ [endLine] := by
  have hs : (fi ++ '\n' :: (w ++ '\n' :: endLine)).splitOn '\n' =
      (fi :: w.splitOn '\n') ++ [endLine] := by
    rw [splitOn_append_cons_self_of_not_mem hf, splitOn_append_cons_self]
    rfl
  rw [lines, hs]
  simp only [dropLast_concat, getLastD_concat]
  rfl

theorem trim_eq {lead text tr : List Char} (hl : ∀ c ∈ lead, Text.isWhitespace c = true)
    (ht : ∀ c ∈ tr, Text.isWhitespace c = true) :
    trim (lead ++ ('-' :: text ++ ['-']) ++ tr) = '-' :: text ++ ['-'] := by
  rw [trim, append_assoc, dropWhile_append_of_pos hl, cons_append,
    cons_append, dropWhile_cons_of_neg (by decide), ← cons_append,
    ← cons_append, List.rdropWhile, reverse_append,
    dropWhile_append_of_pos (by simpa using ht), reverse_append, reverse_singleton,
    singleton_append, dropWhile_cons_of_neg (by decide)]
  simp

/-- Between the armor lines nothing starts like one. -/
theorem pieces_not_armor {w : List Char} (hd : '-' ∉ w) : ∀ line ∈ (w.splitOn '\n').map stripReturn,
      (!"-----".toList.isPrefixOf line) = true := by
  intro line hm
  have hnil : ((w.splitOn '\n').map stripReturn).flatten.filter (· == '-') = [] := by
    rw [filter_pieces rfl rfl, filter_eq_nil_iff]
    intro c hc
    exact fun he => hd (beq_iff_eq.mp he ▸ hc)
  cases line with
  | nil => rfl
  | cons c line =>
    have hc := filter_eq_nil_iff.mp hnil c (mem_flatten.mpr ⟨_, hm, mem_cons_self⟩)
    have hne : ('-' == c) = false := beq_false_of_ne fun he => hc (he ▸ rfl)
    change (!(('-' == c) && _)) = true
    rw [hne, Bool.false_and, Bool.not_false]

theorem dearmor_eq {fi w : List Char} {bs : Bytes} (hf : fi = beginLine ∨ fi = beginLine ++ ['\r'])
    (hw : w.filter (!Text.isWhitespace ·) = (base64Encode bs).toList) {lead tr : List Char}
    (hb : ∀ c ∈ lead ++ tr, Text.isWhitespace c = true) :
    dearmor (String.ofList (lead ++ (fi ++ '\n' :: (w ++ '\n' :: endLine)) ++ tr)) =
      .ok bs := by
  have hd : '-' ∉ w := fun hm =>
    dash_not_mem_base64 bs (hw ▸ mem_filter.mpr ⟨hm, rfl⟩)
  have hn : '\n' ∉ fi := by
    rcases hf with rfl | rfl <;> decide
  have hs : stripReturn fi = beginLine := by
    rcases hf with rfl | rfl <;> decide
  obtain ⟨text, ht⟩ : ∃ text, fi ++ '\n' :: (w ++ '\n' :: endLine) = '-' :: text ++ ['-'] := by
    obtain ⟨x, hx⟩ : ∃ x, fi = '-' :: x := by
      rcases hf with rfl | rfl <;> exact ⟨_, rfl⟩
    exact ⟨x ++ '\n' :: (w ++ '\n' :: endLine.dropLast), by
      rw [hx, show endLine = endLine.dropLast ++ ['-'] from rfl]
      simp⟩
  have hr := @trim_eq _ text _ (fun c h => hb c (mem_append_left _ h))
    fun c h => hb c (mem_append_right _ h)
  rw [← ht] at hr
  have hk := pieces_not_armor hd
  unfold dearmor
  simp only [String.toList_ofList]
  rw [hr, if_neg, lines_armored hn, hs, filter_append, filter_cons_of_neg (by decide),
    filter_eq_self.mpr hk, filter_cons_of_neg (by decide), filter_nil, append_nil, base64Decode,
    String.toList_ofList, foldlM_filter, filter_pieces rfl rfl, hw]
  · exact base64Decode_base64Encode bs
  · have hb' : beginLine.isPrefixOf (fi ++ '\n' :: (w ++ '\n' :: endLine)) = true := by
      rw [List.isPrefixOf_iff_prefix]
      rcases hf with rfl | rfl
      · exact prefix_append _ _
      · exact (prefix_append _ _).trans (prefix_append _ _)
    have he : endLine.isSuffixOf (fi ++ '\n' :: (w ++ '\n' :: endLine)) = true := by
      rw [isSuffixOf_iff_suffix]
      exact ⟨fi ++ '\n' :: (w ++ ['\n']), by simp⟩
    simp [hb', he]

theorem dearmor_of_armors {ar : String} {bs : Bytes} (h : Armors ar bs) : dearmor ar = .ok bs := by
  obtain ⟨lead, w, tr, eol, hb, rfl | rfl, hw, rfl⟩ := h
  · simpa using dearmor_eq (Or.inl rfl) hw hb
  · have hw' : (w ++ ['\r']).filter (!Text.isWhitespace ·) = (base64Encode bs).toList := by
      rw [filter_append, hw]
      simp [Text.isWhitespace]
    simpa using dearmor_eq (Or.inr rfl) hw' hb

/-! ### Reading what was written -/

/-- Reading takes these bytes from the front and gives this value, whatever is behind them. -/
def Reads {α : Type} (m : Read α) (text : Bytes) (a : α) : Prop :=
  ∀ r rest, r.left = text ++ rest → ∃ r', m.run r = .ok (a, r') ∧ r'.left = rest

namespace Reads

variable {α β : Type} {m : Read α} {f : α → Read β} {s t : Bytes} {x : α} {y : β}

theorem bind (hm : Reads m s x) (hf : Reads (f x) t y) : Reads (m >>= f) (s ++ t) y := by
  intro r rest hr
  obtain ⟨r', hm', hr'⟩ := hm r (t ++ rest) (by rw [hr, append_assoc])
  obtain ⟨r'', hf', hr''⟩ := hf r' rest hr'
  refine ⟨r'', ?_, hr''⟩
  rw [StateT.run_bind, hm']
  exact hf'

theorem pure (x : α) : Reads (pure x) [] x := fun r _ hr => ⟨r, rfl, hr⟩

theorem map (g : α → β) (hm : Reads m s x) : Reads (do return g (← m)) s (g x) := by
  rw [← append_nil s]
  exact hm.bind (.pure (g x))

/-- A whole byte string is read from its start. -/
theorem run'_eq (hm : Reads m s x) : m.run' (.new (s ++ t)) = .ok x := by
  obtain ⟨r', hm', -⟩ := hm (.new (s ++ t)) t rfl
  change Prod.fst <$> m.run (.new (s ++ t)) = .ok x
  rw [hm']
  rfl

end Reads

theorem reads_take (s : Bytes) : Reads (take s.length) s s := by
  intro r rest hr
  have hl := congrArg List.length hr
  have hi := r.inside
  rw [Reader.left, length_drop, length_append] at hl
  have he : r.offset + s.length ≤ r.bytes.length := by
    omega
  refine ⟨{ r with offset := r.offset + s.length, inside := he }, ?_, ?_⟩
  · have ht : (r.bytes.drop r.offset).take s.length = s := by
      change r.left.take s.length = s
      rw [hr, take_left]
    simp [take, he, ht]
    rfl
  · rw [Reader.left, ← drop_drop]
    change List.drop s.length r.left = rest
    rw [hr, drop_left]

/-- A number in four bytes, high first. -/
def be32 (n : UInt32) : Bytes :=
  [24, 16, 8, 0].map fun shift => UInt8.ofNat (n.toNat / 2 ^ shift)

/-- Bytes behind their length. -/
def field (b : Bytes) : Bytes := be32 (UInt32.ofNat b.length) ++ b

theorem reads_u8 (b : UInt8) : Reads u8 [b] b := (reads_take [b]).map (List.headD · 0)

theorem fromBeBytes_be32 (n : UInt32) : UInt32.ofNat (fromBeBytes (be32 n)) = n := by
  apply UInt32.toNat_inj.mp
  have h := n.toNat_lt
  simp only [be32, fromBeBytes, map_cons, map_nil, foldl_cons, foldl_nil,
    UInt8.toNat_ofNat', UInt32.toNat_ofNat']
  omega

theorem reads_u32 (n : UInt32) : Reads u32 (be32 n) n := by
  have h := (reads_take (be32 n)).map fun bs => UInt32.ofNat (fromBeBytes bs)
  rw [fromBeBytes_be32] at h
  exact h

theorem reads_string {b : Bytes} (hb : b.length < 2 ^ 32) : Reads string (field b) b := by
  refine (reads_u32 _).bind ?_
  rw [UInt32.toNat_ofNat', Nat.mod_eq_of_lt hb]
  exact reads_take b

theorem reads_utf8String {text : String} (hb : (utf8 text).length < 2 ^ 32) :
    Reads utf8String (field (utf8 text)) text := by
  rw [← append_nil (field _)]
  refine (reads_string hb).bind ?_
  simp only [fromUtf8_utf8]
  exact .pure text

/-! ### Envelopes -/

/-- What goes into an envelope. The flags and the counter are written for hardware keys only. -/
structure Envelope where
  keyAlgorithm : String
  key : Bytes
  nameSpace : String
  reserved : Bytes
  hashAlgorithm : String
  algorithm : String
  raw : Bytes
  flags : UInt8
  counter : UInt32

namespace Envelope

/-- The blob of the public key. -/
def keyBlob (e : Envelope) : Bytes := field (utf8 e.keyAlgorithm) ++ e.key

/-- The blob of the signature. -/
def signatureBlob (e : Envelope) : Bytes :=
  field (utf8 e.algorithm) ++ (field e.raw ++
    if isSk e.algorithm then [e.flags] ++ be32 e.counter else [])

/-- The bytes of an envelope. -/
def encode (e : Envelope) : Bytes :=
  magic ++ (be32 1 ++ (field e.keyBlob ++ (field (utf8 e.nameSpace) ++ (field e.reserved ++
    (field (utf8 e.hashAlgorithm) ++ field e.signatureBlob)))))

/-- Every part fits the 32 bits of its length. -/
structure Fits (e : Envelope) : Prop where
  keyBlob : e.keyBlob.length < 2 ^ 32
  nameSpace : (utf8 e.nameSpace).length < 2 ^ 32
  reserved : e.reserved.length < 2 ^ 32
  hashAlgorithm : (utf8 e.hashAlgorithm).length < 2 ^ 32
  signatureBlob : e.signatureBlob.length < 2 ^ 32

/-- The signature that an envelope is. -/
def parsed (e : Envelope) : SshSignature :=
  { algorithm := e.algorithm
    nameSpace := e.nameSpace
    hashAlgorithm := e.hashAlgorithm
    skFlags := if isSk e.algorithm then
      some { userPresence := e.flags.toNat.testBit 0
             userVerification := e.flags.toNat.testBit 2
             counter := e.counter }
      else none
    publicKeyBlob := e.keyBlob
    publicKeyAlgorithm := e.keyAlgorithm }

variable {e : Envelope}

theorem Fits.keyAlgorithm (h : e.Fits) : (utf8 e.keyAlgorithm).length < 2 ^ 32 := by
  have hk := h.keyBlob
  rw [Envelope.keyBlob, field] at hk
  simp only [length_append] at hk
  omega

theorem Fits.signature (h : e.Fits) :
    (utf8 e.algorithm).length < 2 ^ 32 ∧ e.raw.length < 2 ^ 32 := by
  have hs := h.signatureBlob
  rw [Envelope.signatureBlob, field, field] at hs
  simp only [length_append] at hs
  omega

theorem skFlagsOf_eq (fl : UInt8) (co : UInt32) : skFlagsOf fl co =
    { userPresence := fl.toNat.testBit 0
      userVerification := fl.toNat.testBit 2
      counter := co } := by
  have ha : ∀ n : Fin 256, (UInt8.ofNat n &&& 0x01 != 0) = n.val.testBit 0 ∧
      (UInt8.ofNat n &&& 0x04 != 0) = n.val.testBit 2 := by
    decide +kernel
  obtain ⟨h0, h2⟩ := ha ⟨fl.toNat, fl.toNat_lt⟩
  simp only [UInt8.ofNat_toNat] at h0 h2
  rw [skFlagsOf, h0, h2]

theorem reads_signature (h : e.Fits) :
    Reads readSignature e.signatureBlob (e.algorithm, e.parsed.skFlags) := by
  refine (reads_utf8String h.signature.1).bind ((reads_string h.signature.2).bind ?_)
  unfold parsed
  by_cases hk : isSk e.algorithm = true
  · simp only [hk, if_true]
    rw [← skFlagsOf_eq]
    exact (reads_u8 _).bind ((reads_u32 _).map _)
  · simp only [hk]
    exact .pure _

theorem reads_fields (h : e.Fits) : Reads readFields e.encode
    (e.keyBlob, e.nameSpace, e.hashAlgorithm, e.signatureBlob) := by
  refine (reads_take magic).bind ?_
  rw [if_neg (not_not_intro rfl)]
  refine (reads_u32 1).bind ?_
  rw [if_neg (not_not_intro rfl)]
  exact (reads_string h.keyBlob).bind <| (reads_utf8String h.nameSpace).bind <|
    (reads_string h.reserved).bind <| (reads_utf8String h.hashAlgorithm).bind <|
    (reads_string h.signatureBlob).map _

theorem readEnvelope_encode (h : e.Fits) : readEnvelope.run' (.new e.encode) =
    .ok (e.keyBlob, e.nameSpace, e.hashAlgorithm, e.signatureBlob) := by
  obtain ⟨r, hr, hl⟩ := reads_fields h (.new e.encode) [] (append_nil _).symm
  have hn : r.bytes.length ≤ r.offset := drop_eq_nil_iff.mp hl
  replace hr : readFields.run (.new e.encode) =
      pure ((e.keyBlob, e.nameSpace, e.hashAlgorithm, e.signatureBlob), r) := hr
  have he : isEmpty.run r = pure (true, r) := by
    rw [show true = decide (r.bytes.length ≤ r.offset) from (decide_eq_true hn).symm]
    rfl
  simp [StateT.run'_eq, readEnvelope, StateT.run_bind, hr, he]
  rfl

end Envelope

/-- Parsing inverts the format. -/
theorem parse_armors : (∀ bs, base64Decode (base64Encode bs) = .ok bs) ∧ ∀ (e : Envelope)
      (ar : String), e.Fits → Armors ar e.encode → parse ar = .ok e.parsed ∧
          e.parsed.opensshPublicKey = e.keyAlgorithm ++ " " ++ base64Encode e.keyBlob := by
  refine ⟨base64Decode_base64Encode, fun e ar hf ha => ⟨?_, rfl⟩⟩
  have hk : utf8String.run' (.new e.keyBlob) = .ok e.keyAlgorithm :=
    (reads_utf8String hf.keyAlgorithm).run'_eq
  have hs : readSignature.run' (.new e.signatureBlob) = .ok (e.algorithm, e.parsed.skFlags) := by
    have hr := (Envelope.reads_signature hf).run'_eq (t := [])
    rwa [append_nil] at hr
  simp only [parse, dearmor_of_armors ha, Envelope.readEnvelope_encode hf, hk, hs, bind,
    Except.bind]
  rfl

/-- A hardware key's signature, touched but without a verified user, in two lines. -/
theorem parse_armors_sample :
    let e : Envelope := ⟨"a", [1], "n", [], "h", "sk-a", [2, 3], 0x01, 5⟩
    ∃ ar, parse ar = .ok e.parsed ∧ e.parsed.skFlags = some ⟨true, false, 5⟩ := by
  intro e
  have hf : e.Fits := ⟨by decide, by decide, by decide, by decide, by decide⟩
  have ha : Armors (String.ofList (beginLine ++ ['\n'] ++ (base64Encode e.encode).toList ++
      ['\n'] ++ endLine)) e.encode := by
    refine ⟨[], _, [], _, by simp, Or.inl rfl, ?_, by simp; rfl⟩
    decide +kernel
  exact ⟨_, (parse_armors.2 e _ hf ha).1, by decide +kernel⟩

end Louiselm.Trust.Sshsig
