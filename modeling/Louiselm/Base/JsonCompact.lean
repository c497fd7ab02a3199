import Mathlib.Tactic.Ring
import Louiselm.Base.Json

/-!
# The compact JSON text

The printer writes no blanks, escapes only quotes, backslashes and control characters, and
gives unsigned integers in decimal. The reader accepts that grammar and inverts the printer
on every document a format must invert, so the two are a `JsonFormat`. Fractional numbers
are outside of both.
-/

namespace Louiselm.Base.Compact
open List Option

/-! ### Decimal numbers -/

/-- The decimal digits of a number with at most `places` of them. -/
def decimal : Nat → Nat → List Char
  | 0, _ => []
  | places + 1, n =>
    if n < 10 then [Hex.digit n] else decimal places (n / 10) ++ [Hex.digit (n % 10)]

/-- The value of a digit. -/
def digitValue (c : Char) : Nat := c.toNat - '0'.toNat

/-- Continue a number over the digits in front of a text. -/
def takeDecimal (value : Nat) : List Char → Nat × List Char
  | [] => (value, [])
  | c :: rest => if c.isDigit then takeDecimal (value * 10 + digitValue c) rest
    else (value, c :: rest)

/-- No digit follows, so a number ends here. -/
def NumberEnd (rest : List Char) : Prop := ∀ c ∈ rest.head?, c.isDigit = false

private theorem digit_spec : ∀ n < 10, (Hex.digit n).isDigit = true ∧ digitValue (Hex.digit n) =
    n := by
  decide

private theorem isDigit_decimal (p n : Nat) : ∀ c ∈ decimal p n, c.isDigit = true := by
  induction p generalizing n with
  | zero => simp [decimal]
  | succ p ih =>
    intro c hc
    rw [decimal] at hc
    split at hc
    · next h =>
      rw [mem_singleton.mp hc]
      exact (digit_spec n h).1
    · rcases mem_append.mp hc with hc | hc
      · exact ih _ c hc
      · rw [mem_singleton.mp hc]
        exact (digit_spec (n % 10) (by omega)).1

variable {rest : List Char}

private theorem takeDecimal_append {di : List Char} (val : Nat) (h : ∀ c ∈ di, c.isDigit = true) :
    takeDecimal val (di ++ rest) =
      takeDecimal (di.foldl (fun v c => v * 10 + digitValue c) val) rest := by
  induction di generalizing val with
  | nil => rfl
  | cons c di ih =>
    rw [cons_append, takeDecimal, if_pos (h c (by simp))]
    exact ih _ (fun d hd => h d (by simp [hd]))

private theorem foldl_decimal (p n : Nat) (h : n < 10 ^ p) :
    (decimal p n).foldl (fun v c => v * 10 + digitValue c) 0 = n := by
  induction p generalizing n with
  | zero =>
    obtain rfl : n = 0 := by simpa using h
    rfl
  | succ p ih =>
    rw [decimal]
    split
    · next hl => simp [digit_spec n hl]
    · next hg =>
      rw [foldl_append, ih (n / 10) (by rw [Nat.pow_succ] at h; omega), foldl_cons,
        foldl_nil, (digit_spec (n % 10) (by omega)).2]
      omega

private theorem takeDecimal_end (val : Nat) (h : NumberEnd rest) :
    takeDecimal val rest = (val, rest) := by
  cases rest with
  | nil => rfl
  | cons c rest =>
    have hc := h c (by simp)
    simp [takeDecimal, hc]

/-- A printed number is read back up to where it ends. -/
theorem takeDecimal_decimal {p n : Nat} (h : n < 10 ^ p) (hr : NumberEnd rest) :
    takeDecimal 0 (decimal p n ++ rest) = (n, rest) := by
  rw [takeDecimal_append 0 (isDigit_decimal p n), foldl_decimal p n h, takeDecimal_end n hr]

private theorem decimal_head (p n : Nat) :
    ∃ c rest, decimal (p + 1) n = c :: rest ∧ c.isDigit = true := by
  cases h : decimal (p + 1) n with
  | nil =>
    rw [decimal] at h
    split at h <;> simp at h
  | cons c rest => exact ⟨c, rest, rfl, isDigit_decimal (p + 1) n c (by simp [h])⟩

/-! ### Texts -/

/-- A character inside quotes. -/
def escape (c : Char) : List Char :=
  if c = '"' then ['\\', '"']
  else if c = '\\' then ['\\', '\\']
  else if c = '\x08' then ['\\', 'b']
  else if c = '\t' then ['\\', 't']
  else if c = '\n' then ['\\', 'n']
  else if c = '\x0c' then ['\\', 'f']
  else if c = '\r' then ['\\', 'r']
  else if c.toNat < 32 then
    ['\\', 'u', '0', '0', Hex.digit (c.toNat / 16), Hex.digit (c.toNat % 16)]
  else [c]

/-- The character named after a backslash, and what follows. -/
def unescape : List Char → Option (Char × List Char)
  | '"' :: rest => some ('"', rest)
  | '\\' :: rest => some ('\\', rest)
  | 'b' :: rest => some ('\x08', rest)
  | 't' :: rest => some ('\t', rest)
  | 'n' :: rest => some ('\n', rest)
  | 'f' :: rest => some ('\x0c', rest)
  | 'r' :: rest => some ('\r', rest)
  | 'u' :: '0' :: '0' :: high :: low :: rest =>
    match Hex.nibble high, Hex.nibble low with
    | some h, some l => some (Char.ofNat (16 * h + l), rest)
    | _, _ => none
  | _ => none

/-- Read up to the closing quote, with fuel for each character. -/
def readText : Nat → List Char → Option (List Char × List Char)
  | 0, _ => none
  | _ + 1, [] => none
  | fuel + 1, c :: rest =>
    if c = '"' then some ([], rest)
    else if c = '\\' then
      (unescape rest).bind fun (d, rest) =>
        (readText fuel rest).map fun (text, rest) => (d :: text, rest)
    else (readText fuel rest).map fun (text, rest) => (c :: text, rest)

/-- The rest of a text after its opening quote. -/
def printText (text : List Char) : List Char := text.flatMap escape ++ ['"']

private theorem readText_escape (f : Nat) (c : Char) (rest : List Char) : readText (f + 1)
    (escape c ++ rest) = (readText f rest).map fun (t, rest) => (c :: t, rest) := by
  unfold escape
  iterate 7
    split
    · next h => subst h; simp [readText, unescape]
  split
  · next h =>
    have hc : Char.ofNat (16 * (c.toNat / 16) + c.toNat % 16) = c := by
      rw [Nat.div_add_mod]
      exact Char.ofNat_toNat c
    simp [readText, unescape, Hex.nibble_digit (show c.toNat / 16 < 16 by omega),
      Hex.nibble_digit (show c.toNat % 16 < 16 by omega), hc]
  · next hq hb _ _ _ _ _ _ => simp [readText, hq, hb]

/-- A printed text is read back up to its closing quote. -/
theorem readText_printText (t : List Char) (f : Nat) (rest : List Char)
    (h : t.length < f) : readText f (printText t ++ rest) = some (t, rest) := by
  induction t generalizing f with
  | nil =>
    obtain ⟨f, rfl⟩ : ∃ k, f = k + 1 := ⟨f - 1, by omega⟩
    rfl
  | cons c t ih =>
    rw [length_cons] at h
    obtain ⟨f, rfl⟩ : ∃ k, f = k + 1 := ⟨f - 1, by omega⟩
    have hp : printText (c :: t) ++ rest = escape c ++ (printText t ++ rest) := by
      simp [printText]
    rw [hp, readText_escape, ih f (by omega)]
    rfl

private theorem length_le_printText (t : List Char) : t.length < (printText t).length := by
  have h : t.length ≤ (t.flatMap escape).length := by
    induction t with
    | nil => simp
    | cons c t ih =>
      have hc : 1 ≤ (escape c).length := by
        unfold escape
        repeat' split
        all_goals simp
      rw [flatMap_cons, length_append, length_cons]
      omega
  rw [printText, length_append, length_singleton]
  omega

/-! ### Documents -/

/-- Most decimal digits a 64-bit number has. -/
def maxPlaces : Nat := 20

def printNumber : JsonNumber → List Char
  | .nat n => decimal maxPlaces n.toNat
  | .neg n => '-' :: decimal maxPlaces n.toInt.natAbs
  | .float _ => "null".toList

mutual
/-- The compact text of a document. -/
def print : Json → List Char
  | .null => "null".toList
  | .bool true => "true".toList
  | .bool false => "false".toList
  | .num n => printNumber n
  | .str s => '"' :: printText s.toList
  | .arr [] => ['[', ']']
  | .arr (item :: items) => '[' :: (print item ++ printItems items)
  | .obj [] => ['\x7b', '\x7d']
  | .obj ((key, value) :: members) =>
    '\x7b' :: '"' :: (printText key.toList ++ ':' :: (print value ++ printMembers members))

/-- The items after the first, and the closing bracket. -/
def printItems : List Json → List Char
  | [] => [']']
  | item :: items => ',' :: (print item ++ printItems items)

/-- The members after the first, and the closing brace. -/
def printMembers : List (String × Json) → List Char
  | [] => ['\x7d']
  | (key, value) :: members =>
    ',' :: '"' :: (printText key.toList ++ ':' :: (print value ++ printMembers members))
end

/-- Read a number, whose first character is given. -/
def readNumber (c : Char) (rest : List Char) : Option (Json × List Char) :=
  if c = '-' then
    let (n, rest) := takeDecimal 0 rest
    if 0 < n ∧ n ≤ 2 ^ 63 then some (.num (.neg (Int64.ofInt (-n))), rest) else none
  else if c.isDigit then
    let (n, rest) := takeDecimal 0 (c :: rest)
    if n < UInt64.size then some (.num (.nat (UInt64.ofNat n)), rest) else none
  else none

/-- Read a member's quoted key and its colon. -/
def readKey : List Char → Option (String × List Char)
  | c :: rest =>
    if c = '"' then
      match readText rest.length rest with
      | some (key, d :: rest) => if d = ':' then some (String.ofList key, rest) else none
      | _ => none
    else none
  | [] => none

mutual
/-- Read one document and return what follows it. -/
def readValue : Nat → List Char → Option (Json × List Char)
  | 0, _ => none
  | _ + 1, [] => none
  | fuel + 1, c :: rest =>
    if c = 'n' then (stripPrefix ['u', 'l', 'l'] rest).map fun rest => (.null, rest)
    else if c = 't' then (stripPrefix ['r', 'u', 'e'] rest).map fun rest => (.bool true, rest)
    else if c = 'f' then
      (stripPrefix ['a', 'l', 's', 'e'] rest).map fun rest => (.bool false, rest)
    else if c = '"' then
      (readText rest.length rest).map fun (text, rest) => (.str (String.ofList text), rest)
    else if c = '[' then
      match stripPrefix [']'] rest with
      | some rest => some (.arr [], rest)
      | none => do
        let (item, rest) ← readValue fuel rest
        let (items, rest) ← readItems fuel rest
        return (.arr (item :: items), rest)
    else if c = '\x7b' then
      match stripPrefix ['\x7d'] rest with
      | some rest => some (.obj [], rest)
      | none => do
        let (key, rest) ← readKey rest
        let (value, rest) ← readValue fuel rest
        let (members, rest) ← readMembers fuel rest
        return (.obj ((key, value) :: members), rest)
    else readNumber c rest

/-- Read the items after the first, up to the closing bracket. -/
def readItems : Nat → List Char → Option (List Json × List Char)
  | 0, _ => none
  | _ + 1, [] => none
  | fuel + 1, c :: rest =>
    if c = ']' then some ([], rest)
    else if c = ',' then do
      let (item, rest) ← readValue fuel rest
      let (items, rest) ← readItems fuel rest
      return (item :: items, rest)
    else none

/-- Read the members after the first, up to the closing brace. -/
def readMembers : Nat → List Char → Option (List (String × Json) × List Char)
  | 0, _ => none
  | _ + 1, [] => none
  | fuel + 1, c :: rest =>
    if c = '\x7d' then some ([], rest)
    else if c = ',' then do
      let (key, rest) ← readKey rest
      let (value, rest) ← readValue fuel rest
      let (members, rest) ← readMembers fuel rest
      return ((key, value) :: members, rest)
    else none
end

/-- Read a whole text as one document. -/
def read (text : String) : Option Json :=
  match readValue text.toList.length text.toList with
  | some (v, []) => some v
  | _ => none

/-! ### Reading what was printed -/

/-- A document is read back from its text, whatever follows it. -/
def Reads (v : Json) : Prop :=
  ∀ (fuel : Nat) (rest : List Char), (print v).length ≤ fuel → NumberEnd rest →
    readValue fuel (print v ++ rest) = some (v, rest)

private theorem numberEnd_of_ne {c : Char} (rest : List Char) (h : c.isDigit = false) :
    NumberEnd (c :: rest) := by
  intro d hd
  rw [List.head?_cons, Option.mem_some_iff] at hd
  rw [← hd]
  exact h

private theorem numberEnd_printItems (xs : List Json) (rest : List Char) :
    NumberEnd (printItems xs ++ rest) := by
  cases xs with
  | nil => exact numberEnd_of_ne _ (by decide)
  | cons x xs => exact numberEnd_of_ne _ (by decide)

private theorem numberEnd_printMembers (ms : List (String × Json)) (rest : List Char) :
    NumberEnd (printMembers ms ++ rest) := by
  cases ms with
  | nil => exact numberEnd_of_ne _ (by decide)
  | cons m ms => exact numberEnd_of_ne _ (by decide)

private theorem stripPrefix_ne {c d : Char} (rest : List Char) (h : c ≠ d) :
    stripPrefix [c] (d :: rest) = none := by
  simp [stripPrefix, h]

variable {v : Json}

private theorem print_head {d : Nat} (h : v.Fits d) : ∃ c rest, print v = c :: rest ∧ c ≠ ']' := by
  cases v with
  | null => exact ⟨'n', _, rfl, by decide⟩
  | bool b => cases b <;> exact ⟨_, _, rfl, by decide⟩
  | num n =>
    obtain ⟨u, rfl⟩ : ∃ u, n = .nat u := by cases d <;> exact h
    obtain ⟨c, rest, hd, hc⟩ := decimal_head 19 u.toNat
    refine ⟨c, rest, by simpa [print, printNumber, maxPlaces] using hd, ?_⟩
    rintro rfl
    exact absurd hc (by decide)
  | str s => exact ⟨'"', _, rfl, by decide⟩
  | arr xs => cases xs <;> exact ⟨'[', _, rfl, by decide⟩
  | obj ms => cases ms <;> exact ⟨'\x7b', _, rfl, by decide⟩

private theorem reads_nat (u : UInt64) : Reads (.num (.nat u)) := by
  intro f rest hf hr
  have hu : u.toNat < 10 ^ maxPlaces := Nat.lt_trans u.toNat_lt (by decide)
  obtain ⟨c, di, hd, hc⟩ := decimal_head 19 u.toNat
  have ht := takeDecimal_decimal hu hr
  have hp : print (.num (.nat u)) = c :: di := by
    simpa [print, printNumber, maxPlaces] using hd
  rw [hp, length_cons] at hf
  obtain ⟨f, rfl⟩ : ∃ k, f = k + 1 := ⟨f - 1, by omega⟩
  have hn : ∀ d : Char, d.isDigit = false → c ≠ d := by
    rintro d hd rfl
    simp [hc] at hd
  have ha : takeDecimal 0 (c :: (di ++ rest)) = (u.toNat, rest) := by
    rwa [show decimal maxPlaces u.toNat = c :: di from hd] at ht
  rw [hp, cons_append, readValue, if_neg (hn 'n' (by decide)), if_neg (hn 't' (by decide)),
    if_neg (hn 'f' (by decide)), if_neg (hn '"' (by decide)), if_neg (hn '[' (by decide)),
    if_neg (hn '\x7b' (by decide)), readNumber, if_neg (hn '-' (by decide)), if_pos hc, ha]
  simp [u.toNat_lt_size]

private theorem readKey_print (key : String) (rest : List Char) :
    readKey ('"' :: (printText key.toList ++ ':' :: rest)) = some (key, rest) := by
  rw [readKey, if_pos rfl, readText_printText]
  · simp
  · have := length_le_printText key.toList
    rw [length_append]
    omega

private theorem readItems_print (xs : List Json) (h : ∀ it ∈ xs, Reads it)
    (f : Nat) (rest : List Char) (hf : (printItems xs).length ≤ f) :
    readItems f (printItems xs ++ rest) = some (xs, rest) := by
  induction xs generalizing f with
  | nil =>
    obtain ⟨f, rfl⟩ : ∃ k, f = k + 1 := ⟨f - 1, by simp [printItems] at hf; omega⟩
    rfl
  | cons it xs ih =>
    rw [printItems, length_cons, length_append] at hf
    obtain ⟨f, rfl⟩ : ∃ k, f = k + 1 := ⟨f - 1, by omega⟩
    have hv := h it (by simp) f (printItems xs ++ rest) (by omega) (numberEnd_printItems xs rest)
    have hi := ih (fun x hx => h x (by simp [hx])) f (by omega)
    rw [printItems, cons_append, append_assoc, readItems, if_neg (by decide), if_pos rfl]
    simp only [hv, hi, bind_eq_bind, bind_some]
    rfl

private theorem readMembers_print (ms : List (String × Json)) (h : ∀ m ∈ ms, Reads m.2) (f : Nat)
    (rest : List Char) (hf : (printMembers ms).length ≤ f) :
    readMembers f (printMembers ms ++ rest) = some (ms, rest) := by
  induction ms generalizing f with
  | nil =>
    obtain ⟨f, rfl⟩ : ∃ k, f = k + 1 := ⟨f - 1, by simp [printMembers] at hf; omega⟩
    rfl
  | cons m ms ih =>
    obtain ⟨key, val⟩ := m
    simp only [printMembers, length_cons, length_append] at hf
    obtain ⟨f, rfl⟩ : ∃ k, f = k + 1 := ⟨f - 1, by omega⟩
    have hr : Reads val := h (key, val) (by simp)
    have hv := hr f (printMembers ms ++ rest) (by omega) (numberEnd_printMembers ms rest)
    have hm := ih (fun x hx => h x (by simp [hx])) f (by omega)
    have hp : printMembers ((key, val) :: ms) ++ rest = ',' :: '"' :: (printText key.toList ++
          ':' :: (print val ++ (printMembers ms ++ rest))) := by
      simp [printMembers]
    rw [hp, readMembers, if_neg (by decide), if_pos rfl]
    simp only [readKey_print, hv, hm, Option.bind_eq_bind, Option.bind_some]
    rfl

private theorem reads_arr {xs : List Json} (h : ∀ it ∈ xs, Reads it)
    (hh : ∀ it ∈ xs.head?, ∃ c rest, print it = c :: rest ∧ c ≠ ']') : Reads (.arr xs) := by
  intro f rest hf _
  cases xs with
  | nil =>
    obtain ⟨f, rfl⟩ : ∃ k, f = k + 1 := ⟨f - 1, by simp [print] at hf; omega⟩
    rfl
  | cons it xs =>
    rw [print, List.length_cons, List.length_append] at hf
    obtain ⟨f, rfl⟩ : ∃ k, f = k + 1 := ⟨f - 1, by omega⟩
    have hv := h it (by simp) f (printItems xs ++ rest) (by omega) (numberEnd_printItems xs rest)
    have hi := readItems_print xs (fun x hx => h x (by simp [hx])) f rest (by omega)
    have hs : stripPrefix [']'] (print it ++ (printItems xs ++ rest)) = none := by
      obtain ⟨c, t, hc, hn⟩ := hh it rfl
      rw [hc]
      exact stripPrefix_ne _ hn.symm
    rw [print, List.cons_append, List.append_assoc, readValue, if_neg (by decide),
      if_neg (by decide), if_neg (by decide), if_neg (by decide), if_pos rfl, hs]
    simp only [hv, hi, Option.bind_eq_bind, Option.bind_some]
    rfl

private theorem reads_obj {ms : List (String × Json)}
    (h : ∀ m ∈ ms, Reads m.2) : Reads (.obj ms) := by
  intro f rest hf _
  cases ms with
  | nil =>
    obtain ⟨f, rfl⟩ : ∃ k, f = k + 1 := ⟨f - 1, by simp [print] at hf; omega⟩
    rfl
  | cons m ms =>
    obtain ⟨key, val⟩ := m
    simp only [print, List.length_cons, List.length_append] at hf
    obtain ⟨f, rfl⟩ : ∃ k, f = k + 1 := ⟨f - 1, by omega⟩
    have hr : Reads val := h (key, val) (by simp)
    have hv := hr f (printMembers ms ++ rest) (by omega) (numberEnd_printMembers ms rest)
    have hm := readMembers_print ms (fun x hx => h x (by simp [hx])) f rest (by omega)
    have hp : print (.obj ((key, val) :: ms)) ++ rest = '\x7b' :: '"' :: (printText key.toList ++
          ':' :: (print val ++ (printMembers ms ++ rest))) := by
      simp [print]
    rw [hp, readValue, if_neg (by decide), if_neg (by decide), if_neg (by decide),
      if_neg (by decide), if_neg (by decide), if_pos rfl, stripPrefix_ne _ (by decide)]
    simp only [readKey_print, hv, hm, bind_eq_bind, bind_some]
    rfl

private theorem reads_str (t : String) : Reads (.str t) := by
  intro f rest hf _
  obtain ⟨f, rfl⟩ : ∃ k, f = k + 1 := ⟨f - 1, by simp [print] at hf; omega⟩
  have hl : t.toList.length < (printText t.toList ++ rest).length := by
    have := length_le_printText t.toList
    rw [length_append]
    omega
  rw [print, cons_append, readValue, if_neg (by decide), if_neg (by decide),
    if_neg (by decide), if_pos rfl, readText_printText _ _ _ hl]
  simp

private theorem reads_word (h : v = .null ∨ ∃ b, v = .bool b) : Reads v := by
  intro f rest hf _
  obtain rfl | ⟨b, rfl⟩ := h
  · obtain ⟨f, rfl⟩ : ∃ k, f = k + 1 := ⟨f - 1, by simp [print] at hf; omega⟩
    rfl
  · cases b
    · obtain ⟨f, rfl⟩ : ∃ k, f = k + 1 := ⟨f - 1, by simp [print] at hf; omega⟩
      rfl
    · obtain ⟨f, rfl⟩ : ∃ k, f = k + 1 := ⟨f - 1, by simp [print] at hf; omega⟩
      rfl

/-- A document of any depth without negative or fractional numbers is read back. -/
theorem reads_of_fits {d : Nat} (h : v.Fits d) : Reads v := by
  induction d generalizing v with
  | zero =>
    cases v with
    | null => exact reads_word (.inl rfl)
    | bool b => exact reads_word (.inr ⟨b, rfl⟩)
    | num n =>
      obtain ⟨u, rfl⟩ := h
      exact reads_nat u
    | str t => exact reads_str t
    | arr xs => exact False.elim h
    | obj ms => exact False.elim h
  | succ d ih =>
    cases v with
    | null => exact reads_word (.inl rfl)
    | bool b => exact reads_word (.inr ⟨b, rfl⟩)
    | num n =>
      obtain ⟨u, rfl⟩ := h
      exact reads_nat u
    | str t => exact reads_str t
    | arr xs =>
      refine reads_arr (fun x hi => ih (h x hi)) (fun x hi => ?_)
      exact print_head (h x (mem_of_mem_head? hi))
    | obj ms => exact reads_obj (fun m hm => ih (h m hm))

/-- The compact text as a format. -/
def format : JsonFormat where
  print v := String.ofList (print v)
  read := read
  read_print := fun v h => by
    have hv := reads_of_fits h (print v).length [] (Nat.le_refl _) (by simp [NumberEnd])
    rw [append_nil] at hv
    simp [read, hv]

/-! ### Length bounds -/

mutual
/-- A bound on the length of the text of a document. -/
def weight : Json → Nat
  | .null => 4
  | .bool _ => 5
  | .num _ => maxPlaces + 4
  | .str s => 6 * s.utf8ByteSize + 2
  | .arr items => weightItems items + 2
  | .obj members => weightMembers members + 2

def weightItems : List Json → Nat
  | [] => 0
  | item :: items => weight item + 1 + weightItems items

def weightMembers : List (String × Json) → Nat
  | [] => 0
  | (key, value) :: members =>
    6 * key.utf8ByteSize + 4 + weight value + weightMembers members
end

theorem weight_obj (ms : List (String × Json)) :
    weight (.obj ms) = 6 * (ms.map (·.1.utf8ByteSize)).sum + 4 * ms.length +
      (ms.map fun m => weight m.2).sum + 2 := by
  rw [weight, Nat.add_right_cancel_iff]
  induction ms with
  | nil => rfl
  | cons m ms ih =>
    rw [weightMembers, ih, map_cons, map_cons, sum_cons, sum_cons, length_cons]
    omega

private theorem length_decimal_le (p n : Nat) : (decimal p n).length ≤ p := by
  induction p generalizing n with
  | zero => simp [decimal]
  | succ p ih =>
    rw [decimal]
    split
    · simp
    · have := ih (n / 10)
      simp only [length_append, length_singleton]
      omega

private theorem length_toList_le (t : String) : t.toList.length ≤ t.utf8ByteSize := by
  rw [← String.ofList_toList (s := t)]
  induction t.toList with
  | nil => simp
  | cons c t ih =>
    have hc := c.utf8Size_pos
    rw [String.toList_ofList] at ih ⊢
    rw [String.ofList_cons, String.utf8ByteSize_append, String.utf8ByteSize_singleton, length_cons]
    omega

private theorem length_printText_le (t : String) :
    (printText t.toList).length ≤ 6 * t.utf8ByteSize + 1 := by
  have hl := length_toList_le t
  have h : (t.toList.flatMap escape).length ≤ 6 * t.toList.length := by
    induction t.toList with
    | nil => simp
    | cons c t ih =>
      have hc : (escape c).length ≤ 6 := by
        unfold escape
        repeat' split
        all_goals simp
      rw [flatMap_cons, length_append, length_cons]
      omega
  rw [printText, length_append, length_singleton]
  omega

mutual
private theorem length_print_le : ∀ v : Json, (print v).length ≤ weight v
  | .null => Nat.le_refl 4
  | .bool true => Nat.le_succ 4
  | .bool false => Nat.le_refl 5
  | .num (.nat n) => by
    have := length_decimal_le maxPlaces n.toNat
    simp only [print, printNumber, weight]
    omega
  | .num (.neg n) => by
    have := length_decimal_le maxPlaces n.toInt.natAbs
    simp only [print, printNumber, weight, length_cons]
    omega
  | .num (.float _) => by
    simp [print, printNumber, weight]
  | .str s => by
    have := length_printText_le s
    simp only [print, weight, length_cons]
    omega
  | .arr [] => Nat.le_refl 2
  | .arr (x :: items) => by
    have := length_print_le x
    have := length_printItems_le items
    simp only [print, weight, weightItems, length_cons, length_append]
    omega
  | .obj [] => Nat.le_refl 2
  | .obj ((key, val) :: members) => by
    have := length_printText_le key
    have := length_print_le val
    have := length_printMembers_le members
    simp only [print, weight, weightMembers, length_cons, length_append]
    omega

private theorem length_printItems_le : ∀ xs : List Json, (printItems xs).length ≤ weightItems xs + 1
  | [] => Nat.le_refl 1
  | item :: xs => by
    have := length_print_le item
    have := length_printItems_le xs
    simp only [printItems, weightItems, length_cons, length_append]
    omega

private theorem length_printMembers_le :
    ∀ ms : List (String × Json), (printMembers ms).length ≤ weightMembers ms + 1
  | [] => Nat.le_refl 1
  | (key, value) :: ms => by
    have := length_printText_le key
    have := length_print_le value
    have := length_printMembers_le ms
    simp only [printMembers, weightMembers, length_cons, length_append]
    omega
end

/-- The bytes of a value are bounded without printing it. -/
theorem length_toVec_le {α : Type} [Serialize α] (a : α) :
    (format.toVec a).length ≤ 4 * weight (toJson a) :=
  Nat.le_trans (length_utf8_ofList_le _) (Nat.mul_le_mul_left 4 (length_print_le _))

end Louiselm.Base.Compact
