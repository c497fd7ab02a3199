import Mathlib.Data.Rat.Cast.Order
import Mathlib.Data.Rat.Cast.Lemmas

/-!
# Values of Lua

Dynamically typed data: booleans, numbers, strings and tables, and what else there is by the
name of its type. Nothing is held under `nil`. A table's fields stand in the order in which they
are iterated over; a number is a rational one, infinite or none.
-/

namespace Louiselm.Base.Lua
open List

inductive Number where
  | finite (q : ℚ)
  | infinite (positive : Bool)
  | nan
deriving DecidableEq, Repr

namespace Number

def ofNat (n : Nat) : Number := .finite n

theorem ofNat_inj {a b : Nat} : ofNat a = ofNat b ↔ a = b := by
  simp [ofNat]

/-- Whether there is nothing left of a division by one. -/
def isWhole : Number → Bool
  | .finite q => q.den == 1
  | _ => false

/-- Whether a number is at most another one. -/
def le : Number → Number → Bool
  | .finite q, .finite r => decide (q ≤ r)
  | .infinite left, .infinite right => !left || right
  | .infinite left, .finite _ => !left
  | .finite _, .infinite right => right
  | .nan, _ => false
  | _, .nan => false

/-- A whole number from one on is a positive number of things. -/
theorem exists_ofNat {n : Number} (hw : n.isWhole = true) (hp : (ofNat 1).le n = true) :
    ∃ k : Nat, 1 ≤ k ∧ n = ofNat k := by
  cases n with
  | finite q =>
    have hd : q.den = 1 := by simpa [isWhole] using hw
    have ho : (1 : ℚ) ≤ q := by simpa [ofNat, le] using hp
    have hn : (q.num : ℚ) = q := Rat.coe_int_num_of_den_eq_one hd
    have hint : 1 ≤ q.num := by
      rw [← hn] at ho
      exact_mod_cast ho
    refine ⟨q.num.toNat, by omega, ?_⟩
    have hc : ((q.num.toNat : ℤ) : ℚ) = (q.num : ℚ) := by
      rw [Int.toNat_of_nonneg (by omega)]
    rw [ofNat, ← hn, ← hc]
    norm_cast
  | infinite _ => simp [isWhole] at hw
  | nan => simp [isWhole] at hw

theorem ofNat_le {a b : Nat} : (ofNat a).le (ofNat b) = decide (a ≤ b) := by
  simp [ofNat, le]

end Number

/-- What a field stands under. Tables and functions do so by their identity. -/
inductive Key where
  | str (text : String)
  | num (number : Number)
  | bool (value : Bool)
  | ref (id : Nat)
deriving DecidableEq, Repr

/-- The types of values that are neither data nor tables. -/
inductive OtherType where
  | function
  | userdata
  | thread
  | cdata
deriving DecidableEq, Repr

def OtherType.name : OtherType → String
  | .function => "function"
  | .userdata => "userdata"
  | .thread => "thread"
  | .cdata => "cdata"

inductive Value where
  | bool (value : Bool)
  | num (number : Number)
  | str (text : String)
  | table (fields : List (Key × Value))
  | other (type : OtherType)

namespace Value

/-- What `type` says of a value or of nothing. -/
def typeName : Option Value → String
  | none => "nil"
  | some (.bool _) => "boolean"
  | some (.num _) => "number"
  | some (.str _) => "string"
  | some (.table _) => "table"
  | some (.other type) => type.name

/-- What is under a key. -/
def get (key : Key) : Value → Option Value
  | .table fields => fields.lookup key
  | _ => none

/-- What is under a name. -/
def field (name : String) (value : Value) : Option Value := value.get (.str name)

def text? : Option Value → Option String
  | some (.str text) => some text
  | _ => none

def number? : Option Value → Option Number
  | some (.num number) => some number
  | _ => none

def isTable : Option Value → Bool
  | some (.table _) => true
  | _ => false

def isTrue : Option Value → Bool
  | some (.bool true) => true
  | _ => false

/-- Whether there is a value that a condition takes for true. -/
def isTruthy : Option Value → Bool
  | none => false
  | some (.bool value) => value
  | some _ => true

/-- The first of two values, where a condition takes it for true, or else the second. -/
def either (first second : Option Value) : Option Value := if isTruthy first then first else second

/-- Put a value under a name. -/
def set (value : Value) (name : String) (item : Value) : Value :=
  match value with
  | .table fields => .table (fields.filter (·.1 != .str name) ++ [(.str name, item)])
  | value => value

theorem field_set_self (fs : List (Key × Value)) (n : String) (x : Value) :
    ((Value.table fs).set n x).field n = some x := by
  have ha : (fs.filter (·.1 != .str n)).lookup (.str n) = none := by
    refine lookup_eq_none_iff.mpr fun o ho => ?_
    have hn := (mem_filter.mp ho).2
    exact bne_iff_ne.mpr fun h => bne_iff_ne.mp hn h.symm
  simp [field, get, set, lookup_append, ha]

theorem field_set_of_ne {fs : List (Key × Value)} {n o : String} (h : o ≠ n)
    (it : Value) : ((Value.table fs).set n it).field o = (Value.table fs).field o := by
  have he : (Key.str o == Key.str n) = false :=
    beq_false_of_ne fun heq => h (Key.str.inj heq)
  have hk : (fs.filter (·.1 != .str n)).lookup (.str o) = fs.lookup (.str o) := by
    induction fs with
    | nil => rfl
    | cons x fs ih =>
      obtain ⟨key, v⟩ := x
      rw [filter_cons, lookup_cons]
      by_cases hf : key = .str n
      · have hs : (Key.str o == key) = false := hf ▸ he
        rw [hs, if_neg (by simp [hf]), ih]
      · rw [if_pos (by simpa using hf), lookup_cons, ih]
  simp only [field, get, set, lookup_append, hk, lookup_cons, he, lookup_nil, Option.or_none]

/-! ### Sequences -/

/-- What is under the whole numbers from one on, up to the first that has nothing. -/
def sequenceFrom (fields : List (Key × Value)) : Nat → Nat → List Value
  | 0, _ => []
  | fuel + 1, i =>
    match fields.lookup (.num (.ofNat i)) with
    | none => []
    | some item => item :: sequenceFrom fields fuel (i + 1)

def sequence : Value → List Value
  | .table fields => sequenceFrom fields fields.length 1
  | _ => []

/-- Whether a table has nothing but its sequence. -/
def isArray : Value → Bool
  | .table fields =>
    let length := (sequenceFrom fields fields.length 1).length
    fields.all fun item =>
      match item.1 with
      | .num number => (Number.ofNat 1).le number && number.isWhole && number.le (.ofNat length)
      | _ => false
  | _ => false

/-- Values under the whole numbers from one on. -/
def numbered : Nat → List Value → List (Key × Value)
  | _, [] => []
  | i, item :: items => (.num (.ofNat i), item) :: numbered (i + 1) items

def array (items : List Value) : Value := .table (numbered 1 items)

theorem length_numbered (i : Nat) (xs : List Value) : (numbered i xs).length = xs.length := by
  induction xs generalizing i with
  | nil => rfl
  | cons x xs ih => simp [numbered, ih]

theorem lookup_numbered (i k : Nat) (xs : List Value) :
    (numbered i xs).lookup (.num (.ofNat (i + k))) = xs[k]? := by
  induction xs generalizing i k with
  | nil => rfl
  | cons x xs ih =>
    rw [numbered, lookup_cons]
    cases k with
    | zero => simp
    | succ k =>
      have he : (Key.num (.ofNat (i + (k + 1))) == Key.num (.ofNat i)) = false := by
        refine beq_false_of_ne fun h => ?_
        have hs := Number.ofNat_inj.mp (Key.num.inj h)
        omega
      have hn : i + (k + 1) = i + 1 + k := by omega
      rw [he, List.getElem?_cons_succ, ← ih (i + 1) k, hn]

theorem sequenceFrom_numbered (xs : List Value) (f k : Nat) (hf : xs.length ≤ f + k) :
    sequenceFrom (numbered 1 xs) f (1 + k) = xs.drop k := by
  induction f generalizing k with
  | zero => exact (drop_eq_nil_of_le (by omega)).symm
  | succ f ih =>
    rw [sequenceFrom, lookup_numbered]
    by_cases hk : k < xs.length
    · rw [List.getElem?_eq_getElem hk, drop_eq_getElem_cons hk, ← ih (k + 1) (by omega)]
      rfl
    · rw [List.getElem?_eq_none (by omega), drop_eq_nil_of_le (by omega)]

/-- An array has the values that it was made of. -/
@[simp] theorem sequence_array (xs : List Value) : (array xs).sequence = xs := by
  have h := sequenceFrom_numbered xs xs.length 0 (Nat.le_refl _)
  simpa [array, sequence, length_numbered] using h

theorem isArray_array (xs : List Value) : (array xs).isArray = true := by
  have hl : (sequenceFrom (numbered 1 xs) (numbered 1 xs).length 1).length =
      xs.length := congrArg List.length (sequence_array xs)
  have hk : ∀ i, ∀ it ∈ numbered i xs, ∃ k, i ≤ k ∧ k < i + xs.length ∧ it.1 = .num (.ofNat k) := by
    clear hl
    induction xs with
    | nil => exact fun i => forall_mem_nil _
    | cons x xs ih =>
      intro i
      refine forall_mem_cons.mpr ⟨⟨i, Nat.le_refl i, by simp, rfl⟩, fun it hi => ?_⟩
      obtain ⟨k, hle, ht, he⟩ := ih (i + 1) it hi
      exact ⟨k, by omega, by simp only [length_cons]; omega, he⟩
  simp only [array, isArray, hl, all_eq_true]
  intro it hi
  obtain ⟨k, hle, ht, he⟩ := hk 1 it hi
  rw [he]
  simp only [Number.ofNat_le, Bool.and_eq_true, decide_eq_true_eq]
  refine ⟨⟨hle, ?_⟩, by omega⟩
  simp [Number.ofNat, Number.isWhole]

end Value
end Louiselm.Base.Lua
