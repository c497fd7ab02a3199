import Mathlib.Algebra.GroupWithZero.Nat
import Mathlib.Data.List.Basic
import Std.Data.String.ToNat

/-!
# Texts under their lengths

A text after its length in bytes and a colon, as in a netstring. Texts written so one after
another, with or without a separator, are told apart whatever they contain.
-/

namespace Louiselm.Base.LengthPrefix
open List

/-- A text after its length in bytes. -/
def framed (text : String) : String := toString text.utf8ByteSize ++ ":" ++ text

/-- The bytes that characters take. -/
def size (chars : List Char) : Nat := (chars.map Char.utf8Size).sum

@[simp] theorem size_cons (c : Char) (ch : List Char) : size (c :: ch) = c.utf8Size + size ch := by
  simp [size]

theorem utf8ByteSize_ofList (ch : List Char) : (String.ofList ch).utf8ByteSize = size ch := by
  induction ch with
  | nil => rfl
  | cons c ch ih =>
    rw [String.ofList_cons, String.utf8ByteSize_append, String.utf8ByteSize_singleton, ih,
      size_cons]

theorem size_toList (t : String) : size t.toList = t.utf8ByteSize := by
  rw [← utf8ByteSize_ofList, String.ofList_toList]

variable {rest os : List Char}

/-- Two beginnings of one text are the same where they take as many bytes. -/
theorem append_inj_of_size {a b : List Char} (hs : size a = size b)
    (h : a ++ rest = b ++ os) : a = b ∧ rest = os := by
  induction a generalizing b with
  | nil =>
    cases b with
    | nil => exact ⟨rfl, h⟩
    | cons c b =>
      have hp := c.utf8Size_pos
      simp [size] at hs
      omega
  | cons c a ih =>
    cases b with
    | nil =>
      have hp := c.utf8Size_pos
      simp [size] at hs
      omega
    | cons d b =>
      rw [cons_append, cons_append, List.cons.injEq] at h
      obtain ⟨rfl, h⟩ := h
      rw [size_cons, size_cons, Nat.add_left_cancel_iff] at hs
      obtain ⟨rfl, hr⟩ := ih hs h
      exact ⟨rfl, hr⟩

/-- What stands before the first character of a kind is told apart from the rest. -/
theorem append_cons_inj {c : Char} {a b : List Char} (ha : c ∉ a) (hb : c ∉ b)
    (h : a ++ c :: rest = b ++ c :: os) : a = b ∧ rest = os := by
  induction a generalizing b with
  | nil =>
    cases b with
    | nil => exact ⟨rfl, (List.cons.inj h).2⟩
    | cons d b =>
      rw [nil_append, cons_append, List.cons.injEq] at h
      exact absurd (h.1 ▸ mem_cons_self) hb
  | cons d a ih =>
    cases b with
    | nil =>
      rw [nil_append, cons_append, List.cons.injEq] at h
      exact absurd (h.1 ▸ mem_cons_self) ha
    | cons e b =>
      rw [cons_append, cons_append, List.cons.injEq] at h
      obtain ⟨rfl, h⟩ := h
      obtain ⟨rfl, hr⟩ := ih (fun hc => ha (mem_cons_of_mem _ hc))
        (fun hc => hb (mem_cons_of_mem _ hc)) h
      exact ⟨rfl, hr⟩

theorem colon_not_mem_repr (n : Nat) : ':' ∉ (toString n).toList := by
  intro h
  have hd : (toString n).toList = Nat.toDigits 10 n := by
    rw [Nat.toString_eq_repr, Nat.repr, String.toList_ofList]
  rw [hd] at h
  exact absurd (Nat.isDigit_of_mem_toDigits (by decide) (by decide) h) (by decide)

theorem toList_framed (t : String) :
    (framed t).toList = (toString t.utf8ByteSize).toList ++ ':' :: t.toList := by
  simp [framed]

theorem framed_ne_nil (t : String) : (framed t).toList ≠ [] := by
  simp [toList_framed]

/-- A framed text is told apart from what follows it. -/
theorem framed_append_inj {a b : String}
    (h : (framed a).toList ++ rest = (framed b).toList ++ os) : a = b ∧ rest = os := by
  rw [toList_framed, toList_framed, append_assoc, append_assoc, cons_append, cons_append] at h
  obtain ⟨hl, h⟩ := append_cons_inj (colon_not_mem_repr _) (colon_not_mem_repr _) h
  have hs : a.utf8ByteSize = b.utf8ByteSize := by
    have hr := String.toList_injective hl
    rwa [Nat.toString_eq_repr, Nat.toString_eq_repr, Nat.repr_inj] at hr
  rw [← size_toList, ← size_toList] at hs
  obtain ⟨ha, he⟩ := append_inj_of_size hs h
  exact ⟨String.toList_injective ha, he⟩

/-- What follows the first text of a row of framed ones. -/
def tail (separator : String) (texts : List String) : List Char :=
  texts.flatMap fun text => separator.toList ++ (framed text).toList

theorem toList_intercalate_cons (s x : String) (t : List String) :
    (s.intercalate ((x :: t).map framed)).toList = (framed x).toList ++ tail s t := by
  induction t generalizing x with
  | nil => simp [tail]
  | cons se t ih =>
    rw [map_cons, map_cons, String.intercalate_cons_cons, String.toList_append,
      String.toList_append, ← map_cons, ih se]
    simp [tail]

theorem tail_inj {s : String} {t os : List String} (h : tail s t = tail s os) : t = os := by
  induction t generalizing os with
  | nil =>
    cases os with
    | nil => rfl
    | cons o os =>
      have he := congrArg List.length h
      have hp := length_pos_iff.mpr (framed_ne_nil o)
      simp only [tail, flatMap_nil, flatMap_cons, length_append, length_nil] at he
      omega
  | cons te t ih =>
    cases os with
    | nil =>
      have he := congrArg List.length h
      have hp := length_pos_iff.mpr (framed_ne_nil te)
      simp only [tail, flatMap_nil, flatMap_cons, length_append, length_nil] at he
      omega
    | cons o os =>
      unfold tail at h
      rw [flatMap_cons, flatMap_cons, append_assoc, append_assoc, append_cancel_left_eq] at h
      obtain ⟨rfl, hr⟩ := framed_append_inj h
      rw [ih hr]

/-- Framed texts with a separator between them are told apart. -/
theorem intercalate_framed_inj {s : String} {t os : List String}
    (h : s.intercalate (t.map framed) = s.intercalate (os.map framed)) : t = os := by
  have hc := congrArg String.toList h
  cases t with
  | nil =>
    cases os with
    | nil => rfl
    | cons o os =>
      rw [toList_intercalate_cons] at hc
      exact absurd (append_eq_nil_iff.mp hc.symm).1 (framed_ne_nil o)
  | cons te t =>
    cases os with
    | nil =>
      rw [toList_intercalate_cons] at hc
      exact absurd (append_eq_nil_iff.mp hc).1 (framed_ne_nil te)
    | cons o os =>
      rw [toList_intercalate_cons, toList_intercalate_cons] at hc
      obtain ⟨rfl, hr⟩ := framed_append_inj hc
      rw [tail_inj hr]

end Louiselm.Base.LengthPrefix
