import Mathlib.Data.List.Forall2

/-!
# Fallible checks

The early returns of the source are binds of `Except`; these lemmas take them apart.
-/

namespace Louiselm.Base
open List

/-- Refuse unless a check holds. -/
def require {ε : Type} (check : Bool) (error : ε) : Except ε Unit :=
  if check then .ok () else .error error

@[simp] theorem require_ok {ε : Type} {c : Bool} {e : ε} {u : Unit} :
    require c e = .ok u ↔ c = true := by
  cases c <;> simp [require]

@[simp] theorem ok_bind {ε α β : Type} (a : α) (f : α → Except ε β) :
    (Except.ok a >>= f) = f a := rfl

/-- A bind succeeds when both of its parts do. -/
@[simp] theorem bind_ok {ε α β : Type} {x : Except ε α} {f : α → Except ε β} {b : β} :
    x >>= f = .ok b ↔ ∃ a, x = .ok a ∧ f a = .ok b := by
  cases x with
  | error e => simp [bind, Except.bind]
  | ok a => simp [bind, Except.bind]

/-- A check followed by more succeeds when it passes and the rest succeeds. -/
@[simp high] theorem check_ok {ε β : Type} {x : Except ε Unit}
    {f : Unit → Except ε β} {b : β} : x >>= f = .ok b ↔ x = .ok () ∧ f () = .ok b := by
  cases x with
  | error e => simp [bind, Except.bind]
  | ok a => simp [bind, Except.bind]

/-- A bind fails where its first part does, or else where the second one does. -/
theorem bind_eq_error {ε α β : Type} {x : Except ε α} {f : α → Except ε β} {e : ε} :
    x >>= f = .error e ↔ x = .error e ∨ ∃ a, x = .ok a ∧ f a = .error e := by
  cases x with
  | error e => simp [bind, Except.bind]
  | ok a => simp [bind, Except.bind]

/-- A mapped computation succeeds where it does. -/
theorem map_ok {ε α β : Type} {x : Except ε α} {f : α → β} {b : β} :
    x.map f = .ok b ↔ ∃ a, x = .ok a ∧ f a = b := by
  cases x <;> simp [Except.map]

/-- Renaming its error changes no success. -/
@[simp] theorem mapError_ok {ε ε' α : Type} {x : Except ε α} {f : ε → ε'} {a : α} :
    x.mapError f = .ok a ↔ x = .ok a := by
  cases x <;> simp [Except.mapError]

theorem mapError_const_error {ε ε' α : Type} {x : Except ε α} {error e' : ε'}
    (h : x.mapError (fun _ => error) = .error e') : e' = error := by
  cases x with
  | error _ => exact (Except.error.inj h).symm
  | ok a => simp [Except.mapError] at h

theorem require_error {ε : Type} {c : Bool} {e e' : ε} (h : require c e = .error e') : e' = e := by
  unfold require at h
  split at h
  · simp at h
  · exact (Except.error.inj h).symm

/-- A map over a list succeeds when it does at each item. -/
theorem mapM_ok {ε α β : Type} {f : α → Except ε β} {xs : List α} {ys : List β} :
    xs.mapM f = .ok ys ↔ List.Forall₂ (fun x y => f x = .ok y) xs ys := by
  induction xs generalizing ys with
  | nil => simp [pure, Except.pure, eq_comm]
  | cons x xs ih =>
    rw [mapM_cons]
    constructor
    · intro h
      obtain ⟨y, hy, h⟩ := bind_ok.mp h
      obtain ⟨l, hr, h⟩ := bind_ok.mp h
      rw [← Except.ok.inj h]
      exact .cons hy (ih.mp hr)
    · rintro (_ | ⟨hy, hr⟩)
      rw [hy, ih.mpr hr]
      rfl

/-- The results of a map that succeeds are those of its items. -/
theorem mem_of_mapM_ok {ε α β : Type} {f : α → Except ε β} {xs : List α} {ys : List β}
    (h : xs.mapM f = .ok ys) :
    (∀ y ∈ ys, ∃ x ∈ xs, f x = .ok y) ∧ ∀ x ∈ xs, ∃ y ∈ ys, f x = .ok y := by
  have hp := mapM_ok.mp h
  clear h
  induction hp with
  | nil => simp
  | cons hxy _ ih =>
    simp only [mem_cons, forall_eq_or_imp, exists_eq_or_imp]
    exact ⟨⟨.inl hxy, fun y hy => .inr (ih.1 y hy)⟩, .inl hxy, fun x hx => .inr (ih.2 x hx)⟩

theorem mapM_congr {ε α β : Type} {f g : α → Except ε β} {xs : List α}
    (h : ∀ x ∈ xs, f x = g x) : xs.mapM f = xs.mapM g := by
  induction xs with
  | nil => rfl
  | cons x xs ih =>
    rw [forall_mem_cons] at h
    rw [mapM_cons, mapM_cons, h.1, ih h.2]

/-- A check of every item passes when each one does. -/
theorem forM_ok {ε α : Type} {f : α → Except ε Unit} {xs : List α} {u : Unit} :
    xs.forM f = .ok u ↔ ∀ x ∈ xs, f x = .ok () := by
  induction xs with
  | nil => simp [pure, Except.pure]
  | cons x xs ih =>
    change (f x >>= fun _ => xs.forM f) = .ok u ↔ _
    rw [check_ok, ih, forall_mem_cons]

/-- A fold whose steps only check succeeds when every item passes. -/
theorem foldlM_ok {ε α β : Type} {f : β → α → Except ε β} {ch : α → Prop} {g : β → α → β}
    (h : ∀ b a c, f b a = .ok c ↔ ch a ∧ g b a = c) {xs : List α} {b c : β} :
    xs.foldlM f b = .ok c ↔ (∀ a ∈ xs, ch a) ∧ xs.foldl g b = c := by
  induction xs generalizing b with
  | nil => simp [pure, Except.pure]
  | cons x xs ih =>
    rw [foldlM_cons, bind_ok, forall_mem_cons, foldl_cons]
    simp only [h, ih]
    constructor
    · rintro ⟨t, ⟨hx, rfl⟩, hs, hc⟩
      exact ⟨⟨hx, hs⟩, hc⟩
    · rintro ⟨⟨hx, hs⟩, hc⟩
      exact ⟨_, ⟨hx, rfl⟩, hs, hc⟩

theorem toOption_eq_some {ε α : Type} {x : Except ε α} {a : α} :
    x.toOption = some a ↔ x = .ok a := by
  cases x <;> simp [Except.toOption]

/-- Computations that succeed alike are one but for their errors. -/
theorem toOption_congr {ε α : Type} {x y : Except ε α} (h : ∀ a, x = .ok a ↔ y = .ok a) :
    x.toOption = y.toOption := by
  refine Option.ext fun a => ?_
  rw [toOption_eq_some, toOption_eq_some, h]

end Louiselm.Base
