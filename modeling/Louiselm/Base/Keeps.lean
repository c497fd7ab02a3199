import Louiselm.Base.Program

/-!
# Programs that keep an invariant

What a program over a store does however it is interrupted: it keeps an invariant, and relates
the store that it leaves to the one it started from. The relation is one that single operations
can be put together along. Where the program is not interrupted more can be said of its value.
-/

namespace Louiselm.Base

/-- An invariant of a store, and how a store may become another one. -/
structure Guard (σ : Type) where
  invariant : σ → Prop
  moves : σ → σ → Prop
  refl : ∀ s, moves s s
  trans : ∀ {s t u}, moves s t → moves t u → moves s u

namespace Guard
open Program

variable {σ ε α β : Type} (guard : Guard σ)

/-- A program keeps the invariant and moves the store, and its value is right where it has
one. -/
def Keeps (p : Program σ ε α) (s : σ) (Q : α → σ → Prop) : Prop :=
  Wp p ⟨fun a s' => (guard.invariant s' ∧ guard.moves s s') ∧ Q a s',
    fun _ s' => guard.invariant s' ∧ guard.moves s s',
    fun s' => guard.invariant s' ∧ guard.moves s s'⟩ s

variable {guard} {p : Program σ ε α} {f : α → Program σ ε β} {s : σ} {Q : α → σ → Prop}
  {R : β → σ → Prop}

theorem keeps_pure {a : α} (h : guard.invariant s) (hv : Q a s) :
    guard.Keeps (pure a : Program σ ε α) s Q :=
  wp_pure.mpr ⟨⟨h, guard.refl s⟩, hv⟩

theorem keeps_fail {e : ε} (h : guard.invariant s) : guard.Keeps (fail e : Program σ ε α) s Q :=
  wp_fail.mpr ⟨h, guard.refl s⟩

theorem keeps_write {c : σ → σ} {fa : ε} (h : guard.invariant s)
    (hw : guard.invariant (c s) ∧ guard.moves s (c s)) :
    guard.Keeps (write c fa) s fun _ s' => s' = c s :=
  wp_write ⟨hw, rfl⟩ ⟨h, guard.refl s⟩ hw ⟨h, guard.refl s⟩

theorem keeps_effect {change : σ → σ} (h : guard.invariant s)
    (hc : guard.invariant (change s) ∧ guard.moves s (change s)) :
    guard.Keeps (effect change : Program σ ε Unit) s fun _ s' => s' = change s :=
  wp_effect ⟨hc, rfl⟩ ⟨h, guard.refl s⟩

theorem Keeps.mono {Q' : α → σ → Prop} (h : guard.Keeps p s Q)
    (hu : ∀ a s', guard.invariant s' → guard.moves s s' → Q a s' → Q' a s') :
    guard.Keeps p s Q' :=
  Wp.mono h (fun a s' hs => ⟨hs.1, hu a s' hs.1.1 hs.1.2 hs.2⟩) (fun _ _ hs => hs) fun _ hs => hs

/-- The second program goes on from where the first one left the store. -/
theorem Keeps.bind (h : guard.Keeps p s Q)
    (hf : ∀ a s', guard.invariant s' → guard.moves s s' → Q a s' → guard.Keeps (f a) s' R) :
    guard.Keeps (p >>= f) s R := by
  apply wp_bind
  refine Wp.mono h ?_ (fun _ _ hs => hs) fun _ hs => hs
  rintro a s' ⟨⟨hs, hm⟩, ha⟩
  refine Wp.mono (hf a s' hs hm ha) ?_ ?_ ?_
  · exact fun b s'' hs' => ⟨⟨hs'.1.1, guard.trans hm hs'.1.2⟩, hs'.2⟩
  · exact fun _ s'' hs' => ⟨hs'.1, guard.trans hm hs'.2⟩
  · exact fun s'' hs' => ⟨hs'.1, guard.trans hm hs'.2⟩

theorem keeps_reads {Q : α → Prop} (h : guard.invariant s) (hp : Reads p s Q) :
    guard.Keeps p s fun a s' => s' = s ∧ Q a := by
  refine Wp.mono hp ?_ ?_ ?_
  · rintro a _ ⟨rfl, ha⟩
    exact ⟨⟨h, guard.refl _⟩, rfl, ha⟩
  · rintro _ _ rfl
    exact ⟨h, guard.refl _⟩
  · rintro _ rfl
    exact ⟨h, guard.refl _⟩

/-- A loop brings about for each of its items what stays once it is there. -/
theorem keeps_forM {xs : List α} {f : α → Program σ ε PUnit} {P : α → σ → Prop}
    (ht : ∀ a s s', guard.invariant s' → guard.moves s s' → P a s → P a s') (h : guard.invariant s)
    (hf : ∀ a ∈ xs, ∀ s', guard.invariant s' → guard.moves s s' →
      guard.Keeps (f a) s' fun _ s'' => P a s'') :
    guard.Keeps (xs.forM f) s fun _ s' => ∀ a ∈ xs, P a s' := by
  induction xs generalizing s with
  | nil => exact keeps_pure h (List.forall_mem_nil _)
  | cons item xs ih =>
    have hfi := hf item List.mem_cons_self s h (guard.refl s)
    refine hfi.bind fun _ s' hs hm hi => ?_
    have hr := ih hs fun a ha s'' hs'' hm' =>
      hf a (List.mem_cons_of_mem _ ha) s'' hs'' (guard.trans hm hm')
    exact hr.mono fun _ s'' hs'' hm' hl =>
      List.forall_mem_cons.mpr ⟨ht item s' s'' hs'' hm' hi, hl⟩

/-- However it is interrupted, a program leaves the store as it may. -/
theorem Keeps.leaves (h : guard.Keeps p s Q) (fs : List Fault) :
    guard.invariant (p.leaves fs s) ∧ guard.moves s (p.leaves fs s) :=
  Wp.leaves (Q := fun s' => guard.invariant s' ∧ guard.moves s s')
    (Wp.mono h (fun _ _ hs => hs.1) (fun _ _ hs => hs) fun _ hs => hs) fs

theorem Keeps.value_of (h : guard.Keeps p s Q) {fs : List Fault} {a : α}
    (ha : (p fs s).1 = .value a) : Q a (p.leaves fs s) :=
  (Wp.value_of h ha).2

end Guard

/-- What follows a program that only reads starts where that one did. -/
theorem Program.Reads.keeps_bind {σ ε α β : Type} {guard : Guard σ} {p : Program σ ε α}
    {f : α → Program σ ε β} {s : σ} {Q : α → Prop} {R : β → σ → Prop} (hp : Reads p s Q)
    (h : guard.invariant s) (hf : ∀ a, Q a → guard.Keeps (f a) s R) :
    guard.Keeps (p >>= f) s R := by
  refine (Guard.keeps_reads h hp).bind ?_
  rintro a s' - - ⟨rfl, ha⟩
  exact hf a ha

end Louiselm.Base
