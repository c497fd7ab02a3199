import Mathlib.Data.List.Basic
import Mathlib.Tactic.Tauto

/-!
# Runs of a system and what holds in all their states

A system steps from state to state on one event after another. A property that each step
keeps, unconditionally or under a condition on the step, is carried through every run.
-/

namespace Louiselm.Base
open List

variable {σ ε : Type}

/-- A property of every state of a run. -/
def Always (step : σ → ε → σ) (P : σ → Prop) : σ → List ε → Prop
  | s, [] => P s
  | s, event :: events => P s ∧ Always step P (step s event) events

/-- A condition on every step of a run, stated before the step is taken. -/
def Throughout (step : σ → ε → σ) (C : σ → ε → Prop) : σ → List ε → Prop
  | _, [] => True
  | s, event :: events => C s event ∧ Throughout step C (step s event) events

variable {st : σ → ε → σ} {P : σ → Prop} {C : σ → ε → Prop}

variable {s : σ} {es : List ε}

/-- What holds in every state holds in the first. -/
theorem Always.first (h : Always st P s es) : P s := by
  cases es with
  | nil => exact h
  | cons e es => exact h.1

theorem Always.mono {Q : σ → Prop} (h : Always st P s es) (hs : ∀ s, P s → Q s) :
    Always st Q s es := by
  induction es generalizing s with
  | nil => exact hs s h
  | cons e es ih => exact ⟨hs s h.1, ih h.2⟩

/-- A run that continues another one continues from where it ended. -/
theorem always_append {l : List ε} : Always st P s (es ++ l) ↔
      Always st P s es ∧ Always st P (es.foldl st s) l := by
  induction es generalizing s with
  | nil => exact ⟨fun h => ⟨h.first, h⟩, And.right⟩
  | cons e es ih => simp only [cons_append, Always, ih, foldl_cons, and_assoc]

/-- What holds in every state holds in the last. -/
theorem Always.last (h : Always st P s es) : P (es.foldl st s) := by
  rw [← append_nil es, always_append] at h
  exact h.2

/-- A property kept by the steps that meet a condition holds along the runs that do. -/
theorem always_of_throughout (hs : ∀ s e, P s → C s e → P (st s e)) (h : P s)
    (hc : Throughout st C s es) : Always st P s es := by
  induction es generalizing s with
  | nil => exact h
  | cons e es ih => exact ⟨h, ih (hs s e h hc.1) hc.2⟩

/-- A property kept by exactly the steps that meet a condition holds along exactly the runs
that do. -/
theorem always_iff_throughout (hs : ∀ s e, P s → (P (st s e) ↔ C s e)) (h : P s)
    (es : List ε) : Always st P s es ↔ Throughout st C s es := by
  induction es generalizing s with
  | nil => exact ⟨fun _ => trivial, fun _ => h⟩
  | cons e es ih =>
    constructor
    · intro ha
      have hp := ha.2.first
      exact ⟨(hs s e h).mp hp, (ih hp).mp ha.2⟩
    · intro hc
      have hp := (hs s e h).mpr hc.1
      exact ⟨h, (ih hp).mpr hc.2⟩

/-- Where a condition is not met throughout, some step does not meet it. -/
theorem exists_of_not_throughout (h : ¬ Throughout st C s es) :
    ∃ pre e l, es = pre ++ e :: l ∧ ¬ C (pre.foldl st s) e := by
  induction es generalizing s with
  | nil => exact absurd trivial h
  | cons e es ih =>
    by_cases hc : C s e
    · obtain ⟨pre, o, l, rfl, ho⟩ := ih fun ht => h ⟨hc, ht⟩
      exact ⟨e :: pre, o, l, rfl, ho⟩
    · exact ⟨[], e, es, rfl, hc⟩

variable {D : σ → ε → Prop}

/-- Where an invariant makes one condition give another, it does so along whole runs. -/
theorem Throughout.imp (hs : ∀ s e, P s → P (st s e))
    (hi : ∀ s e, P s → C s e → D s e) (h : P s) (hc : Throughout st C s es) :
    Throughout st D s es := by
  induction es generalizing s with
  | nil => trivial
  | cons e es ih => exact ⟨hi s e h hc.1, ih (hs s e h) hc.2⟩

/-- A condition that follows from what holds in every state is met by every step. -/
theorem Always.throughout (h : Always st P s es) (hi : ∀ s e, P s → C s e) :
    Throughout st C s es := by
  induction es generalizing s with
  | nil => trivial
  | cons e es ih => exact ⟨hi s e h.1, ih h.2⟩

/-- What follows from what holds in every state and from a condition on the steps is met by
every step. -/
theorem Always.throughout_imp (h : Always st P s es) (hc : Throughout st C s es)
    (hi : ∀ s e, P s → C s e → D s e) : Throughout st D s es := by
  induction es generalizing s with
  | nil => trivial
  | cons e es ih => exact ⟨hi s e h.1 hc.1, ih h.2 hc.2⟩

/-- Two conditions are met throughout exactly when each of them is. -/
theorem throughout_and : Throughout st (fun s e => C s e ∧ D s e) s es ↔
      Throughout st C s es ∧ Throughout st D s es := by
  induction es generalizing s with
  | nil => exact ⟨fun _ => ⟨trivial, trivial⟩, fun _ => trivial⟩
  | cons e es ih =>
    simp only [Throughout, ih]
    tauto

/-- A condition on every step is one on the step that follows some. -/
theorem Throughout.at {pre l : List ε} {e : ε}
    (h : Throughout st C s (pre ++ e :: l)) : C (pre.foldl st s) e := by
  induction pre generalizing s with
  | nil => exact h.1
  | cons _ _ ih => exact ih h.2

/-- A condition on every step of a run is one on the steps of both its parts. -/
theorem throughout_append {l : List ε} : Throughout st C s (es ++ l) ↔
      Throughout st C s es ∧ Throughout st C (es.foldl st s) l := by
  induction es generalizing s with
  | nil => exact ⟨fun h => ⟨trivial, h⟩, And.right⟩
  | cons e es ih =>
    simp only [cons_append, Throughout, ih, foldl_cons, and_assoc]

/-- A condition that every step meets is met throughout. -/
theorem throughout_of_forall (h : ∀ s e, C s e) (s : σ) (es : List ε) :
    Throughout st C s es := by
  induction es generalizing s with
  | nil => trivial
  | cons e es ih => exact ⟨h s e, ih _⟩

/-- A condition on the events alone that each of them meets is met throughout. -/
theorem throughout_of_mem {C : ε → Prop} (h : ∀ e ∈ es, C e) :
    Throughout st (fun _ e => C e) s es := by
  induction es generalizing s with
  | nil => trivial
  | cons e es ih =>
    exact ⟨h e mem_cons_self, ih fun o ho => h o (mem_cons_of_mem _ ho)⟩

end Louiselm.Base
