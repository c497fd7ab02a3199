/-!
# Programs whose every operation can fail

A program works on a state by single operations. A schedule says what befalls each of them:
it takes effect, it is refused, it takes effect and is reported as failed all the same, or
the process stops before it. A program is specified by what holds of the state however it
ends, so a specification covers every stop between two operations.
-/

namespace Louiselm.Base

/-- What befalls one operation. -/
inductive Fault where
  | none
  | refused
  | unconfirmed
  | crash
deriving DecidableEq, Repr

/-- How a program ends. -/
inductive Ending (ε α : Type) where
  | value (a : α)
  | error (error : ε)
  | crashed
deriving DecidableEq, Repr

/-- A program over a state. Its operations take the faults of a schedule in order; beyond
its end nothing fails. -/
def Program (σ ε α : Type) : Type := List Fault → σ → Ending ε α × List Fault × σ

namespace Program

variable {σ ε α β : Type}

/-- The program that ends at once. -/
protected def pure (a : α) : Program σ ε α := fun faults s => (.value a, faults, s)

/-- One program after another; an error or a crash of the first ends both. -/
protected def bind (p : Program σ ε α) (f : α → Program σ ε β) : Program σ ε β := fun faults s =>
  match p faults s with
  | (.value a, faults, s) => f a faults s
  | (.error error, faults, s) => (.error error, faults, s)
  | (.crashed, faults, s) => (.crashed, faults, s)

instance : Monad (Program σ ε) where
  pure := Program.pure
  bind := Program.bind

/-- End with an error. -/
def fail (error : ε) : Program σ ε α := fun faults s => (.error error, faults, s)

/-- A computation that touches nothing. -/
def ofExcept : Except ε α → Program σ ε α
  | .ok a => pure a
  | .error error => fail error

/-- Run a handler where a program ends with an error; nothing survives a crash. -/
def handle (p : Program σ ε α) (handler : ε → Program σ ε α) : Program σ ε α := fun faults s =>
  match p faults s with
  | (.error error, faults, s) => handler error faults s
  | ended => ended

/-- A program whose error is passed on as one of another type. -/
def mapError {ε' : Type} (f : ε → ε') (p : Program σ ε α) : Program σ ε' α := fun faults s =>
  match p faults s with
  | (.value a, faults, s) => (.value a, faults, s)
  | (.error error, faults, s) => (.error (f error), faults, s)
  | (.crashed, faults, s) => (.crashed, faults, s)

/-- The next fault and those that follow. -/
def nextFault : List Fault → Fault × List Fault
  | [] => (.none, [])
  | fault :: faults => (fault, faults)

/-- An operation that reads the state. -/
def query (read : σ → Except ε α) (failure : ε) : Program σ ε α := fun faults s =>
  match nextFault faults with
  | (.none, faults) =>
    match read s with
    | .ok a => (.value a, faults, s)
    | .error error => (.error error, faults, s)
  | (.crash, faults) => (.crashed, faults, s)
  | (_, faults) => (.error failure, faults, s)

/-- A look at the state that cannot fail. -/
def observe (look : σ → α) : Program σ ε α := fun faults s => (.value (look s), faults, s)

/-- An operation that can only fail. -/
def probe (failure : ε) : Program σ ε Unit := query (fun _ => .ok ()) failure

/-- An operation that changes the state and then confirms the change, which can fail alone. -/
def write (change : σ → σ) (failure : ε) : Program σ ε Unit := fun faults s =>
  match nextFault faults with
  | (.none, faults) => (.value (), faults, change s)
  | (.refused, faults) => (.error failure, faults, s)
  | (.unconfirmed, faults) => (.error failure, faults, change s)
  | (.crash, faults) => (.crashed, faults, s)

/-- An operation that changes the state or fails. -/
def remove (change : σ → σ) (failure : ε) : Program σ ε Unit := fun faults s =>
  match nextFault faults with
  | (.none, faults) => (.value (), faults, change s)
  | (.crash, faults) => (.crashed, faults, s)
  | (_, faults) => (.error failure, faults, s)

/-- A change outside the program's storage: it cannot fail, but the process can stop before. -/
def effect (change : σ → σ) : Program σ ε Unit := fun faults s =>
  match nextFault faults with
  | (.crash, faults) => (.crashed, faults, s)
  | (_, faults) => (.value (), faults, change s)

/-- The state a program leaves. -/
def leaves (p : Program σ ε α) (faults : List Fault) (s : σ) : σ := (p faults s).2.2

/-! ### Specifications -/

/-- What holds when a program ends, for each way of ending. -/
structure Post (σ ε α : Type) where
  value : α → σ → Prop
  error : ε → σ → Prop
  crashed : σ → Prop

/-- A result is as specified. -/
def Post.Holds (post : Post σ ε α) : Ending ε α × List Fault × σ → Prop
  | (.value a, _, s) => post.value a s
  | (.error error, _, s) => post.error error s
  | (.crashed, _, s) => post.crashed s

/-- However a program ends from a state, it is as specified. -/
def Wp (p : Program σ ε α) (post : Post σ ε α) (s : σ) : Prop :=
  ∀ faults, post.Holds (p faults s)

variable {po : Post σ ε α} {s : σ} {a : α}

@[simp] theorem wp_pure : Wp (pure a : Program σ ε α) po s ↔ po.value a s :=
  ⟨fun h => h [], fun h _ => h⟩

variable {error : ε}

@[simp] theorem wp_fail : Wp (fail error : Program σ ε α) po s ↔ po.error error s :=
  ⟨fun h => h [], fun h _ => h⟩

variable {x : Except ε α}

/-- A computation that touches nothing is as specified by its result. -/
theorem wp_ofExcept (ho : ∀ a, x = .ok a → po.value a s)
    (he : ∀ error, x = .error error → po.error error s) : Wp (ofExcept x) po s := by
  cases x with
  | ok a => exact wp_pure.mpr (ho a rfl)
  | error error => exact wp_fail.mpr (he error rfl)

variable {f : β → Program σ ε α}

/-- The second program starts where the first one ended with a value. -/
theorem wp_bind {p : Program σ ε β}
    (h : Wp p ⟨fun b s => Wp (f b) po s, po.error, po.crashed⟩ s) : Wp (p >>= f) po s := by
  intro fs
  have hp := h fs
  change po.Holds (Program.bind p f fs s)
  unfold Program.bind
  split
  · next hr => rw [hr] at hp; exact hp _
  · next hr => rw [hr] at hp; exact hp
  · next hr => rw [hr] at hp; exact hp

/-- The handler starts where the program ended with an error. -/
theorem wp_handle {p : Program σ ε α} {ha : ε → Program σ ε α}
    (h : Wp p ⟨po.value, fun error s => Wp (ha error) po s, po.crashed⟩ s) :
    Wp (handle p ha) po s := by
  intro fs
  have hp := h fs
  unfold handle
  split
  · next hr => rw [hr] at hp; exact hp _
  · next hn =>
    cases hr : p fs s with
    | mk e xs =>
      rw [hr] at hp
      cases e with
      | value a => exact hp
      | error error => exact absurd hr (hn error xs.1 xs.2)
      | crashed => exact hp

/-- An error that is passed on counts as what it is passed on as. -/
theorem wp_mapError {ε' : Type} {f : ε → ε'} {p : Program σ ε α} {po : Post σ ε' α}
    (h : Wp p ⟨po.value, fun error => po.error (f error), po.crashed⟩ s) :
    Wp (mapError f p) po s := by
  intro fs
  have hp := h fs
  unfold mapError
  cases hr : p fs s with
  | mk e xs =>
    rw [hr] at hp
    cases e <;> exact hp

/-- A weaker specification holds as well. -/
theorem Wp.mono {p : Program σ ε α} {p' : Post σ ε α} (h : Wp p po s)
    (hv : ∀ a s, po.value a s → p'.value a s) (he : ∀ error s, po.error error s → p'.error error s)
    (hc : ∀ s, po.crashed s → p'.crashed s) : Wp p p' s := by
  intro fs
  have hp := h fs
  cases hr : p fs s with
  | mk e xs =>
    rw [hr] at hp
    cases e with
    | value a => exact hv _ _ hp
    | error error => exact he _ _ hp
    | crashed => exact hc _ hp

/-- Every program ends somehow. -/
theorem wp_trivial {p : Program σ ε α} :
    Wp p ⟨fun _ _ => True, fun _ _ => True, fun _ => True⟩ s := by
  intro fs
  cases hr : p fs s with
  | mk e xs => cases e <;> trivial

variable {re : σ → Except ε α} {fa : ε}

/-- A read yields what it reads, or fails, and changes nothing. -/
theorem wp_query (ho : ∀ a, re s = .ok a → po.value a s)
    (he : ∀ error, re s = .error error → po.error error s) (hf : po.error fa s)
    (hc : po.crashed s) : Wp (query re fa) po s := by
  intro fs
  unfold query
  split
  · split
    · next h => exact ho _ h
    · next h => exact he _ h
  · exact hc
  · exact hf

@[simp] theorem wp_observe {look : σ → α} :
    Wp (observe look : Program σ ε α) po s ↔ po.value (look s) s :=
  ⟨fun h => h [], fun h _ => h⟩

theorem wp_probe {po : Post σ ε Unit} (hv : po.value () s) (hf : po.error fa s)
    (hc : po.crashed s) : Wp (probe fa) po s :=
  wp_query (fun _ _ => hv) (fun _ h => nomatch h) hf hc

variable {change : σ → σ}

/-- A write may take effect without being confirmed. -/
theorem wp_write {po : Post σ ε Unit} (hv : po.value () (change s)) (hr : po.error fa s)
    (hu : po.error fa (change s)) (hc : po.crashed s) : Wp (write change fa) po s := by
  intro fs
  unfold write
  split
  · exact hv
  · exact hr
  · exact hu
  · exact hc

theorem wp_remove {po : Post σ ε Unit} (hv : po.value () (change s))
    (hf : po.error fa s) (hc : po.crashed s) : Wp (remove change fa) po s := by
  intro fs
  unfold remove
  split
  · exact hv
  · exact hc
  · exact hf

theorem wp_effect {po : Post σ ε Unit} (hv : po.value () (change s))
    (hc : po.crashed s) : Wp (effect change) po s := by
  intro fs
  unfold effect
  split
  · exact hc
  · exact hv

/-- What a specification says of the state a program leaves, whatever way it ends. -/
theorem Wp.leaves {p : Program σ ε α} {Q : σ → Prop}
    (h : Wp p ⟨fun _ => Q, fun _ => Q, Q⟩ s) (fs : List Fault) : Q (p.leaves fs s) := by
  have hp := h fs
  unfold Program.leaves
  cases hr : p fs s with
  | mk e xs =>
    rw [hr] at hp
    cases e <;> exact hp

/-- What a specification says of a run that ended with a value. -/
theorem Wp.value_of {p : Program σ ε α} (h : Wp p po s) {fs : List Fault}
    (ha : (p fs s).1 = .value a) : po.value a (p.leaves fs s) := by
  have hp := h fs
  unfold Program.leaves
  cases hr : p fs s with
  | mk e xs =>
    rw [hr] at hp ha
    subst ha
    exact hp

/-- What a specification says of a run that ended with an error. -/
theorem Wp.error_of {p : Program σ ε α} (h : Wp p po s) {fs : List Fault}
    (he : (p fs s).1 = .error error) : po.error error (p.leaves fs s) := by
  have hp := h fs
  unfold Program.leaves
  cases hr : p fs s with
  | mk e xs =>
    rw [hr] at hp he
    subst he
    exact hp

/-! ### Runs that nothing interrupts -/

/-- Without faults the program ends with a value in a state. -/
def Returns (p : Program σ ε α) (s : σ) (a : α) (after : σ) : Prop :=
  p [] s = (.value a, [], after)

variable {after : σ}

/-- A run that nothing interrupts is as specified. -/
theorem Wp.returns {p : Program σ ε α} (h : Wp p po s) (hr : Returns p s a after) :
    po.value a after := by
  have hp := h []
  rw [hr] at hp
  exact hp

theorem Returns.leaves {p : Program σ ε α} (h : Returns p s a after) : p.leaves [] s = after :=
    by rw [Program.leaves, h]

theorem returns_pure (a : α) (s : σ) : Returns (pure a : Program σ ε α) s a s := rfl

variable {m : σ}

/-- After a program that returned, the second one runs from where it ended. -/
theorem Returns.bind_eq {p : Program σ ε β} {b : β} (hp : Returns p s b m)
    (f : β → Program σ ε α) : (p >>= f) [] s = f b [] m := by
  change Program.bind p f [] s = _
  rw [Program.bind, hp]

theorem returns_bind {p : Program σ ε β} {b : β} (hp : Returns p s b m)
    (hf : Returns (f b) m a after) : Returns (p >>= f) s a after := by
  rw [Returns, hp.bind_eq]
  exact hf

theorem returns_ofExcept (h : x = .ok a) (s : σ) : Returns (ofExcept x) s a s := by
  rw [h]
  rfl

theorem Returns.mapError {ε' : Type} {p : Program σ ε α} (h : Returns p s a after) (f : ε → ε') :
    Returns (mapError f p) s a after := by
  rw [Returns, Program.mapError, h]

theorem returns_query (re : σ → Except ε α) (fa : ε) (h : re s = .ok a) :
    Returns (query re fa) s a s := by
  rw [Returns, query, nextFault, h]

theorem returns_observe (look : σ → α) (s : σ) :
    Returns (observe look : Program σ ε α) s (look s) s := rfl

theorem returns_probe (fa : ε) (s : σ) : Returns (probe fa) s () s := rfl

theorem returns_write (change : σ → σ) (fa : ε) (s : σ) :
    Returns (write change fa) s () (change s) := rfl

theorem returns_remove (change : σ → σ) (fa : ε) (s : σ) :
    Returns (remove change fa) s () (change s) := rfl

theorem returns_effect (change : σ → σ) (s : σ) :
    Returns (effect change : Program σ ε Unit) s () (change s) := rfl

/-! ### Programs that succeed when nothing fails -/

/-- Without faults the program ends with a value. -/
def Succeeds (p : Program σ ε α) (s : σ) : Prop := ∃ a after, Returns p s a after

/-- Where nothing fails, a program finds no fault either. -/
def Calm (p : Program σ ε α) : Prop := ∀ s, (p [] s).2.1 = []

theorem calm_pure (a : α) : Calm (pure a : Program σ ε α) := fun _ => rfl

theorem calm_fail (error : ε) : Calm (fail error : Program σ ε α) := fun _ => rfl

theorem calm_ofExcept (x : Except ε α) : Calm (ofExcept x : Program σ ε α) := by
  cases x with
  | ok a => exact calm_pure a
  | error error => exact calm_fail error

theorem calm_query (re : σ → Except ε α) (fa : ε) : Calm (query re fa) := by
  intro s
  simp only [query, nextFault]
  split <;> rfl

theorem calm_write (change : σ → σ) (fa : ε) : Calm (write change fa) := fun _ => rfl

theorem Calm.bind {p : Program σ ε β} (hp : Calm p) (hf : ∀ b, Calm (f b)) : Calm (p >>= f) := by
  intro s
  have hl := hp s
  change (Program.bind p f [] s).2.1 = []
  unfold Program.bind
  split
  · next b fs m hr =>
    rw [hr] at hl
    obtain rfl : fs = [] := hl
    exact hf b m
  · next hr =>
    rw [hr] at hl
    exact hl
  · next hr =>
    rw [hr] at hl
    exact hl

theorem succeeds_pure : Succeeds (pure a : Program σ ε α) s := ⟨a, s, rfl⟩

/-- Of two programs the second one decides, once the first returned. -/
theorem Returns.succeeds_bind {p : Program σ ε β} {b : β} (hp : Returns p s b m) :
    Succeeds (p >>= f) s ↔ Succeeds (f b) m := by
  simp only [Succeeds, Returns, hp.bind_eq]

/-- Two programs in turn succeed when both do. -/
theorem Calm.succeeds_bind {p : Program σ ε β} (hp : Calm p) :
    Succeeds (p >>= f) s ↔ ∃ b m, Returns p s b m ∧ Succeeds (f b) m := by
  constructor
  · intro h
    have hl := hp s
    cases hr : p [] s with
    | mk e xs =>
      obtain ⟨fs, m⟩ := xs
      rw [hr] at hl
      obtain rfl : fs = [] := hl
      cases e with
      | value b => exact ⟨b, m, hr, (Returns.succeeds_bind hr).mp h⟩
      | error error =>
        obtain ⟨a, after, h⟩ := h
        change Program.bind p f [] s = _ at h
        simp [Program.bind, hr] at h
      | crashed =>
        obtain ⟨a, after, h⟩ := h
        change Program.bind p f [] s = _ at h
        simp [Program.bind, hr] at h
  · rintro ⟨b, m, hb, h⟩
    exact hb.succeeds_bind.mpr h

theorem succeeds_ofExcept_bind {x : Except ε β} :
    Succeeds (ofExcept x >>= f) s ↔ ∃ b, x = .ok b ∧ Succeeds (f b) s := by
  cases x with
  | ok b =>
    rw [(returns_ofExcept rfl s).succeeds_bind]
    constructor
    · exact fun h => ⟨b, rfl, h⟩
    · rintro ⟨_, ⟨⟩, h⟩
      exact h
  | error error =>
    rw [(calm_ofExcept _).succeeds_bind]
    constructor
    · rintro ⟨b, m, hb, -⟩
      simp [Returns, ofExcept, fail] at hb
    · rintro ⟨b, hb, -⟩
      simp at hb

/-- What is made of the value does not count. -/
theorem succeeds_map {p : Program σ ε β} (f : β → α) :
    Succeeds (do let b ← p; return f b) s ↔ Succeeds p s := by
  constructor
  · rintro ⟨a, after, h⟩
    change Program.bind p _ [] s = _ at h
    unfold Program.bind at h
    split at h
    · next b fs m hr =>
      obtain rfl : fs = [] := congrArg (fun r => r.2.1) h
      exact ⟨b, m, hr⟩
    · simp at h
    · simp at h
  · rintro ⟨b, m, hb⟩
    exact hb.succeeds_bind.mpr succeeds_pure

/-! ### Where a program that nothing interrupts can end -/

theorem returns_pure_iff {b : α} :
    Returns (pure a : Program σ ε α) s b after ↔ a = b ∧ s = after := by
  change ((Ending.value a, ([] : List Fault), s) : Ending ε α × List Fault × σ) = _ ↔ _
  simp

theorem not_returns_fail : ¬ Returns (fail error : Program σ ε α) s a after := by
  intro h
  simp [Returns, fail] at h

theorem returns_ofExcept_iff : Returns (ofExcept x) s a after ↔ x = .ok a ∧ s = after := by
  cases x with
  | ok b => simp [ofExcept, returns_pure_iff]
  | error error => simp [ofExcept, not_returns_fail]

theorem returns_query_iff : Returns (query re fa) s a after ↔ re s = .ok a ∧ s = after := by
  rw [Returns, query, nextFault]
  cases re s <;> simp

theorem returns_write_iff {u : Unit} : Returns (write change fa) s u after ↔ change s = after := by
  rw [Returns, write, nextFault]
  simp

/-- Two programs in turn return what the second one does from where the first one returned. -/
theorem Calm.returns_bind {p : Program σ ε β} (hp : Calm p) : Returns (p >>= f) s a after ↔
      ∃ b m, Returns p s b m ∧ Returns (f b) m a after := by
  constructor
  · intro h
    obtain ⟨b, m, hb, -⟩ := hp.succeeds_bind.mp ⟨a, after, h⟩
    refine ⟨b, m, hb, ?_⟩
    rwa [Returns, hb.bind_eq] at h
  · rintro ⟨b, m, hb, h⟩
    exact Program.returns_bind hb h

theorem returns_ofExcept_bind {x : Except ε β} :
    Returns (ofExcept x >>= f) s a after ↔ ∃ b, x = .ok b ∧ Returns (f b) s a after := by
  rw [(calm_ofExcept x).returns_bind]
  simp only [returns_ofExcept_iff]
  constructor
  · rintro ⟨b, _, ⟨hb, rfl⟩, h⟩
    exact ⟨b, hb, h⟩
  · rintro ⟨b, hb, h⟩
    exact ⟨b, s, ⟨hb, rfl⟩, h⟩

theorem returns_query_bind {re : σ → Except ε β} : Returns (query re fa >>= f) s a after ↔
      ∃ b, re s = .ok b ∧ Returns (f b) s a after := by
  rw [(calm_query re fa).returns_bind]
  simp only [returns_query_iff]
  constructor
  · rintro ⟨b, _, ⟨hb, rfl⟩, h⟩
    exact ⟨b, hb, h⟩
  · rintro ⟨b, hb, h⟩
    exact ⟨b, s, ⟨hb, rfl⟩, h⟩

theorem returns_probe_bind {f : Unit → Program σ ε α} :
    Returns (probe fa >>= f) s a after ↔ Returns (f ()) s a after := by
  rw [probe, returns_query_bind]
  constructor
  · rintro ⟨_, _, h⟩
    exact h
  · exact fun h => ⟨(), rfl, h⟩

/-- Without faults the program ends with a value or an error. -/
def Finishes (p : Program σ ε α) : Prop :=
  ∀ s, (∃ a after, Returns p s a after) ∨ ∃ error after, p [] s = (.error error, [], after)

theorem Finishes.calm {p : Program σ ε α} (h : Finishes p) : Calm p := by
  intro s
  rcases h s with ⟨a, after, ha⟩ | ⟨error, after, he⟩
  · rw [ha]
  · rw [he]

theorem finishes_pure (a : α) : Finishes (pure a : Program σ ε α) := fun s => .inl ⟨a, s, rfl⟩

theorem finishes_fail (error : ε) : Finishes (fail error : Program σ ε α) :=
  fun s => .inr ⟨error, s, rfl⟩

theorem finishes_ofExcept (x : Except ε α) : Finishes (ofExcept x : Program σ ε α) := by
  cases x with
  | ok a => exact finishes_pure a
  | error error => exact finishes_fail error

theorem finishes_query (re : σ → Except ε α) (fa : ε) : Finishes (query re fa) := by
  intro s
  cases h : re s with
  | ok a => exact .inl ⟨a, s, returns_query re fa h⟩
  | error error => exact .inr ⟨error, s, by rw [query, nextFault, h]⟩

theorem finishes_probe (fa : ε) : Finishes (probe fa : Program σ ε Unit) :=
  finishes_query _ fa

theorem finishes_write (change : σ → σ) (fa : ε) : Finishes (write change fa) :=
  fun s => .inl ⟨(), change s, rfl⟩

theorem Finishes.bind {p : Program σ ε β} (hp : Finishes p) (hf : ∀ b, Finishes (f b)) :
    Finishes (p >>= f) := by
  intro s
  rcases hp s with ⟨b, m, hb⟩ | ⟨error, m, he⟩
  · have hn := hf b m
    simpa only [Returns, hb.bind_eq] using hn
  · right
    refine ⟨error, m, ?_⟩
    change Program.bind p f [] s = _
    rw [Program.bind, he]

/-! ### Programs that only read -/

/-- However the program ends the state is as it was, and its values are as described. -/
def Reads (p : Program σ ε α) (s : σ) (Q : α → Prop) : Prop :=
  Wp p ⟨fun a s' => s' = s ∧ Q a, fun _ s' => s' = s, fun s' => s' = s⟩ s

variable {p : Program σ ε α} {Q R : α → Prop}

theorem reads_pure (h : Q a) : Reads (pure a : Program σ ε α) s Q := wp_pure.mpr ⟨rfl, h⟩

theorem reads_fail : Reads (fail error : Program σ ε α) s Q := wp_fail.mpr rfl

theorem reads_ofExcept (h : ∀ a, x = .ok a → Q a) : Reads (ofExcept x) s Q :=
  wp_ofExcept (fun a ha => ⟨rfl, h a ha⟩) (fun _ _ => rfl)

theorem reads_query (h : ∀ a, re s = .ok a → Q a) : Reads (query re fa) s Q :=
  wp_query (fun a ha => ⟨rfl, h a ha⟩) (fun _ _ => rfl) rfl rfl

theorem reads_observe {look : σ → α} : Reads (observe look : Program σ ε α) s fun a => a = look s :=
  wp_observe.mpr ⟨rfl, rfl⟩

/-- After a program that only read, the second one starts in the same state. -/
theorem Reads.wp_bind {p : Program σ ε β} {Q : β → Prop} (h : Reads p s Q)
    (hv : ∀ b, Q b → Wp (f b) po s) (he : ∀ error, po.error error s)
    (hc : po.crashed s) : Wp (p >>= f) po s := by
  apply Program.wp_bind
  refine Wp.mono h ?_ ?_ ?_
  · rintro b _ ⟨rfl, hb⟩
    exact hv b hb
  · rintro error _ rfl
    exact he error
  · rintro _ rfl
    exact hc

theorem Reads.bind {p : Program σ ε β} {Q : β → Prop} (h : Reads p s Q)
    (hf : ∀ b, Q b → Reads (f b) s R) : Reads (p >>= f) s R :=
  h.wp_bind hf (fun _ => rfl) rfl

theorem reads_check {x : Except ε α} : Reads (ofExcept x) s fun _ => True :=
  reads_ofExcept fun _ _ => trivial

theorem reads_look {re : σ → Except ε α} : Reads (query re fa) s fun _ => True :=
  reads_query fun _ _ => trivial

/-- However a program ends the state is as described. -/
def Post.ends (P : σ → Prop) : Post σ ε α := ⟨fun _ => P, fun _ => P, P⟩

theorem Reads.ends {P : σ → Prop} (h : Reads p s Q) (hs : P s) : Wp p (.ends P) s :=
  Wp.mono h (fun _ _ ⟨he, _⟩ => he ▸ hs) (fun _ _ he => he ▸ hs) fun _ he => he ▸ hs

theorem Reads.ends_bind {P : σ → Prop} {p : Program σ ε β} {Q : β → Prop} (h : Reads p s Q)
    (hs : P s) (hf : ∀ b, Q b → Wp (f b) (.ends P) s) : Wp (p >>= f) (.ends P) s :=
  h.wp_bind hf (fun _ => hs) hs

end Program
end Louiselm.Base
