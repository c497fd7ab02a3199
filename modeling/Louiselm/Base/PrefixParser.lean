import Mathlib.Data.List.Basic

/-!
# Incremental parsers over a growing buffer

A parser looks at everything buffered and asks for more, refuses, or accepts a frame in
front. When its verdict on a buffer never changes as the buffer grows, the frames taken
from a stream do not depend on where the stream was cut.
-/

namespace Louiselm.Base.PrefixParser
open List

variable {β ε ρ : Type}

/-- What a parser says of a buffer: wait, refuse for good, or accept its first bytes. -/
inductive Verdict (ε ρ : Type) where
  | more
  | refused (error : ε)
  | accepted (frame : ρ) (length : Nat)

/-- A parser that asks for more on nothing and whose verdicts survive every extension. -/
structure Stable (parse : List β → Verdict ε ρ) : Prop where
  nil : parse [] = .more
  refused : ∀ buffer error more, parse buffer = .refused error →
    parse (buffer ++ more) = .refused error
  accepted : ∀ buffer frame length more, parse buffer = .accepted frame length →
    parse (buffer ++ more) = .accepted frame length
  bounds : ∀ buffer frame length, parse buffer = .accepted frame length →
    0 < length ∧ length ≤ buffer.length

/-- The frames taken from a buffer until the parser waits, leaving the rest, or refuses. Each
frame is kept with its bytes. -/
inductive Drains (parse : List β → Verdict ε ρ) :
    List β → List (ρ × List β) → Except ε (List β) → Prop where
  | more {buffer : List β} : parse buffer = .more → Drains parse buffer [] (.ok buffer)
  | refused {buffer : List β} {error : ε} : parse buffer = .refused error →
      Drains parse buffer [] (.error error)
  | accepted {buffer : List β} {frame : ρ} {length : Nat} {frames : List (ρ × List β)}
      {result : Except ε (List β)} : parse buffer = .accepted frame length →
      Drains parse (buffer.drop length) frames result →
      Drains parse buffer ((frame, buffer.take length) :: frames) result

variable {parse : List β → Verdict ε ρ}

variable {b : List β} {frames f' : List (ρ × List β)} {result r' : Except ε (List β)}

/-- A buffer is drained in one way. -/
theorem Drains.unique (h : Drains parse b frames result)
    (h' : Drains parse b f' r') : frames = f' ∧ result = r' := by
  induction h generalizing f' r' with
  | more hp => cases h' <;> simp_all
  | refused hp => cases h' <;> simp_all
  | accepted hp _ ih =>
    cases h' with
    | more hp' => simp [hp] at hp'
    | refused hp' => simp [hp] at hp'
    | accepted hp' h' =>
      rw [hp] at hp'
      obtain ⟨rfl, rfl⟩ := Verdict.accepted.inj hp'
      obtain ⟨rfl, rfl⟩ := ih h'
      exact ⟨rfl, rfl⟩

/-- The bytes of the frames and of the rest are those of the buffer. -/
theorem Drains.flatten_append {xs : List β} (h : Drains parse b frames (.ok xs)) :
    (frames.map Prod.snd).flatten ++ xs = b := by
  generalize hr : (Except.ok xs : Except ε (List β)) = result at h
  induction h with
  | more _ => simp [Except.ok.inj hr]
  | refused _ => cases hr
  | accepted _ _ ih =>
    rw [map_cons, flatten_cons, append_assoc, ih hr, take_append_drop]

/-- The bytes of the frames stand in front of the buffer. -/
theorem Drains.flatten_prefix (h : Drains parse b frames result) :
    (frames.map Prod.snd).flatten <+: b := by
  induction h with
  | more _ => exact nil_prefix
  | refused _ => exact nil_prefix
  | @accepted b frame length _ _ hp _ ih =>
    rw [map_cons, flatten_cons]
    conv => rhs; rw [← take_append_drop length b]
    exact (prefix_append_right_inj _).mpr ih

/-- A refusal stays where it was, however the stream goes on. -/
theorem Drains.append_of_refused (hs : Stable parse) {e : ε} (h : Drains parse b frames (.error e))
    (more : List β) : Drains parse (b ++ more) frames (.error e) := by
  generalize hr : (Except.error e : Except ε (List β)) = result at h
  induction h with
  | more _ => cases hr
  | refused hp =>
    obtain rfl := Except.error.inj hr
    exact .refused (hs.refused _ _ _ hp)
  | accepted hp _ ih =>
    have hl := (hs.bounds _ _ _ hp).2
    have hd := Drains.accepted (hs.accepted _ _ _ more hp)
      (by rw [drop_append_of_le_length hl]; exact ih hr)
    rwa [take_append_of_le_length hl] at hd

/-- Draining a longer buffer continues where draining its front stopped. -/
theorem Drains.append (hs : Stable parse) {xs more : List β} {l : List (ρ × List β)}
    (h : Drains parse b frames (.ok xs)) (h' : Drains parse (xs ++ more) l result) :
    Drains parse (b ++ more) (frames ++ l) result := by
  generalize hr : (Except.ok xs : Except ε (List β)) = stopped at h
  induction h with
  | more _ =>
    obtain rfl := Except.ok.inj hr
    exact h'
  | refused _ => cases hr
  | accepted hp _ ih =>
    have hl := (hs.bounds _ _ _ hp).2
    have hd := Drains.accepted (hs.accepted _ _ _ more hp)
      (by rw [drop_append_of_le_length hl]; exact ih hr)
    rwa [take_append_of_le_length hl] at hd

/-- Chunks arriving one after another, the buffer drained after each until a refusal. -/
inductive Served (parse : List β → Verdict ε ρ) :
    List (List β) → List (ρ × List β) → Except ε (List β) → Prop where
  | nil : Served parse [] [] (.ok [])
  | feed {chunks : List (List β)} {chunk rest : List β} {frames later : List (ρ × List β)}
      {result : Except ε (List β)} : Served parse chunks frames (.ok rest) →
      Drains parse (rest ++ chunk) later result →
      Served parse (chunks ++ [chunk]) (frames ++ later) result
  | refused {chunks : List (List β)} {chunk : List β} {frames : List (ρ × List β)} {error : ε} :
      Served parse chunks frames (.error error) →
      Served parse (chunks ++ [chunk]) frames (.error error)

variable {c : List (List β)}

/-- Serving chunks drains the stream they were cut from. -/
theorem Served.drains (hs : Stable parse) (h : Served parse c frames result) :
    Drains parse c.flatten frames result := by
  induction h with
  | nil => exact .more hs.nil
  | feed _ hd ih =>
    rw [flatten_append, flatten_singleton]
    exact ih.append hs hd
  | refused _ ih =>
    rw [flatten_append, flatten_singleton]
    exact ih.append_of_refused hs _

/-- Two ways of cutting one stream serve the same frames with the same result. -/
theorem Served.unique (hs : Stable parse) {c' : List (List β)} (h : Served parse c frames result)
    (h' : Served parse c' f' r') (ht : c.flatten = c'.flatten) : frames = f' ∧ result = r' := by
  have hd := h.drains hs
  rw [ht] at hd
  exact hd.unique (h'.drains hs)

end Louiselm.Base.PrefixParser
