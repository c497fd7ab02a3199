import Louiselm.Admission.Quarantine
import Louiselm.Base.JsonCompact
import Louiselm.Base.Runs

/-!
# Quarantine operations that overlap

`exclude` and `exclude_everything` of `skills-core/src/quarantine.rs` as their load step and
their later atomic write step, in any interleaving the code's locks permit.
`exclude_everything` holds the trust lock from before its load until after its write;
`exclude` takes no lock, so its write can put back a file from before another operation.
-/

namespace Louiselm.Admission.Quarantine
open Base

/-- An operation between its load and its write, with what it loaded. -/
inductive Operation where
  | exclude (existing : Option Quarantine) (packages : List String) (reason : String)
      (declaredAtMs : UInt64)
  | excludeEverything (existing : Option Quarantine) (generation reason : String)
      (declaredAtMs : UInt64)

namespace Operation

/-- What the operation loaded. -/
def existing : Operation → Option Quarantine
  | .exclude existing _ _ _ => existing
  | .excludeEverything existing _ _ _ => existing

/-- The packages the operation names. -/
def packages : Operation → List String
  | .exclude _ packages _ _ => packages
  | .excludeEverything _ _ _ _ => []

/-- The Generation the operation binds. -/
def generations : Operation → List String
  | .exclude _ _ _ _ => []
  | .excludeEverything _ generation _ _ => [generation]

/-- What the operation writes. -/
def quarantine : Operation → Quarantine
  | .exclude existing packages reason declaredAtMs =>
    Quarantine.exclude existing packages reason declaredAtMs
  | .excludeEverything existing generation reason declaredAtMs =>
    Quarantine.excludeEverything existing generation reason declaredAtMs

/-- The packages written are those loaded and those named. -/
theorem mem_quarantine_excluded (op : Operation) (p : String) : p ∈ op.quarantine.excluded ↔
      p ∈ packagesOf op.existing ∨ p ∈ op.packages := by
  cases op with
  | exclude existing packages r dam => exact mem_exclude_excluded
  | excludeEverything existing g r dam =>
    simp [packages, Operation.existing, quarantine, Quarantine.excludeEverything, packagesOf]

/-- The Generations written are those loaded and the one bound. -/
theorem mem_quarantine_generations (op : Operation) (g : String) :
    g ∈ op.quarantine.excludedGenerations ↔ g ∈ generationsOf op.existing ∨ g ∈ op.generations := by
  cases op with
  | exclude existing ps r dam =>
    simp [generations, Operation.existing, quarantine, Quarantine.exclude, generationsOf]
  | excludeEverything existing b r dam =>
    rw [quarantine, mem_excludeEverything_generations, or_comm]
    simp [generations, Operation.existing]

theorem quarantine_schema (op : Operation) : op.quarantine.schema = quarantineSchema := by
  cases op <;> rfl

end Operation

/-- How a write ends: durable, replaced without confirmation, or refused and unchanged. -/
inductive WriteOutcome where
  | done
  | unconfirmed
  | refused
deriving DecidableEq

/-- One step of one process. Processes are told apart by a number. -/
inductive Event where
  | exclude (process : Nat) (packages : List String) (reason : String) (declaredAtMs : UInt64)
  | excludeEverything (process : Nat) (reason : String) (declaredAtMs : UInt64)
  | write (process : Nat) (outcome : WriteOutcome)
  | stop (process : Nat)
  | activate (generation : String)

/-- The quarantine file, the Generation in force, who holds the trust lock, the operations
under way and those that returned success. -/
structure Host where
  file : Option Bytes
  current : Option String
  lock : Option Nat
  running : Nat → Option Operation
  returned : List Operation

namespace Host

/-- A host on which no operation is under way. -/
def start (file : Option Bytes) (current : Option String) : Host :=
  ⟨file, current, none, fun _ => none, []⟩

/-- The operation has loaded. -/
def begin (host : Host) (process : Nat) (operation : Operation) : Host :=
  { host with running := Function.update host.running process (some operation) }

/-- The operation is over and its guard dropped. -/
def finish (host : Host) (process : Nat) : Host :=
  { host with
    running := Function.update host.running process none
    lock := if host.lock = some process then none else host.lock }

end Host

section

variable (fmt : JsonFormat)

/-- One step. What the code refuses, a busy lock, no current Generation or an unreadable file,
leaves the host as it is. -/
def step (host : Host) : Event → Host
  | .exclude process packages reason declaredAtMs =>
    if (host.running process).isSome then host
    else
      match load fmt host.file with
      | .error _ => host
      | .ok existing => host.begin process (.exclude existing packages reason declaredAtMs)
  | .excludeEverything process reason declaredAtMs =>
    if (host.running process).isSome || host.lock.isSome then host
    else
      match host.current, load fmt host.file with
      | some generation, .ok existing =>
        { host.begin process (.excludeEverything existing generation reason declaredAtMs) with
          lock := some process }
      | _, _ => host
  | .write process outcome =>
    match host.running process, outcome with
    | none, _ => host
    | some _, .refused => host.finish process
    | some operation, .unconfirmed =>
      { host.finish process with file := some (write fmt operation.quarantine) }
    | some operation, .done =>
      { host.finish process with
        file := some (write fmt operation.quarantine)
        returned := host.returned ++ [operation] }
  | .stop process => host.finish process
  | .activate generation =>
    -- Activation takes the trust lock for its whole length.
    if host.lock.isSome then host else { host with current := some generation }

/-- A quarantine excludes what an operation named, so `partition` allows none of it. -/
structure Excludes (quarantine : Quarantine) (operation : Operation) : Prop where
  packages : ∀ package ∈ operation.packages, package ∈ quarantine.excluded ∧
    ∀ generation members, package ∉ (partition (some quarantine) generation members).1
  generations : ∀ generation ∈ operation.generations, generation ∈ quarantine.excludedGenerations ∧
      ∀ members, (partition (some quarantine) generation members).1 = []

/-- Everything named by an operation that returned success is excluded. -/
def Host.Narrowed (host : Host) : Prop :=
  ∀ operation ∈ host.returned, ∃ quarantine,
    load fmt host.file = .ok (some quarantine) ∧ Excludes quarantine operation

/-- An operation about to replace the file has loaded, or names itself, everything named by
the operations that returned success. -/
def Host.UpToDate (host : Host) : Event → Prop
  | .write process outcome =>
    outcome ≠ .refused → ∀ operation, host.running process = some operation →
      ∀ earlier ∈ host.returned, (∀ package ∈ earlier.packages,
          package ∈ packagesOf operation.existing ∨ package ∈ operation.packages) ∧
        (∀ generation ∈ earlier.generations,
          generation ∈ generationsOf operation.existing ∨ generation ∈ operation.generations)
  | _ => True

/-- Membership in the file decides what `partition` allows. -/
theorem excludes_iff {q : Quarantine} {op : Operation} : Excludes q op ↔
      (∀ p ∈ op.packages, p ∈ q.excluded) ∧ ∀ g ∈ op.generations, g ∈ q.excludedGenerations := by
  constructor
  · intro h
    exact ⟨fun p hp => (h.packages p hp).1, fun g hg => (h.generations g hg).1⟩
  · rintro ⟨hp, hg⟩
    constructor
    · intro p ha
      have he : p ∈ packagesOf (some q) := hp p ha
      exact ⟨he, not_mem_partition_of_excluded he⟩
    · intro g hn
      have he : g ∈ generationsOf (some q) := hg g hn
      exact ⟨he, partition_of_excludedGeneration he⟩

/-- Every operation excludes what it names itself. -/
theorem excludes_quarantine (op : Operation) : Excludes op.quarantine op := by
  rw [excludes_iff]
  constructor
  · intro p hp
    rw [op.mem_quarantine_excluded]
    exact .inr hp
  · intro g hg
    rw [op.mem_quarantine_generations]
    exact .inr hg

/-- Replacing the file keeps everything excluded exactly when the operation was up to date. -/
theorem narrowed_write_iff {host w : Host} {op : Operation}
    (hf : w.file = some (write fmt op.quarantine)) (hr : ∀ e, e ∈ w.returned →
      e ∈ host.returned ∨ e = op) (hk : ∀ e ∈ host.returned, e ∈ w.returned) :
    w.Narrowed fmt ↔ ∀ e ∈ host.returned, (∀ p ∈ e.packages,
        p ∈ packagesOf op.existing ∨ p ∈ op.packages) ∧ (∀ g ∈ e.generations,
        g ∈ generationsOf op.existing ∨ g ∈ op.generations) := by
  have hl : load fmt w.file = .ok (some op.quarantine) := by
    rw [hf, load_write fmt op.quarantine_schema]
  have hi : ∀ e, Excludes op.quarantine e ↔ (∀ p ∈ e.packages,
        p ∈ packagesOf op.existing ∨ p ∈ op.packages) ∧ (∀ g ∈ e.generations,
        g ∈ generationsOf op.existing ∨ g ∈ op.generations) := by
    intro e
    simp only [excludes_iff, op.mem_quarantine_excluded, op.mem_quarantine_generations]
  constructor
  · intro h e ha
    obtain ⟨quarantine, hq, he⟩ := h e (hk e ha)
    rw [hl] at hq
    obtain rfl := Option.some.inj (Except.ok.inj hq)
    exact (hi e).mp he
  · intro h e ha
    refine ⟨op.quarantine, hl, ?_⟩
    rcases hr e ha with hold | rfl
    · exact (hi e).mpr (h e hold)
    · exact excludes_quarantine _

/-- A step keeps everything excluded exactly when it is up to date. -/
theorem narrowed_step_iff (host : Host) (e : Event) (h : host.Narrowed fmt) :
    (step fmt host e).Narrowed fmt ↔ host.UpToDate e := by
  cases e with
  | exclude p ps r dam =>
    refine iff_of_true ?_ trivial
    simp only [step]
    split
    · exact h
    · split <;> exact h
  | excludeEverything p r dam =>
    refine iff_of_true ?_ trivial
    simp only [step]
    split
    · exact h
    · split <;> exact h
  | stop p => exact iff_of_true h trivial
  | activate g =>
    refine iff_of_true ?_ trivial
    simp only [step]
    split <;> exact h
  | write p o =>
    cases hr : host.running p with
    | none => simp only [step, Host.UpToDate, hr, h, reduceCtorEq, false_implies, implies_true]
    | some op =>
      cases o with
      | refused =>
        simp only [step, hr, Host.UpToDate, ne_eq, not_true_eq_false, false_implies, iff_true]
        exact h
      | unconfirmed =>
        simp only [step, hr, Host.UpToDate, ne_eq, reduceCtorEq, not_false_eq_true,
          Option.some.injEq, forall_eq', true_implies]
        exact narrowed_write_iff fmt rfl (fun _ => .inl) (fun _ h => h)
      | done =>
        simp only [step, hr, Host.UpToDate, ne_eq, reduceCtorEq, not_false_eq_true,
          Option.some.injEq, forall_eq', true_implies]
        exact narrowed_write_iff fmt rfl (by simp) (by simp +contextual)

/-- Quarantine only narrows along exactly the runs in which every operation that replaces the
file has loaded, or names itself, whatever the operations that returned before it named. -/
theorem quarantine_narrows_iff (file : Option Bytes) (current : Option String)
    (events : List Event) : Always (step fmt) (Host.Narrowed fmt) (Host.start file current) events ↔
      Throughout (step fmt) Host.UpToDate (Host.start file current) events :=
  always_iff_throughout (narrowed_step_iff fmt) (by intro _ h; simp [Host.start] at h) events

end

/-- Of two excludes that both load before either writes, the second puts back the first. -/
theorem exclude_lost_update :
    let first := "sha256:" ++ "1111111111111111111111111111111111111111111111111111111111111111"
    let s := "sha256:" ++ "2222222222222222222222222222222222222222222222222222222222222222"
    ¬ Always (step Compact.format) (Host.Narrowed Compact.format) (Host.start none none)
      [.exclude 0 [first] "compromised" 1000, .exclude 1 [s] "compromised" 1001,
        .write 0 .done, .write 1 .done] := by
  intro first s h
  rw [always_iff_throughout (narrowed_step_iff Compact.format)
    (by intro _ h; simp [Host.start] at h)] at h
  obtain ⟨-, -, -, hs, -⟩ := h
  have hl := (hs (by decide) (.exclude none [s] "compromised" 1001) rfl
    (.exclude none [first] "compromised" 1000) (by simp [step, Host.start, Host.begin, load])).1
    first (by simp [Operation.packages])
  simp [packagesOf, Operation.existing, Operation.packages, first, s] at hl

end Louiselm.Admission.Quarantine
