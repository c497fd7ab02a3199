import Louiselm.Admission.Quarantine
import Louiselm.Base.JsonCompact
import Louiselm.Canonical.Digest

/-!
# The quarantine command

`skills-core/src/cli.rs`, `quarantine exclude`. Packages may be named by any spelling of their
digest, and are stored as they were spelled; what is partitioned later has one spelling only.
-/

namespace Louiselm.Admission
open Base Canonical Compact

/-- A command that was refused. -/
inductive CliError where
  | invalid (reason : String)
  | digest (error : DigestError)
  | quarantine (error : QuarantineError)
deriving DecidableEq, Repr

namespace Quarantine

section

variable (fmt : JsonFormat)

/-- Exclude packages; what is written is the new file. `ioError` is a write that fails. -/
def excludeCommand (file : Option Bytes) (packages : List String) (reason : Option String)
    (declaredAtMs : UInt64) (ioError : Option QuarantineError) :
    Except CliError (Quarantine × Bytes) := do
  require (!packages.isEmpty) (.invalid "quarantine exclude needs at least one package digest")
  packages.forM fun package =>
    ((Digest.parse package).mapError CliError.digest).map fun _ => ()
  match reason with
  | none => .error (.invalid
      "--reason is required: a quarantine nobody can explain is a quarantine nobody lifts")
  | some reason =>
    let existing ← (load fmt file).mapError CliError.quarantine
    let quarantine := exclude existing packages reason declaredAtMs
    match ioError with
    | some error => .error (.quarantine error)
    | none => return (quarantine, write fmt quarantine)

/-- A command that succeeds has written what it excludes to what there was. -/
theorem excludeCommand_ok {fi : Option Bytes} {ps : List String} {r : Option String}
    {dam : UInt64} {ie : Option QuarantineError} {q : Quarantine} {b : Bytes}
    (h : excludeCommand fmt fi ps r dam ie = .ok (q, b)) : ∃ e t, load fmt fi = .ok e ∧
      q = exclude e ps t dam ∧ b = write fmt q := by
  unfold excludeCommand at h
  obtain ⟨-, h⟩ := check_ok.mp h
  obtain ⟨_, -, h⟩ := bind_ok.mp h
  cases r with
  | none => cases h
  | some t =>
    obtain ⟨e, hload, h⟩ := bind_ok.mp h
    cases ie with
    | some error => cases h
    | none =>
      obtain ⟨rfl, rfl⟩ := Prod.mk.inj (Except.ok.inj h)
      refine ⟨e, t, ?_, rfl, rfl⟩
      cases hfile : load fmt fi with
      | error error =>
        rw [hfile] at hload
        cases hload
      | ok f =>
        rw [hfile] at hload
        obtain rfl := Except.ok.inj hload
        rfl

/-- A member is excluded with its Generation, or by its own spelling. -/
theorem mem_partition_excluded (q : Quarantine) (g : String) {m : String} {ms : List String}
    (h : m ∈ ms) : m ∈ (partition (some q) g ms).2 ↔
      g ∈ q.excludedGenerations ∨ m ∈ q.excluded := by
  rw [partition]
  by_cases hgeneration : g ∈ q.excludedGenerations
  · rw [if_pos hgeneration]
    exact iff_of_true h (Or.inl hgeneration)
  · rw [if_neg hgeneration, List.partition_eq_filter_filter]
    simp [h, hgeneration]

/-- After a command that succeeds, however it named a digest, the member with its displayed
spelling is excluded exactly where it was before, or where the command was given that very
spelling. -/
theorem excludeCommand_excludes_iff {file : Option Bytes} {packages : List String}
    {reason : Option String} {declaredAtMs : UInt64} {ioError : Option QuarantineError}
    {quarantine : Quarantine} {bytes : Bytes}
    (h : excludeCommand fmt file packages reason declaredAtMs ioError = .ok (quarantine, bytes))
    {digest : Digest} {generation : String} {members : List String}
    (hmember : digest.toString ∈ members) : (∃ active, load fmt (some bytes) = .ok active ∧
      digest.toString ∈ (partition active generation members).2) ↔
      digest.toString ∈ packages ∨ ∃ existing, load fmt file = .ok existing ∧
        digest.toString ∈ (partition existing generation members).2 := by
  obtain ⟨existing, t, hload, rfl, rfl⟩ := excludeCommand_ok fmt h
  have hactive : load fmt (some (write fmt (exclude existing packages t declaredAtMs))) =
      .ok (some (exclude existing packages t declaredAtMs)) := load_write fmt rfl
  have hgenerations : (exclude existing packages t declaredAtMs).excludedGenerations =
      generationsOf existing := rfl
  have hexisting : digest.toString ∈ (partition existing generation members).2 ↔
      generation ∈ generationsOf existing ∨ digest.toString ∈ packagesOf existing := by
    cases existing with
    | none => simp [partition, generationsOf, packagesOf]
    | some e => exact mem_partition_excluded e _ hmember
  have hafter := mem_partition_excluded (exclude existing packages t declaredAtMs) generation
    hmember
  rw [hgenerations, mem_exclude_excluded] at hafter
  constructor
  · rintro ⟨active, hf, hmem⟩
    obtain rfl := Except.ok.inj (hactive.symm.trans hf)
    rcases hafter.mp hmem with hg | hp | hn
    · exact Or.inr ⟨existing, hload, hexisting.mpr (Or.inl hg)⟩
    · exact Or.inr ⟨existing, hload, hexisting.mpr (Or.inr hp)⟩
    · exact Or.inl hn
  · intro hcase
    refine ⟨_, hactive, hafter.mpr ?_⟩
    rcases hcase with hn | ⟨f, hf, hmem⟩
    · exact Or.inr (Or.inr hn)
    · obtain rfl := Except.ok.inj (hload.symm.trans hf)
      rcases hexisting.mp hmem with hg | hp
      · exact Or.inl hg
      · exact Or.inr (Or.inl hp)

end

/-! ### Samples -/

/-- A digest by its digits. -/
def sampleDigits : String := "1111111111111111111111111111111111111111111111111111111111111111"

def sampleDigest : Digest := ⟨sampleDigits, by decide +kernel⟩

/-- What a command that names one package leaves. -/
def commanded (package : String) : Except CliError (Quarantine × Bytes) :=
  excludeCommand format none [package] (some "compromised") 1000 none

/-- The quarantine of a package. -/
def quarantined (package : String) : Quarantine :=
  exclude none [package] "compromised" 1000

theorem commanded_eq {p : String} {d : Digest} (h : Digest.parse p = .ok d) :
    commanded p = .ok (quarantined p, write format (quarantined p)) := by
  have hforM : [p].forM (fun p =>
      ((Digest.parse p).mapError CliError.digest).map fun _ => ()) = .ok () := by
    rw [List.forM_eq_forM, List.forM_cons, h]
    rfl
  rw [commanded, excludeCommand, hforM]
  rfl

theorem excludeCommand_excludes_sample : (∃ active, load format
        (some (write format (quarantined sampleDigest.toString))) = .ok active ∧
      sampleDigest.toString ∈ (partition active "generation" [sampleDigest.toString]).2) ↔
      sampleDigest.toString ∈ [sampleDigest.toString] ∨
        ∃ existing, load format none = .ok existing ∧
          sampleDigest.toString ∈ (partition existing "generation" [sampleDigest.toString]).2 :=
  excludeCommand_excludes_iff format
    (commanded_eq (Digest.parse_toString sampleDigest)) List.mem_cons_self

/-- The bare digits name the digest, the command succeeds, and nothing is excluded. -/
theorem excludeCommand_excludes_nothing : Digest.parse sampleDigits = .ok sampleDigest ∧
      commanded sampleDigits = .ok (quarantined sampleDigits,
        write format (quarantined sampleDigits)) ∧
      load format (some (write format (quarantined sampleDigits))) =
        .ok (some (quarantined sampleDigits)) ∧
      partition (some (quarantined sampleDigits)) "generation" [sampleDigest.toString] =
        ([sampleDigest.toString], []) := by
  have hparse : Digest.parse sampleDigits = .ok sampleDigest := Digest.parse_bare sampleDigest.valid
  refine ⟨hparse, commanded_eq hparse, load_write format rfl, ?_⟩
  have hexcluded : sampleDigest.toString ∉ (quarantined sampleDigits).excluded := by
    rw [quarantined, mem_exclude_excluded]
    decide +kernel
  have hgeneration : "generation" ∉ (quarantined sampleDigits).excludedGenerations :=
    List.not_mem_nil
  rw [partition, if_neg hgeneration, List.partition_eq_filter_filter]
  simp [hexcluded]

end Quarantine

end Louiselm.Admission
