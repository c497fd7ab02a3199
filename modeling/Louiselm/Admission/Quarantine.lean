import Mathlib.Tactic.Common
import Louiselm.Base.Checks
import Louiselm.Base.Json
import Louiselm.Base.Text

/-!
# Emergency quarantine: the file and its operations

`skills-core/src/quarantine.rs`. Each operation is what it reads followed by what it writes;
how they interleave is a matter of the next module.
-/

namespace Louiselm.Admission
open Base

/-- The quarantine schema this build reads and writes. -/
def quarantineSchema : String := "louiselm.skills.quarantine/2"

/-- The durable emergency narrowing of admitted supply. -/
structure Quarantine where
  schema : String
  excluded : List String
  excludedGenerations : List String
  reasons : List String
  declaredAtMs : UInt64
deriving DecidableEq, Repr

/-- A quarantine operation that was refused; `malformedJson` is unreadable content, which the
source reports with the reader's own text. -/
inductive QuarantineError where
  | io (path : String)
  | malformed (reason : String)
  | malformedJson
  | currentGeneration
  | noCurrentGeneration
  | wouldWiden (packages : Nat)
deriving DecidableEq, Repr

namespace Quarantine

/-- The name of the file under the store's root. -/
def path : String := "quarantine.json"

/-! ### The file -/

def members (q : Quarantine) : List (String × Json) :=
  [("schema", toJson q.schema), ("excluded", toJson q.excluded),
    ("excluded_generations", toJson q.excludedGenerations), ("reasons", toJson q.reasons),
    ("declared_at_ms", toJson q.declaredAtMs)]

/-- The field names, in declaration order. -/
def fields : List String :=
  ["schema", "excluded", "excluded_generations", "reasons", "declared_at_ms"]

def ofJson (v : Json) : Option Quarantine := do
  match ← v.struct true fields with
  | [schema, excluded, excludedGenerations, reasons, declaredAtMs] =>
    return {
      schema := ← field schema
      excluded := ← field excluded
      excludedGenerations := ← field excludedGenerations
      reasons := ← field reasons
      declaredAtMs := ← field declaredAtMs }
  | _ => failure

instance : Deserialize Quarantine :=
  deserializeStruct members Quarantine.ofJson 1 (fun q => by
      simp (disch := decide) [members, fits_toJson])
    (fun q => by
      rw [Quarantine.ofJson, Json.struct_obj true fields rfl (by decide)]
      simp [members])

section

variable (fmt : JsonFormat)

/-- Read the active quarantine, when there is one. -/
def load (file : Option Bytes) : Except QuarantineError (Option Quarantine) :=
  match file with
  | none => .ok none
  | some bytes =>
    match (fmt.fromSlice bytes : Option Quarantine) with
    | none => .error (.malformedJson)
    | some quarantine => do
      require (quarantine.schema == quarantineSchema)
        (.malformed ("unknown schema '" ++ quarantine.schema ++ "'"))
      return some quarantine

/-- The bytes that replace the file. -/
def write (quarantine : Quarantine) : Bytes := fmt.toVec quarantine

/-- What was written is read back. -/
theorem load_write {q : Quarantine} (h : q.schema = quarantineSchema) :
    load fmt (some (write fmt q)) = .ok (some q) := by
  rw [load, write, fmt.fromSlice_toVec (by decide)]
  simp [require, h, pure, Except.pure]

/-- Restoring authority is never a delete. -/
def clear (file : Option Bytes) : Except QuarantineError Unit := do
  let quarantine ← load fmt file
  .error (.wouldWiden
    ((quarantine.map fun q => q.excluded.length + q.excludedGenerations.length).getD 0))

end

/-! ### Narrowing -/

/-- The reasons so far with one more, unless it is among them. -/
def addReason (existing : Option Quarantine) (reason : String) : List String :=
  let reasons := (existing.map (·.reasons)).getD []
  let reason := Text.escape reason
  if reason ∈ reasons then reasons else reasons ++ [reason]

/-- The quarantine that excluding `packages` from what was read writes. -/
def exclude (existing : Option Quarantine) (packages : List String) (reason : String)
    (declaredAtMs : UInt64) : Quarantine where
  schema := quarantineSchema
  excluded := Text.sortedSet ((existing.map (·.excluded)).getD [] ++ packages)
  excludedGenerations := (existing.map (·.excludedGenerations)).getD []
  reasons := addReason existing reason
  declaredAtMs

/-- The quarantine that excluding every member of `generation` from what was read writes. -/
def excludeEverything (existing : Option Quarantine) (generation : String) (reason : String)
    (declaredAtMs : UInt64) : Quarantine where
  schema := quarantineSchema
  excluded := (existing.map (·.excluded)).getD []
  excludedGenerations :=
    Text.sortedSet (generation :: (existing.map (·.excludedGenerations)).getD [])
  reasons := addReason existing reason
  declaredAtMs

/-- Split `members` into what the quarantine still allows and what it excludes. -/
def partition (quarantine : Option Quarantine) (generation : String) (members : List String) :
    List String × List String :=
  match quarantine with
  | none => (members, [])
  | some quarantine =>
    if generation ∈ quarantine.excludedGenerations then ([], members)
    else members.partition (· ∉ quarantine.excluded)

/-! ### What is excluded -/

/-- Packages that an active quarantine excludes wherever they are admitted. -/
def packagesOf (quarantine : Option Quarantine) : List String :=
  (quarantine.map (·.excluded)).getD []

/-- Generations that an active quarantine excludes with all their members. -/
def generationsOf (quarantine : Option Quarantine) : List String :=
  (quarantine.map (·.excludedGenerations)).getD []

variable {e : Option Quarantine}

@[simp] theorem mem_exclude_excluded {ps : List String} {r : String} {dam : UInt64} {p : String} :
    p ∈ (exclude e ps r dam).excluded ↔ p ∈ packagesOf e ∨ p ∈ ps := by
  rw [exclude, Text.mem_sortedSet, List.mem_append]
  rfl

@[simp] theorem mem_excludeEverything_generations {g r : String} {dam : UInt64} {o : String} :
    o ∈ (excludeEverything e g r dam).excludedGenerations ↔ o = g ∨ o ∈ generationsOf e := by
  rw [excludeEverything, Text.mem_sortedSet, List.mem_cons]
  rfl

variable {qu : Option Quarantine}

/-- An excluded package is not allowed, whichever Generation admits it. -/
theorem not_mem_partition_of_excluded {p : String} (h : p ∈ packagesOf qu) (g : String)
    (ms : List String) : p ∉ (partition qu g ms).1 := by
  cases qu with
  | none => simp [packagesOf] at h
  | some qu =>
    replace h : p ∈ qu.excluded := h
    rw [partition]
    split
    · simp
    · rw [List.partition_eq_filter_filter]
      simp [h]

/-- Nothing of an excluded Generation is allowed. -/
theorem partition_of_excludedGeneration {g : String} (h : g ∈ generationsOf qu)
    (ms : List String) : (partition qu g ms).1 = [] := by
  cases qu with
  | none => simp [generationsOf] at h
  | some qu =>
    replace h : g ∈ qu.excludedGenerations := h
    rw [partition, if_pos h]

end Quarantine
end Louiselm.Admission
