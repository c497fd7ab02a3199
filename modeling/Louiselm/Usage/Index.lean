import Louiselm.Base.Checks
import Louiselm.Usage.Views

/-!
# The index of calls

`usage-cli/src/store.rs` and `usage-cli/src/index.rs`: how a run refreshes the sources that it was
given, each for itself, and then derives the calls anew. What is read of a source is an argument,
as are the digest, the print of its facts and the digest of the normalizer's text. Times and the
diagnostics of a source are left out.
-/

namespace Louiselm.Usage
open Base

/-- The facts of one source, and how often something of it was not understood. -/
structure Parsed where
  sessions : List Session
  calls : List Call
  turns : List Turn
  diagnostics : List (String × Nat)
deriving DecidableEq

/-- What digests are made with: of texts, the print of parsed facts, and the normalizer's own. -/
structure Digests where
  digest : String → String
  encode : Parsed → String
  normalizer : String

/-- A source; `state` says what its discovery came to. -/
structure Source where
  id : String
  format : Format
  path : String
  state : String
deriving DecidableEq

/-- What an attempt to read a source finds: its fingerprint, the facts, and the fingerprint after;
each may fail with a code. -/
structure Look where
  before : Except String String
  parsed : Except String Parsed
  after : Except String String

/-- The index. Beside it every replacement of a source's facts, in order. -/
structure Index where
  tables : Tables
  generation : Nat
  callFacts : List DerivedCall
  replaced : List (String × Parsed)
deriving DecidableEq

/-- What one run is given: which paths there are, and the discovered sources with what is read of
them. A run that is interrupted is not committed. -/
structure IndexRun where
  present : String → Bool
  discovered : List (Format × String × String × Look)
  interrupted : Bool

/-- The code of a failure of the index itself. -/
def storageError : String := "storage_error"

section

variable (digests : Digests)

/-- The identity of a source. -/
def sourceId (format : Format) (path : String) : String :=
  digests.digest (format.name ++ ":" ++ path)

def source (format : Format) (path state : String) : Source :=
  ⟨sourceId digests format path, format, path, state⟩

end

namespace Index

def new : Index := ⟨⟨[], [], [], []⟩, 0, [], []⟩

/-- Insert a source, or change the one with its identity. -/
def setSource (row : SourceRow) (change : SourceRow → SourceRow) (sources : List SourceRow) :
    List SourceRow :=
  if sources.any (·.id == row.id) then
    sources.map fun other => if other.id = row.id then change other else other
  else sources ++ [row]

/-- A source is as it was when its digest is. -/
def unchanged (index : Index) (id digest : String) : Bool :=
  index.tables.sources.any fun row =>
    row.id == id && row.digest == digest && (row.state == "indexed" || row.state == "partial")

/-- A source could not be read. Its facts stay. -/
def unavailable (index : Index) (source : Source) (code : String) : Index :=
  let previous := index.tables.sources.any fun row => row.id == source.id && row.digest != ""
  let code := if code = "missing" ∧ previous then "missing_retained_snapshot" else code
  if index.tables.sources.any fun row => row.id == source.id && row.state == code then index
  else
    { index with
      tables := { index.tables with
        sources := setSource ⟨source.id, source.format, source.path, "", code⟩
          (fun row => { row with state := code }) index.tables.sources }
      generation := index.generation + 1 }

def checkMissing (index : Index) (present : String → Bool) : Index :=
  (index.tables.sources.filter fun row => row.state == "indexed" || row.state == "partial").foldl
    (fun index row =>
      if present row.path then index
      else index.unavailable ⟨row.id, row.format, row.path, "missing"⟩ "missing_retained_snapshot")
    index

/-- The rows of other sources, and those of one in their place. -/
def put {α : Type} (id : String) (facts : List α) (rows : List (String × α)) : List (String × α) :=
  rows.filter (fun row => row.1 ≠ id) ++ facts.map fun fact => (id, fact)

/-- Put the facts of a source in place of those it had. Two facts of one identity are refused. -/
def replace (index : Index) (source : Source) (digest : String) (facts : Parsed) :
    Except String Index :=
  if (facts.sessions.map (·.id)).Nodup ∧ (facts.calls.map (·.id)).Nodup ∧
      (facts.turns.map (·.id)).Nodup then
    let state := if facts.diagnostics.isEmpty then "indexed" else "partial"
    .ok { index with
      tables :=
        { sources := setSource ⟨source.id, source.format, source.path, digest, state⟩
            (fun row => { row with digest, state }) index.tables.sources
          sessions := put source.id facts.sessions index.tables.sessions
          calls := put source.id facts.calls index.tables.calls
          turns := put source.id facts.turns index.tables.turns }
      generation := index.generation + 1
      replaced := index.replaced ++ [(source.id, facts)] }
  else .error storageError

/-- A database or a directory is read as a whole. -/
def isSnapshot (format : Format) : Bool :=
  format == .louiselm || format == .opencode || format == .adapter

def version (format : Format) : String :=
  if format = .claude ∨ format = .codex then "5" else "4"

/-- The fingerprint before a source is read; a snapshot has none. -/
def fingerprint (format : Format) (look : Look) : Except String String :=
  if isSnapshot format then .ok "" else look.before

/-- The fingerprint after. -/
def fingerprintAfter (format : Format) (before : String) (look : Look) : Except String String :=
  if isSnapshot format then .ok before else look.after

/-- What a snapshot is known by is the digest of its facts. -/
def recordedDigest (digests : Digests) (format : Format) (versioned : String)
    (parsed : Parsed) : String :=
  if isSnapshot format then digests.digest (digests.encode parsed) else versioned

/-- Read a source that may have changed, and whether it had. -/
def refresh (digests : Digests) (index : Index) (source : Source) (look : Look) :
    Except String (Bool × Index) := do
  let snapshot := isSnapshot source.format
  let before ← fingerprint source.format look
  let versioned := digests.digest
    (version source.format ++ ":" ++ digests.normalizer ++ ":" ++ before)
  if !snapshot && index.unchanged source.id versioned then return (false, index)
  let parsed ← look.parsed
  let versioned := recordedDigest digests source.format versioned parsed
  if snapshot && index.unchanged source.id versioned then return (false, index)
  let after ← fingerprintAfter source.format before look
  require (after == before) "source_changed_retry"
  let next ← index.replace source versioned parsed
  return (true, next)

/-- Derive the calls anew; two of one identity are refused. -/
def resolve (index : Index) : Except String Index :=
  let derived := derivedCalls index.tables
  if (derived.map (·.id)).Nodup then .ok { index with callFacts := derived }
  else .error storageError

/-- One discovered source of a run, and how many were indexed. -/
def visit (digests : Digests) (state : Index × Nat)
    (found : Format × String × String × Look) : Index × Nat :=
  let source := source digests found.1 found.2.1 found.2.2.1
  if source.state ≠ "present" then (state.1.unavailable source source.state, state.2)
  else
    match state.1.refresh digests source found.2.2.2 with
    | .ok (true, next) => (next, state.2 + 1)
    | .ok (false, next) => (next, state.2)
    | .error code => (state.1.unavailable source code, state.2)

/-- A run is one transaction. -/
def run (digests : Digests) (index : Index) (given : IndexRun) : Except String Index :=
  let visited := given.discovered.foldl (visit digests) (index.checkMissing given.present, 0)
  if given.interrupted then .error storageError
  else if 0 < visited.2 then visited.1.resolve
  else .ok visited.1

/-- The index after a run, which is as it was where the run fails. -/
def step (digests : Digests) (index : Index) (given : IndexRun) : Index :=
  match index.run digests given with
  | .ok next => next
  | .error _ => index

end Index
end Louiselm.Usage
