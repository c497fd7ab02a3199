import Louiselm.Admission.Store

/-!
# Activation's undo journal

`skills-core/src/admission/transaction.rs`: the three files of an activation share one
durable undo journal. A present journal means rollback; its removal commits.
-/

namespace Louiselm.Admission
open Base Canonical Program

/-- The bytes of one record before an activation. -/
structure Backup where
  generation : String
  bytes : String
deriving DecidableEq

/-- What an interrupted activation puts back. -/
structure Journal where
  version : UInt8
  previous : Option Backup
  candidate : Backup
  pins : Option String
deriving DecidableEq

/-- Points of an activation at which a test may stop it. -/
inductive Checkpoint where
  | journalDurable
  | previousWritten
  | candidateWritten
  | pinsWritten
  | journalRemoved
deriving DecidableEq

/-! ### Documents -/

namespace Backup

def jsonMembers (backup : Backup) : List (String × Json) :=
  [("generation", toJson backup.generation), ("bytes", toJson backup.bytes)]

/-- The field names, in declaration order. -/
def fields : List String := ["generation", "bytes"]

def ofJson (v : Json) : Option Backup := do
  match ← v.struct true fields with
  | [generation, bytes] => return { generation := ← field generation, bytes := ← field bytes }
  | _ => failure

end Backup

instance : Deserialize Backup :=
  deserializeStruct Backup.jsonMembers Backup.ofJson 0 (fun backup => by
      simp (disch := decide) [Backup.jsonMembers, fits_toJson])
    (fun backup => by
      rw [Backup.ofJson, Json.struct_obj true Backup.fields rfl (by decide)]
      simp [Backup.jsonMembers])

instance : NonNull Backup where
  ne_null := fun _ h => nomatch h

namespace Journal

def jsonMembers (journal : Journal) : List (String × Json) :=
  [("version", toJson journal.version), ("previous", toJson journal.previous),
    ("candidate", toJson journal.candidate), ("pins", toJson journal.pins)]

/-- The field names, in declaration order. -/
def fields : List String := ["version", "previous", "candidate", "pins"]

def ofJson (v : Json) : Option Journal := do
  match ← v.struct true fields with
  | [version, previous, candidate, pins] =>
    return {
      version := ← field version
      previous := ← field previous
      candidate := ← field candidate
      pins := ← field pins }
  | _ => failure

end Journal

instance : Deserialize Journal :=
  deserializeStruct Journal.jsonMembers Journal.ofJson 1 (fun journal => by
      simp (disch := decide) [Journal.jsonMembers, fits_toJson])
    (fun journal => by
      rw [Journal.ofJson, Json.struct_obj true Journal.fields rfl (by decide)]
      simp [Journal.jsonMembers])

/-- What one activation adds to the Supply lineage. -/
structure Pin where
  sequence : UInt64
  generation : String
  policyDigest : String
  memberRoot : String
  activatedAtMs : UInt64
deriving DecidableEq

def Pin.members (pin : Pin) : List (String × Json) :=
  [("sequence", toJson pin.sequence), ("generation", toJson pin.generation),
    ("policy_digest", toJson pin.policyDigest), ("member_root", toJson pin.memberRoot),
    ("activated_at_ms", toJson pin.activatedAtMs)]

instance : Serialize Pin where
  toJson pin := .obj pin.members
  depth := 1
  fits := fun pin => by
    simp (disch := decide) [Pin.members, fits_toJson]
  toJson_inj := by
    rintro ⟨⟩ ⟨⟩ h
    simpa [Pin.members] using h

section

variable (sha256 : Sha256) (fmt : JsonFormat)

/-- The pin of an activated record. -/
def GenerationRecord.pin (record : GenerationRecord) (activatedAtMs : UInt64) : Pin where
  sequence := record.payload.sequence
  generation := record.generation
  policyDigest := record.payload.policyDigest
  memberRoot := record.payload.memberRoot
  activatedAtMs

/-- The activated pin as a line of the Supply lineage. -/
def pinLine (record : GenerationRecord) (activatedAtMs : UInt64) : String :=
  fmt.toText (record.pin activatedAtMs) ++ "\n"

/-- The state a replaced Generation is left in. -/
def GenerationRecord.supersede (record : GenerationRecord) : GenerationRecord :=
  { record with state := .superseded }

/-! ### Backups -/

/-- Read the record file that an activation will replace. -/
def Backup.capture (digest : Digest) : Action Backup := do
  match ← readOptional (.record digest) with
  | none => fail (.io (.record digest))
  | some bytes => return { generation := digest.toString, bytes }

/-- The backup of the replaced record, when there is one. -/
def Backup.captureOption : Option Digest → Action (Option Backup)
  | none => pure none
  | some digest => do
    let backup ← Backup.capture digest
    return some backup

/-- Where a backup belongs: its bytes must be a record of the Generation it names. -/
def Backup.path (backup : Backup) : Except AdmissionError Path := do
  let digest ← (Digest.parse backup.generation).mapError .digest
  match (fmt.fromStr backup.bytes : Option GenerationRecord) with
  | none => .error .malformedJson
  | some record => do
    require (record.digest sha256 fmt == digest && record.generation == backup.generation)
      (.malformed "activation backup identity mismatch")
    return .record digest

/-- Where an optional backup belongs. -/
def Backup.optionPath : Option Backup → Except AdmissionError (Option Path)
  | none => .ok none
  | some backup => do
    let path ← backup.path sha256 fmt
    return some path

/-- The places of the backups, all validated before any file is restored. -/
def Journal.paths (journal : Journal) : Except AdmissionError (Option Path × Path) := do
  require (journal.version == 1) (.malformed "unsupported activation journal")
  let candidate ← journal.candidate.path sha256 fmt
  let previous ← Backup.optionPath sha256 fmt journal.previous
  require (previous != some candidate) (.malformed "activation backups name the same Generation")
  return (previous, candidate)

/-! ### Rollback -/

/-- Restore the previous record, when there was one. -/
def Journal.restorePrevious (journal : Journal) (path : Option Path) : Action Unit :=
  match journal.previous, path with
  | some previous, some path => writeAtomic path (utf8 previous.bytes)
  | _, _ => pure ()

/-- Restore the Supply lineage, or its absence. -/
def Journal.restorePins (journal : Journal) : Action Unit :=
  match journal.pins with
  | some pins => writeAtomic .pins (utf8 pins)
  | none => do
    let present ← query (fun store => .ok (store.contents .pins).isSome) (.io .pins)
    if present then do
      removeFile .pins
      syncDirectory .root
    else pure ()

/-- Undo an interrupted activation. -/
def recover : Action Unit := do
  match ← readOptional .journal with
  | none => pure ()
  | some text =>
    match (fmt.fromStr text : Option Journal) with
    | none => fail .malformedJson
    | some journal => do
      let paths ← ofExcept (journal.paths sha256 fmt)
      journal.restorePrevious paths.1
      writeAtomic paths.2 (utf8 journal.candidate.bytes)
      journal.restorePins
      removeFile .journal
      syncDirectory .root

/-- Take the trust lock and settle an interrupted activation. -/
def lock : Action Unit := do
  probe (.trust .busy)
  recover sha256 fmt

/-! ### Activation -/

section

variable (previous : Option GenerationRecord) (current : GenerationRecord)
  (activatedAtMs : UInt64) (checkpoint : Checkpoint → Except AdmissionError Unit)

/-- Leave the replaced Generation superseded, when there is one. -/
def supersedePrevious : Action Unit :=
  match previous with
  | none => pure ()
  | some previous => do
    writeRecord sha256 fmt previous.supersede
    ofExcept (checkpoint .previousWritten)

/-- Publish the three files under a durable journal and commit by removing it. -/
def publish (pins : String) : Action Unit := do
  ofExcept (checkpoint .journalDurable)
  supersedePrevious sha256 fmt previous checkpoint
  writeRecord sha256 fmt current
  ofExcept (checkpoint .candidateWritten)
  writeAtomic .pins (utf8 pins)
  ofExcept (checkpoint .pinsWritten)
  removeFile .journal

/-- Undo a failed publication and report why it failed. -/
def rollBack (failure : AdmissionError) : Action Unit := do
  handle (recover sha256 fmt) fun source =>
    fail (.recoveryRequired failure source)
  fail failure

/-- Confirm a commit that is already visible. -/
def settle : Action Unit :=
  handle (do
      ofExcept (checkpoint .journalRemoved)
      syncDirectory .root)
    fun source => fail (.commitUncertain current.generation source)

/-- The journal of an activation. -/
def captureJournal : Action Journal := do
  let previous ← Backup.captureOption (previous.map (·.digest sha256 fmt))
  let candidate ← Backup.capture (current.digest sha256 fmt)
  let pins ← readOptional .pins
  return { version := 1, previous, candidate, pins }

/-- Put `current` in force in place of `previous`. -/
def activateWith : Action Unit := do
  let journal ← captureJournal sha256 fmt previous current
  -- No Generation or lineage write may precede durable rollback evidence.
  writeAtomic .journal (fmt.toVec journal)
  handle (publish sha256 fmt previous current checkpoint
      (journal.pins.getD "" ++ pinLine fmt current activatedAtMs)) (rollBack sha256 fmt)
  settle current checkpoint

end

/-- Confirm the durability of an activation that already happened. -/
def confirm (digest : Digest) : Action Unit :=
  handle (syncDirectory .root) fun source =>
    fail (.commitUncertain digest.toString source)

end
end Louiselm.Admission
