import Mathlib.Data.List.AList
import Louiselm.Admission.Generation
import Louiselm.Admission.Quarantine
import Louiselm.Base.Program
import Louiselm.Endorsement.Record

/-!
# The store an Admission works on

The files under the store's root that `skills-core/src/admission.rs` reads and writes, with
the enrolled keys of `trust.rs` as they are loaded. Replacing or removing one file is one
atomic step. Staging files an interrupted write leaves behind are inert and left out.
-/

namespace Louiselm.Admission
open Base Canonical
open Endorsement (SkPolicy)
open Program

/-- Places under the store's root. -/
inductive Path where
  | root
  | generations
  | record (digest : Digest)
  | journal
  | pins
  | quarantine
  | trust
deriving DecidableEq

/-! ### Enrolled keys -/

/-- A signing role. -/
inductive Role where
  | primary
  | release
deriving DecidableEq, Repr

def Role.name : Role → String
  | .primary => "primary"
  | .release => "release"

/-- One enrolled key. -/
structure EnrolledKey where
  role : Role
  publicKey : String
  skPolicy : SkPolicy
deriving DecidableEq

/-- The enrolled keys for one trust domain. -/
structure TrustStore where
  trustDomain : String
  keys : List EnrolledKey
  retired : List EnrolledKey
  approvedAdmissions : List String
deriving DecidableEq

/-- A trust operation that could not report success. -/
inductive TrustError where
  | busy
  | io
  | notBootstrapped
  | noKeyForRole (role : String)
deriving DecidableEq, Repr

namespace TrustStore

def keyFor (trust : TrustStore) (role : Role) : Option EnrolledKey :=
  trust.keys.find? (·.role == role)

/-- Keys that may verify this exact approved Generation: the current one, and retired ones
when the Generation was registered, newest first. -/
def verificationKeys (trust : TrustStore) (role : Role) (generation : String) :
    List EnrolledKey :=
  let recorded := trust.approvedAdmissions.contains generation
  (trust.keyFor role).toList ++
    (trust.retired.filter fun key => recorded && key.role == role).reverse

/-- The key that may sign a routine Admission. -/
def admissionKey (trust : TrustStore) : Except TrustError EnrolledKey :=
  match trust.keyFor .primary with
  | some key => .ok key
  | none => .error (.noKeyForRole Role.primary.name)

/-- Register an approved Admission. -/
def approve (trust : TrustStore) (generation : String) : TrustStore :=
  { trust with approvedAdmissions := Text.sortedSet (generation :: trust.approvedAdmissions) }

end TrustStore

/-! ### Errors -/

/-- An Admission or lifecycle step that was refused. What packages, keys and remotes report
is carried as the text their own code gives. -/
inductive AdmissionError where
  | io (path : Path)
  | recoveryRequired (failure source : AdmissionError)
  | commitUncertain (generation : String) (source : AdmissionError)
  | malformed (reason : String)
  | malformedJson
  | dossier (reason : String)
  | focus (reason : String)
  | trust (error : TrustError)
  | signer (reason : String)
  | signature (reason : String)
  | digest (error : DigestError)
  | profileTwice
  | profileScopeUnknown (package : String)
  | profileScope (package : String) (missing : List String)
  | witness (reason : String)
  | quarantine (error : QuarantineError)
  | notReviewable (package reason : String)
  | digestMismatch (claimed actual : String)
  | rootMismatch
  | chain (reason : String)
  | unknown (generation : String)
  | notWitnessed (digest : String)
  | witnessMismatch (digest : String)
  | notTrustedRelease (reason : String)
  | rollback (attempted : String) (current : UInt64)
deriving DecidableEq

/-! ### Files -/

/-- The files of a store, and the enrolled keys as they load. -/
structure Store where
  files : AList fun _ : Path => Bytes
  trust : Option TrustStore
  trusted : Bool

namespace Store

/-- The bytes at a path. -/
def contents (store : Store) (path : Path) : Option Bytes := store.files.lookup path

/-- Replace one file. -/
def put (store : Store) (path : Path) (bytes : Bytes) : Store :=
  { store with files := store.files.insert path bytes }

/-- Remove one file. -/
def delete (store : Store) (path : Path) : Store :=
  { store with files := store.files.erase path }

@[simp] theorem contents_put (s : Store) (path : Path) (b : Bytes) :
    (s.put path b).contents = Function.update s.contents path (some b) := by
  funext other
  by_cases h : other = path
  · subst h
    simp [contents, put]
  · simp [contents, put, h, AList.lookup_insert_ne h]

@[simp] theorem contents_delete (s : Store) (path : Path) :
    (s.delete path).contents = Function.update s.contents path none := by
  funext other
  by_cases h : other = path
  · subst h
    simp [contents, delete]
  · simp [contents, delete, h, AList.lookup_erase_ne h]

/-- The entries of the Generations directory. -/
def records (store : Store) : List (Digest × Bytes) :=
  store.files.entries.filterMap fun entry =>
    match entry with
    | ⟨.record digest, bytes⟩ => some (digest, bytes)
    | _ => none

end Store

/-- The order in which the system lists a directory. -/
structure Listing where
  order : List (Digest × Bytes) → List (Digest × Bytes)
  perm : ∀ entries, (order entries).Perm entries

/-- A step of the tool on a store. -/
abbrev Action (α : Type) := Program Store AdmissionError α

section

variable (sha256 : Sha256) (fmt : JsonFormat)

/-- Read a file that may be absent as text. -/
def readOptional (path : Path) : Action (Option String) :=
  query (fun store =>
    match store.contents path with
    | none => .ok none
    | some bytes =>
      match String.fromUTF8? ⟨bytes.toArray⟩ with
      | none => .error (.io path)
      | some text => .ok (some text)) (.io path)

/-- Replace a file durably; the directory may fail to sync after the rename. -/
def writeAtomic (path : Path) (bytes : Bytes) : Action Unit :=
  write (·.put path bytes) (.io path)

/-- Remove a file that is there. -/
def removeFile (path : Path) : Action Unit := remove (·.delete path) (.io path)

def syncDirectory (path : Path) : Action Unit := probe (.io path)

/-- Read a stored record without verifying it. -/
def loadRecord (store : Store) (digest : Digest) : Except AdmissionError GenerationRecord :=
  match store.contents (.record digest) with
  | none => .error (.unknown digest.toString)
  | some bytes =>
    match (fmt.fromSlice bytes : Option GenerationRecord) with
    | none => .error .malformedJson
    | some record => .ok record

def loadUnlocked (digest : Digest) : Action GenerationRecord :=
  query (loadRecord fmt · digest) (.io (.record digest))

/-- Write a record at the path of its own identity. -/
def writeRecord (record : GenerationRecord) : Action Unit :=
  writeAtomic (.record (record.digest sha256 fmt)) (fmt.toVec record)

/-- Every stored record, in directory order. -/
def decodeRecords (entries : List (Digest × Bytes)) :
    Except AdmissionError (List GenerationRecord) :=
  entries.mapM fun entry =>
    match (fmt.fromSlice entry.2 : Option GenerationRecord) with
    | none => .error .malformedJson
    | some record => .ok record

variable (listing : Listing)

/-- Every stored record, ordered by sequence. -/
def listUnlocked : Action (List GenerationRecord) :=
  query (fun store => do
    let records ← decodeRecords fmt (listing.order store.records)
    return records.insertionSort (·.payload.sequence ≤ ·.payload.sequence)) (.io .generations)

/-- The Generation in force, when there is one. -/
def currentUnlocked : Action (Option GenerationRecord) := do
  let records ← listUnlocked fmt listing
  return records.find? (·.state == .current)

/-- The trust store, when one exists. -/
def loadTrust : Action (Option TrustStore) := query (.ok ·.trust) (.trust .io)

/-- Replace the trust store. -/
def writeTrust (trust : TrustStore) : Action Unit :=
  write ({ · with trust := some trust }) (.trust .io)

end
end Louiselm.Admission
