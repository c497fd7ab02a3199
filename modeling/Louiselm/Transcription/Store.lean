import Mathlib.Data.List.AList
import Louiselm.Base.Checks
import Louiselm.Base.Hex
import Louiselm.Base.Program
import Louiselm.Base.Text

/-!
# The capture store and its transcription worker

`capture-service/src/store.rs` and `transcription.rs`: one directory a capture, with its
record, its processing state and, once written, its transcript. The record and the state
appear and are replaced as a whole and are kept as values; `transcript.json` is written in
place, byte after byte. Parsing a UUID and the JSON of a transcript are parameters.
-/

namespace Louiselm.Transcription
open Base Program

/-! ### The store -/

/-- The immutable record of a capture. -/
structure CaptureRecord where
  id : String
  recordedAtMs : UInt64
  mimeType : String
deriving DecidableEq, Repr

/-- Where the transcription of a capture stands. -/
structure TranscriptionState where
  status : String
  attempts : UInt32
  lastError : Option String
  nextAttemptAtMs : Option UInt64
deriving DecidableEq, Repr

structure Transcript where
  schemaVersion : UInt8
  captureId : String
  provider : String
  model : String
  createdAtMs : UInt64
  text : String
deriving DecidableEq, Repr

/-- The directory of a capture: its record, its state, the name of its audio file, and the
bytes of its transcript file. -/
structure Capture where
  record : CaptureRecord
  transcription : TranscriptionState
  audio : String
  transcript : Option Bytes
deriving DecidableEq, Repr

/-- The capture directories, and the captures the provider was asked for so far. -/
structure World where
  captures : AList fun _ : String => Capture
  asked : List String

inductive StoreError where
  | invalidCapture (reason : String)
  | conflict (id : String)
  | notFound (id : String)
  | io
  | json
deriving DecidableEq, Repr

/-- A step of the service on its captures. -/
abbrev Action (α : Type) := Program World StoreError α

/-- Change a capture's directory. -/
def World.modify (world : World) (id : String) (change : Capture → Capture) : World :=
  match world.captures.lookup id with
  | none => world
  | some capture => { world with captures := world.captures.insert id (change capture) }

def extensionForMime : String → Option String
  | "audio/mp4" => some "m4a"
  | "audio/ogg" => some "ogg"
  | "audio/wav" => some "wav"
  | "audio/x-wav" => some "wav"
  | "audio/webm" => some "webm"
  | _ => none

section

variable (uuid : String → Option String)

/-- A canonical UUID: `uuid` parses a text and prints what it parsed. -/
def validateId (id : String) : Except StoreError Unit :=
  match uuid id with
  | none => .error (.invalidCapture "id must be a UUID")
  | some canonical =>
    require (canonical == id.toLower) (.invalidCapture "id must use canonical UUID text")

/-- Load one capture. -/
def World.capture (world : World) (id : String) : Except StoreError Capture := do
  (validateId uuid id).mapError fun _ => .notFound id
  match world.captures.lookup id with
  | none => .error (.notFound id)
  | some capture =>
    match extensionForMime capture.record.mimeType with
    | none => .error (.invalidCapture "stored MIME type is unsupported")
    | some extension => do
      require (capture.audio == "audio." ++ extension) .io
      return capture

def capture (id : String) : Action Capture := query (World.capture uuid · id) .io

/-- Captures are listed by the time of their recording, then by id. -/
def CaptureRecord.Upto (a b : CaptureRecord) : Prop :=
  a.recordedAtMs < b.recordedAtMs ∨ a.recordedAtMs = b.recordedAtMs ∧ a.id ≤ b.id

instance (a b : CaptureRecord) : Decidable (a.Upto b) := by
  unfold CaptureRecord.Upto
  infer_instance

/-- Load the captures with the ids of a directory listing. -/
def captures : List String → Action (List Capture)
  | [] => return []
  | id :: ids => do
    let capture ← capture uuid id
    let rest ← captures ids
    return capture :: rest

/-- List every capture; names that are no capture id are passed over. -/
def list : Action (List Capture) := do
  let ids ← query (fun world =>
    .ok (world.captures.keys.filter fun id => (validateId uuid id).isOk)) .io
  let captures ← captures uuid ids
  return captures.insertionSort (·.record.Upto ·.record)

variable (parse : Bytes → Option Transcript) (print : Transcript → Bytes)

/-- Load a transcript. -/
def World.transcript (world : World) (id : String) : Except StoreError Transcript := do
  (validateId uuid id).mapError fun _ => .notFound id
  match (world.captures.lookup id).bind (·.transcript) with
  | none => .error (.notFound id)
  | some bytes =>
    match parse bytes with
    | none => .error .json
    | some transcript => return transcript

/-- Replace a capture's state durably. -/
def writeState (id : String) (state : TranscriptionState) : Action Unit :=
  write (·.modify id fun capture => { capture with transcription := state }) .io

def markCompleted (id : String) : Action Unit := do
  let capture ← capture uuid id
  writeState id { capture.transcription with
    status := "completed", lastError := none, nextAttemptAtMs := none }

/-- The delay before the next attempt: five seconds, doubled up to nine times. -/
def retryDelay (attempts : UInt32) : UInt64 :=
  5000 * UInt64.ofNat (2 ^ min (attempts.toNat - 1) 9)

def saturatingAdd (a b : UInt64) : UInt64 := UInt64.ofNat (min (a.toNat + b.toNat) (2 ^ 64 - 1))

/-- A state after a failed attempt. -/
def TranscriptionState.failed (state : TranscriptionState) (nowMs : UInt64) (message : String)
    (retry : Bool) : TranscriptionState :=
  let attempts := UInt32.ofNat (min (state.attempts.toNat + 1) (2 ^ 32 - 1))
  { attempts
    lastError := some message
    status := if retry then "retrying" else "failed"
    nextAttemptAtMs := if retry then some (saturatingAdd nowMs (retryDelay attempts)) else none }

def recordFailure (id : String) (nowMs : UInt64) (message : String) (retry : Bool) :
    Action Unit := do
  let capture ← capture uuid id
  writeState id (capture.transcription.failed nowMs message retry)

/-- Append to a transcript file, byte after byte. -/
def appendBytes (id : String) : Bytes → Action Unit
  | [] => return ()
  | byte :: bytes => do
    write (·.modify id fun capture =>
      { capture with transcript := capture.transcript.map (· ++ [byte]) }) .io
    appendBytes id bytes

/-- Create a transcript file and write it in place. -/
def writeTranscript (id : String) (bytes : Bytes) : Action Unit := do
  write (·.modify id fun capture => { capture with transcript := some [] }) .io
  probe .io
  appendBytes id bytes
  probe .io

/-- Persist a transcript once and mark its capture completed. -/
def completeTranscription (id : String) (transcript : Transcript) : Action Unit := do
  let capture ← capture uuid id
  ofExcept (require (transcript.captureId == id && transcript.schemaVersion == 1 &&
      transcript.provider != "" && transcript.model != "" && !Text.isBlank transcript.text &&
      transcript.createdAtMs != 0) (.invalidCapture "transcript metadata is invalid"))
  if capture.transcript.isSome then do
    let stored ← query (World.transcript uuid parse · id) .io
    if stored = transcript then markCompleted uuid id else fail (.conflict id)
  else do
    writeTranscript id (print transcript ++ utf8 "\n")
    markCompleted uuid id

/-! ### The worker -/

/-- What a provider is given. -/
structure TranscriptRequest where
  captureId : String
  audio : String
  mimeType : String

/-- A sanitized provider failure. -/
structure TranscriptionError where
  transient : Bool
  message : String

/-- A transcription provider and how it answers during one pass. -/
structure Transcriber where
  name : String
  model : String
  transcribe : TranscriptRequest → Except TranscriptionError String

/-- A capture is pending, or its retry is due. -/
def TranscriptionState.ready (state : TranscriptionState) (nowMs : UInt64) : Bool :=
  state.status == "pending" ||
    (state.status == "retrying" && state.nextAttemptAtMs.any (· ≤ nowMs))

/-- The transcript of a text that a provider returned. -/
def Transcriber.transcript (provider : Transcriber) (id : String) (nowMs : UInt64)
    (text : String) : Transcript :=
  ⟨1, id, provider.name, provider.model, nowMs, text⟩

/-- Ask the provider for a capture and persist what it answers. -/
def transcribe (provider : Transcriber) (nowMs : UInt64) (capture : Capture) : Action Unit := do
  let id := capture.record.id
  effect fun world => { world with asked := world.asked ++ [id] }
  match provider.transcribe ⟨id, capture.audio, capture.record.mimeType⟩ with
  | .ok text =>
    if Text.isBlank text then
      recordFailure uuid id nowMs "provider returned an empty transcript" false
    else completeTranscription uuid parse print id (provider.transcript id nowMs text)
  | .error error => recordFailure uuid id nowMs error.message error.transient

/-- Attempt one listed capture when it is ready. A stored transcript is tested by reading it,
and only completes the capture. -/
def processCapture (provider : Transcriber) (nowMs : UInt64) (capture : Capture) :
    Action Nat := do
  if !capture.transcription.ready nowMs then return 0
  else if ← observe fun world =>
      (world.transcript uuid parse capture.record.id).isOk then do
    markCompleted uuid capture.record.id
    return 1
  else do
    transcribe uuid parse print provider nowMs capture
    return 1

def processCaptures (provider : Transcriber) (nowMs : UInt64) : List Capture → Nat → Action Nat
  | [], processed => return processed
  | capture :: rest, processed => do
    let attempted ← processCapture uuid parse print provider nowMs capture
    processCaptures provider nowMs rest (processed + attempted)

/-- Attempt every pending or due capture once. -/
def processReady (provider : Transcriber) (nowMs : UInt64) : Action Nat := do
  let captures ← list uuid
  processCaptures uuid parse print provider nowMs captures 0

end
end Louiselm.Transcription
