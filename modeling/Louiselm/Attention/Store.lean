import Louiselm.Attention.Items
import Louiselm.Capture.Runs

/-!
# The Attention store

`capture-service/src/attention.rs`, `attention_projection.rs` and `attention_runs.rs`: one
file of unresolved conditions, replaced as a whole under the store's lock. Every read of it
also drops the local Park conditions whose Run is resolved; the Run store and the clock that
each of these looks sees are parameters, since neither is locked. The JSON text that a
projection is digested over is a parameter, too.
-/

namespace Louiselm.Attention
open Base Canonical Capture

/-! ### The file -/

/-- The last projection of the broker that was applied. -/
structure ProjectionCursor where
  sequence : UInt64
  digest : String
deriving DecidableEq, Repr

structure PersistedAttention where
  schemaVersion : UInt8
  generation : UInt64
  items : List AttentionItem
  brokerProjection : Option ProjectionCursor
deriving DecidableEq, Repr

/-- The file that opening an absent store writes. -/
def PersistedAttention.initial : PersistedAttention := ⟨1, 0, [], none⟩

/-- What readers are shown. -/
structure AttentionSnapshot where
  generation : UInt64
  items : List AttentionItem
deriving DecidableEq, Repr

def snapshotOf (state : PersistedAttention) : AttentionSnapshot := ⟨state.generation, state.items⟩

/-- A step of the service on its Attention file. -/
abbrev Action (α : Type) := Program PersistedAttention AttentionError α

def ProjectionCursor.validate (cursor : ProjectionCursor) : Except AttentionError Unit :=
  require (cursor.sequence != 0 && cursor.digest.toList.length == 64 &&
      cursor.digest.toList.all Hex.isDigit) (.invalid "broker projection cursor is invalid")

/-- Two neighbours have one key. -/
def adjacentKeys : List AttentionItem → Bool
  | first :: second :: rest => first.key == second.key || adjacentKeys (second :: rest)
  | _ => false

def advanceGeneration (state : PersistedAttention) : Except AttentionError PersistedAttention :=
  match checkedAdd state.generation 1 with
  | none => .error (.invalid "Attention generation overflowed")
  | some generation => .ok { state with generation }

section

variable (uuid : String → Option String)

def validateState (state : PersistedAttention) : Except AttentionError Unit := do
  if let some cursor := state.brokerProjection then cursor.validate
  require (state.schemaVersion == 1) (.invalid "Attention schema version is unsupported")
  state.items.forM (validateItem uuid)
  require (!adjacentKeys (sortItems state.items))
      (.invalid "Attention state contains duplicate keys")
  require (sortItems state.items == state.items)
    (.invalid "Attention items are not deterministically ordered")

/-! ### Local Parks -/

/-- What one look at the Run store sees. -/
structure Reading where
  runs : Option RunStore
  nowMs : UInt64

variable (sha256 : Sha256)

/-- The UUID text of sixteen bytes. -/
def uuidText (bytes : Bytes) : String :=
  let hex := Hex.encode bytes
  String.ofList (hex.take 8 ++ ['-'] ++ (hex.drop 8).take 4 ++ ['-'] ++ (hex.drop 12).take 4 ++
    ['-'] ++ (hex.drop 16).take 4 ++ ['-'] ++ hex.drop 20)

/-- The operation under which the local controller reports the Park of a Run. -/
def parkOperation (runId : String) : String :=
  let bytes := ((sha256 (utf8 ("run_parked:" ++ runId))).toList).take 16
  let bytes := bytes.modify 6 fun byte => (byte &&& 0x0f) ||| 0x40
  uuidText (bytes.modify 8 fun byte => (byte &&& 0x3f) ||| 0x80)

def isLocalPark (key : AttentionKey) : Bool :=
  key.subjectKind == .run && key.kind == .runParked &&
    key.sourceOperationId == parkOperation sha256 key.subjectId

/-- Find one retained Run record. -/
def findView (runs : RunStore) (id : String) : Except RunStoreError (Option Run) := do
  validateId uuid id
  match runs.lookup id with
  | none => return none
  | some run => do
    require (run.schemaVersion == 4 && run.revision != 0 && run.id == id &&
      run.generatedWork.ceiling != 0 && run.parkTtlMs != 0) (.invalid "stored Run is invalid")
    return some run

/-- Whether the Run of a local Park condition no longer waits. -/
def runResolved (run : Run) (nowMs : UInt64) : Except AttentionError Bool :=
  if (run.state = "parked" ∨ run.state = "cold_parked") ∧ 0 < run.parkExpiresAtMs then
    .ok (decide (run.parkExpiresAtMs ≤ nowMs))
  else if run.state = "resuming" then .ok false
  else if run.state = "active" ∨ run.state = "disposed" then .ok true
  else .error (.run "stored Run lifecycle state is invalid")

def localParkResolved (reading : Reading) (key : AttentionKey) : Except AttentionError Bool :=
  match reading.runs with
  | none => .ok false
  | some runs =>
    if !isLocalPark sha256 key then .ok false
    else
      match findView uuid runs key.subjectId with
      | .error _ => .error (.run "Run record could not be read")
      | .ok none => .ok false
      | .ok (some run) => runResolved run reading.nowMs

/-- The items whose Park is not resolved; the look for an item is that of its place. -/
def unresolved (look : Nat → Reading) : Nat → List AttentionItem →
    Except AttentionError (List AttentionItem)
  | _, [] => .ok []
  | place, item :: items => do
    let resolved ← localParkResolved uuid sha256 (look place) item.key
    let retained ← unresolved look (place + 1) items
    return if resolved then retained else item :: retained

/-! ### Access under the lock -/

/-- Replace the Attention file durably. -/
def persist (state : PersistedAttention) : Action Unit := Program.write (fun _ => state) .io

/-- Run an operation under the store's lock. -/
def withLock {α : Type} (operation : Action α) : Action α := do
  Program.probe .io
  let result ← operation
  Program.probe .io
  return result

/-- Drop the local Park conditions whose Run is resolved. -/
def reconcileLocalParks (look : Nat → Reading) (state : PersistedAttention) :
    Action PersistedAttention := do
  let retained ← Program.ofExcept (unresolved uuid sha256 look 0 state.items)
  if retained.length ≠ state.items.length then do
    let state ← Program.ofExcept (advanceGeneration { state with items := retained })
    persist state
    return state
  else return state

/-- Read the file, check it and reconcile it. -/
def load (look : Nat → Reading) : Action PersistedAttention := do
  let state ← Program.query (fun state => .ok state) .io
  Program.ofExcept (validateState uuid state)
  reconcileLocalParks uuid sha256 look state

/-! ### Local operations -/

def snapshot (look : Nat → Reading) : Action AttentionSnapshot :=
  withLock do
    let state ← load uuid sha256 look
    return snapshotOf state

/-- Persist a state that changed, with its next generation. -/
def commit (state : PersistedAttention) : Action AttentionSnapshot := do
  let state ← Program.ofExcept (advanceGeneration state)
  persist state
  return snapshotOf state

/-- Replace the first item with a key. -/
def replaceItem (key : AttentionKey) (change : AttentionItem → AttentionItem) :
    List AttentionItem → List AttentionItem
  | [] => []
  | item :: items =>
    if item.key = key then change item :: items else item :: replaceItem key change items

/-- The items after a condition was reported, when that changes them. A local Park keeps the
time at which it was reported first. -/
def upsertItems (draft : AttentionDraft) (items : List AttentionItem) :
    Option (List AttentionItem) :=
  match items.find? (·.key == draft.key) with
  | none => some (items ++ [draft.item false])
  | some current =>
    let item := draft.item current.eligible
    let item := if isLocalPark sha256 draft.key then
      { item with createdAtMs := current.createdAtMs } else item
    if sameContent current item then none else some (replaceItem draft.key (fun _ => item) items)

/-- Add or update one condition. `again` is the look for the reported condition. -/
def upsert (look : Nat → Reading) (again : Reading) (draft : AttentionDraft) :
    Action AttentionSnapshot := do
  Program.ofExcept (validateDraft uuid draft)
  withLock do
    let state ← load uuid sha256 look
    if ← Program.ofExcept (localParkResolved uuid sha256 again draft.key) then
      return snapshotOf state
    else
      match upsertItems sha256 draft state.items with
      | none => return snapshotOf state
      | some items => commit { state with items := sortItems items }

/-- Set the delivery eligibility of one condition. -/
def setEligible (look : Nat → Reading) (key : AttentionKey) (eligible : Bool) :
    Action AttentionSnapshot := do
  Program.ofExcept (validateKey uuid key)
  withLock do
    let state ← load uuid sha256 look
    match state.items.find? (·.key == key) with
    | none => Program.fail (.invalid "Attention item was not found")
    | some item =>
      if item.eligible = eligible then return snapshotOf state
      else commit { state with
        items := replaceItem key (fun item => { item with eligible }) state.items }

/-- Drop the items that a test does not keep. -/
def retain (look : Nat → Reading) (keep : AttentionItem → Bool) : Action AttentionSnapshot :=
  withLock do
    let state ← load uuid sha256 look
    if (state.items.filter keep).length ≠ state.items.length then
      commit { state with items := state.items.filter keep }
    else return snapshotOf state

/-- Clear one condition. -/
def clear (look : Nat → Reading) (key : AttentionKey) : Action AttentionSnapshot := do
  Program.ofExcept (validateKey uuid key)
  retain uuid sha256 look fun item => item.key != key

/-- Clear one kind of condition of a Session. -/
def clearSessionKind (look : Nat → Reading) (sessionId : String) (kind : AttentionKind) :
    Action AttentionSnapshot := do
  Program.ofExcept (validateSubjectId sessionId)
  retain uuid sha256 look fun item =>
    item.subjectKind != .session || item.subjectId != sessionId || item.kind != kind

/-- Clear every condition of a Session. -/
def clearSession (look : Nat → Reading) (sessionId : String) : Action AttentionSnapshot := do
  Program.ofExcept (validateSubjectId sessionId)
  retain uuid sha256 look fun item =>
    item.subjectKind != .session || item.subjectId != sessionId

/-! ### Projections of the broker -/

/-- One transition of the conditions that the broker owns. -/
inductive ProjectionChange where
  | upsert (attention : AttentionDraft)
  | clear (key : AttentionKey)
  | clearSubject (subjectKind : AttentionSubjectKind) (subjectId : String)
deriving DecidableEq, Repr

/-- One entry of the broker's outbox. -/
structure BrokerProjection where
  sequence : UInt64
  change : ProjectionChange
deriving DecidableEq, Repr

structure ProjectionResult where
  sequence : UInt64
  digest : String
  applied : Bool
deriving DecidableEq, Repr

def validateChange : ProjectionChange → Except AttentionError Unit
  | .upsert attention => validateDraft uuid attention
  | .clear key => validateKey uuid key
  | .clearSubject subjectKind subjectId => do
    require (subjectKind != .supply) (.invalid "Supply conditions require an exact clear")
    validateSubjectId subjectId
    if subjectKind = .run then validateUuid uuid subjectId "Run subject_id"

def validateProjection (projection : BrokerProjection) : Except AttentionError Unit := do
  require (projection.sequence != 0) (.invalid "broker projection sequence must be positive")
  validateChange uuid projection.change

/-- The items after a change of the broker. -/
def apply (items : List AttentionItem) : ProjectionChange → List AttentionItem
  | .upsert attention =>
    if items.any (·.key == attention.key) then
      replaceItem attention.key (fun _ => attention.item true) items
    else items ++ [attention.item true]
  | .clear key => items.filter fun item => item.key != key
  | .clearSubject subjectKind subjectId => items.filter fun item =>
    item.subjectKind != subjectKind || item.subjectId != subjectId

variable (canonical : BrokerProjection → Bytes)

/-- The digest of a projection. -/
def projectionDigest (projection : BrokerProjection) : String :=
  (Digest.of sha256 (canonical projection)).hex

/-- Apply a projection once, in order; one that was applied is only acknowledged. -/
def project (look : Nat → Reading) (projection : BrokerProjection) :
    Action ProjectionResult := do
  Program.ofExcept (validateProjection uuid projection)
  let digest := projectionDigest sha256 canonical projection
  withLock do
    let state ← load uuid sha256 look
    let previous := (state.brokerProjection.map (·.sequence)).getD 0
    if projection.sequence ≤ previous then
      if projection.sequence = previous ∧ state.brokerProjection.any (·.digest != digest) then
        Program.fail (.invalid "broker projection sequence conflicts")
      else do
        persist state
        return ⟨projection.sequence, digest, false⟩
    else if checkedAdd previous 1 ≠ some projection.sequence then
      Program.fail (.invalid "broker projection sequence has a gap")
    else do
      let state ← Program.ofExcept (advanceGeneration { state with
        items := sortItems (apply state.items projection.change) })
      persist { state with brokerProjection := some ⟨projection.sequence, digest⟩ }
      return ⟨projection.sequence, digest, true⟩

end
end Louiselm.Attention
