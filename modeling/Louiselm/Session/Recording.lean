import Louiselm.Base.Checks
import Louiselm.Session.Records

/-!
# The recording writer

`lua/louiselm/session/recording.lua`: the tables the facts go to, and the queue in front of
them. A run of SQLite is one transaction over a part of the queue; it commits or does not, and
then it is reported, not always truly when it fails. What is done before a run, observers and
callbacks are steps of the main loop, and may call the writer again.
-/

namespace Louiselm.Session
open Base Base.Lua

/-! ### Tables -/

namespace Table

/-- The columns of a table. -/
def columns : Table → List String
  | turns => ["id", "agent", "provider", "acp_session_id", "prepared_at", "options", "model",
      "cost_baseline"]
  | turnEvents => ["turn_id", "sequence", "kind", "observed_at", "data"]
  | optionEvents => ["id", "observer_id", "sequence", "agent", "acp_session_id", "observed_at",
      "previous_options", "options", "source", "request", "turn_id"]
  | admissionEvents => ["turn_id", "phase", "agent", "acp_session_id", "observed_at", "data"]

/-- The columns of its primary key. -/
def key : Table → List String
  | turns => ["id"]
  | turnEvents => ["turn_id", "sequence"]
  | optionEvents => ["id"]
  | admissionEvents => ["turn_id", "phase"]

/-- The column that a conflicting retry would set to null. -/
def checked : Table → String
  | turns => "options"
  | turnEvents => "data"
  | optionEvents => "options"
  | admissionEvents => "data"

/-- The columns that may be null. -/
def nullable : Table → List String
  | turns => ["model", "cost_baseline"]
  | optionEvents => ["request", "turn_id"]
  | _ => []

/-- The columns of whole numbers. -/
def integers : Table → List String
  | turnEvents => ["sequence"]
  | optionEvents => ["sequence"]
  | _ => []

/-- The values a column is limited to. -/
def limited : Table → List (String × List String)
  | turnEvents => [("kind", ["dispatch", "cost", "cancel_requested", "outcome"])]
  | optionEvents => [("source", ["notification", "response"])]
  | admissionEvents => [("phase", ["decision", "settlement"])]
  | turns => []

/-- A cell of a row. -/
def cell (table : Table) (column : String) (row : List Cell) : Cell :=
  (row[table.columns.idxOf column]?).getD .null

/-- The key of a row. -/
def keyOf (table : Table) (row : List Cell) : List Cell := table.key.map (table.cell · row)

/-- A number that fits a column of a strict table. -/
def isStored (number : Number) : Bool :=
  number.isWhole && (Number.finite (-2 ^ 63)).le number && !(Number.ofNat (2 ^ 63)).le number

/-- No column is null that must not be. -/
def notNull (table : Table) (row : List Cell) : Bool :=
  table.columns.all fun column =>
    table.nullable.contains column || table.cell column row != .null

/-- The cells have the types of their columns. -/
def typed (table : Table) (row : List Cell) : Bool :=
  row.length == table.columns.length && table.columns.all fun column =>
    match table.cell column row with
    | .null => true
    | .text _ => !table.integers.contains column
    | .integer number => table.integers.contains column && isStored number

/-- Positions are from one on, and limited columns have one of their values. -/
def inLimits (table : Table) (row : List Cell) : Bool :=
  (table.integers.all fun column =>
    match table.cell column row with
    | .integer number => (Number.ofNat 1).le number
    | _ => true) &&
  table.limited.all fun limit =>
    match table.cell limit.1 row with
    | .text text => limit.2.contains text
    | _ => true

/-- What else must be unique: an outcome of its turn, a position of its observer. -/
def clashes (table : Table) (row other : List Cell) : Bool :=
  match table with
  | turnEvents => table.cell "kind" row == .text "outcome" &&
      table.cell "kind" other == .text "outcome" &&
      table.cell "turn_id" row == table.cell "turn_id" other
  | optionEvents => table.cell "observer_id" row == table.cell "observer_id" other &&
      table.cell "sequence" row == table.cell "sequence" other
  | _ => false

/-- The turn a row refers to. -/
def reference (table : Table) (row : List Cell) : Cell :=
  match table with
  | turnEvents => table.cell "turn_id" row
  | optionEvents => table.cell "turn_id" row
  | _ => .null

/-- What a retry writes over a row: the row itself where it is the same, or else null in the
checked column. -/
def retried (table : Table) (stored row : List Cell) : List Cell :=
  stored.set (table.columns.idxOf table.checked)
    (if table.columns.all fun column => table.cell column stored == table.cell column row then
      table.cell table.checked row else .null)

end Table

/-- The facts of every table in the order in which they came, and the preferences. -/
structure Database where
  facts : Table → List (List Cell)
  preferences : String → String → Option String

namespace Database

/-- Put rows in the place of those of one table. -/
def withRows (db : Database) (table : Table) (rows : List (List Cell)) : Database :=
  { db with facts := fun other => if other = table then rows else db.facts other }

/-- Insert a row, or write it over the one with its key. -/
def insert (db : Database) (table : Table) (row : List Cell) :
    Except RecordingErrorCode Database := do
  require (table.typed row) .storage
  require (table.notNull row) .conflict
  require (table.inLimits row) .corrupt
  let rows := db.facts table
  match rows.findIdx? fun stored => table.keyOf stored == table.keyOf row with
  | some index =>
    let written := table.retried ((rows[index]?).getD []) row
    require (table.notNull written) .conflict
    return db.withRows table (rows.set index written)
  | none =>
    require (!rows.any (table.clashes row)) .conflict
    require (table.reference row == .null ||
      (db.facts .turns).any fun turn => Table.turns.cell "id" turn == table.reference row) .storage
    return db.withRows table (rows ++ [row])

/-- The preferences after one fragment. -/
def setPreference (preferences : String → String → Option String) :
    Statement → String → String → Option String
  | .preference agent acpSessionId preference => fun otherAgent otherSession =>
    if otherAgent = agent ∧ otherSession = acpSessionId then some preference
    else preferences otherAgent otherSession
  | _ => preferences

/-- Run one fragment of a transaction. -/
def exec (db : Database) : Statement → Except RecordingErrorCode Database
  | .nothing => .ok db
  | .fact table row => db.insert table row
  | .preference agent acpSessionId preference => .ok { db with
      preferences := setPreference db.preferences (.preference agent acpSessionId preference) }

/-- Run a transaction: all of it, or nothing. -/
def transact (db : Database) (statements : List Statement) : Except RecordingErrorCode Database :=
  statements.foldlM exec db

end Database

/-! ### The queue -/

/-- A queued write; `callback` is the call it acknowledges, until it has. -/
structure RecordingWrite where
  sql : Statement
  error : Option RecordingErrorCode
  callback : Option Nat
deriving DecidableEq

/-- What the main loop has to do next. -/
inductive Task where
  | changed (error : Option RecordingErrorCode) (pending : Bool)
  | start
  | callback (call : Nat) (error : Option RecordingErrorCode)
  | drain
deriving DecidableEq

/-- The run of SQLite that is under way: how many writes it has, and whether it has committed. -/
structure SqliteRun where
  count : Nat
  committed : Bool
deriving DecidableEq

/-- A call of the writer, with whether it gave a callback. -/
inductive RecordingCall where
  | append (record : Value) (callback : Bool)
  | flush
  | savePreference (agent acpSessionId preference : Option Value)

/-- The writer, its database and the main loop. Beside them every call that was made, and every
callback that was called, with its error. -/
structure Recorder where
  queue : List RecordingWrite
  busy : Bool
  error : Option RecordingErrorCode
  db : Database
  /-- A drain waits for the main loop. -/
  scheduled : Bool
  /-- The tasks of the step of the main loop that is under way. -/
  tasks : List Task
  run : Option SqliteRun
  /-- Refused calls whose callback waits for the main loop. -/
  refusals : List (Nat × RecordingErrorCode)
  calls : List RecordingCall
  called : List (Nat × Option RecordingErrorCode)

namespace Recorder

def new (db : Database) : Recorder :=
  { queue := [], busy := false, error := none, db, scheduled := false, tasks := [], run := none
    refusals := [], calls := [], called := [] }

/-- Schedule a run, unless one is under way or there is nothing to write. -/
def drain (recorder : Recorder) : Recorder :=
  if recorder.busy || recorder.queue.isEmpty then recorder
  else { recorder with busy := true, scheduled := true }

/-- Put a write at the end of the queue. -/
def enqueue (write : RecordingWrite) (recorder : Recorder) : Recorder :=
  { recorder with queue := recorder.queue ++ [write] }

/-- Queue a fact. -/
def append (codec : Codec) (call : Nat) (record : Value) (callback : Bool)
    (recorder : Recorder) : Recorder :=
  let write : RecordingWrite := match recordSql codec record with
    | some sql => ⟨sql, none, if callback then some call else none⟩
    | none => ⟨.nothing, some .invalid, if callback then some call else none⟩
  let queued := recorder.enqueue write
  -- After a failure only an explicit flush retries.
  if queued.error.isNone then queued.drain else queued

/-- Queue a barrier. -/
def flush (call : Nat) (recorder : Recorder) : Recorder :=
  (recorder.enqueue ⟨.nothing, none, some call⟩).drain

/-- The write of a preference. -/
def preferenceSql (codec : Codec) (agent acpSessionId preference : Option Value) :
    Option Statement :=
  match Value.text? agent, Value.text? acpSessionId, preference.bind (json codec.encode) with
  | some agent, some acpSessionId, some text => some (.preference agent acpSessionId text)
  | _, _, _ => none

/-- Queue a preference. A writer that has failed refuses it at once, and keeps it. -/
def savePreference (codec : Codec) (call : Nat) (agent acpSessionId preference : Option Value)
    (recorder : Recorder) : Recorder :=
  if !(nonempty agent && nonempty acpSessionId && validPreference preference) then
    { recorder with refusals := recorder.refusals ++ [(call, .invalid)] }
  else
    match preferenceSql codec agent acpSessionId preference, recorder.error with
    -- The encoder raises an error.
    | none, _ => recorder
    | some sql, some error => { recorder.enqueue ⟨sql, none, none⟩ with
        refusals := recorder.refusals ++ [(call, error)] }
    | some sql, none => (recorder.enqueue ⟨sql, none, some call⟩).drain

/-- Make a call. -/
def call (codec : Codec) (made : RecordingCall) (recorder : Recorder) : Recorder :=
  let number := recorder.calls.length
  let recorder := { recorder with calls := recorder.calls ++ [made] }
  match made with
  | .append record callback => recorder.append codec number record callback
  | .flush => recorder.flush number
  | .savePreference agent acpSessionId preference =>
    recorder.savePreference codec number agent acpSessionId preference

/-- The run of `count` writes is over. -/
def finished (count : Nat) (error : Option RecordingErrorCode) (recorder : Recorder) : Recorder :=
  let reach := if error.isSome then recorder.queue.length else count
  let acknowledged := recorder.queue.take reach
  let kept := acknowledged.map (fun write => { write with callback := none }) ++
    recorder.queue.drop reach
  let queue := if error.isNone then kept.drop count else kept
  { recorder with
    queue
    busy := false
    error
    run := none
    tasks := .changed error (!queue.isEmpty) ::
      ((acknowledged.filterMap (·.callback)).map (.callback · error) ++
        (if error.isNone then [.drain] else []) ++ recorder.tasks) }

/-- Start a run of the whole queue. Whether something is missing for it is an argument. -/
def start (missing : Option RecordingErrorCode) (recorder : Recorder) : Recorder :=
  let count := recorder.queue.length
  match recorder.queue.findSome? (·.error) with
  | some error => recorder.finished count (some error)
  | none =>
    match missing with
    | some error => recorder.finished count (some error)
    | none => { recorder with run := some ⟨count, false⟩ }

end Recorder

/-- What happens to the writer. -/
inductive RecordingEvent where
  /-- A call, also from an observer or a callback. -/
  | call (made : RecordingCall)
  /-- The next task of the main loop's step. -/
  | task (missing : Option RecordingErrorCode)
  /-- The main loop reaches the scheduled drain. -/
  | begin
  /-- The main loop reaches a refused call. -/
  | refuse
  /-- The transaction commits. -/
  | commit
  /-- The end of the run is reported. -/
  | report (error : Option RecordingErrorCode)

namespace Recorder

/-- One step. The main loop starts nothing new before it is done with what it does. A run is
reported as a success only when it has committed. -/
def step (codec : Codec) (recorder : Recorder) : RecordingEvent → Recorder
  | .call made => recorder.call codec made
  | .task missing =>
    match recorder.tasks with
    | [] => recorder
    | .changed _ _ :: tasks => { recorder with tasks }
    | .start :: tasks => { recorder with tasks }.start missing
    | .callback call error :: tasks =>
      { recorder with tasks, called := recorder.called ++ [(call, error)] }
    | .drain :: tasks => { recorder with tasks }.drain
  | .begin =>
    if recorder.scheduled && recorder.tasks.isEmpty then
      { recorder with scheduled := false, tasks := [.changed recorder.error true, .start] }
    else recorder
  | .refuse =>
    match recorder.refusals with
    | [] => recorder
    | (call, error) :: refusals =>
      if recorder.tasks.isEmpty then
        { recorder with refusals, called := recorder.called ++ [(call, some error)] }
      else recorder
  | .commit =>
    match recorder.run with
    | none => recorder
    | some run =>
      if run.committed then recorder
      else
        match recorder.db.transact ((recorder.queue.take run.count).map (·.sql)) with
        | .error _ => recorder
        | .ok db => { recorder with db, run := some { run with committed := true } }
  | .report error =>
    match recorder.run with
    | none => recorder
    | some run =>
      if recorder.tasks.isEmpty && (error.isSome || run.committed) then
        recorder.finished run.count error
      else recorder

end Recorder

end Louiselm.Session
