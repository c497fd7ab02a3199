import Louiselm.Base.Checks
import Louiselm.Base.Lua

/-!
# One workflow Run

`lua/louiselm/workflow/run.lua`: the status of a Run, the Sessions it owns, its cancellation
timers and the Parks that wait for the service. What workers say and report when they are
called, and what the service answers, are arguments of each call. A timer fires once, at its
delay or later; the service answers a call it started at most once.
-/

namespace Louiselm.Workflow
open Base Base.Lua Value

inductive RunStatus where
  | active
  | cancelling
  | cancelled
  | parked
  | disposed
deriving DecidableEq, Repr

structure GeneratedWork where
  ceiling : Number
  consumed : Number
  reserved : Number
deriving DecidableEq

/-- One workflow Run. Its workers are Sessions, by their identity. -/
structure Run where
  cancellationTimeoutMs : Nat
  workers : List Nat
  status : RunStatus
  parkRecord : Option Value
  claims : List String
  generatedWork : Option GeneratedWork

/-- What workers say and do while one call runs: their state, their client and whether they can
be disposed of. -/
structure Look where
  inspect : Nat → Option Value
  client : Nat → Option Value
  dispose : Nat → Except (Option String) Unit

/-- Why a worker cannot be disposed of, if it cannot. -/
def Look.failure (look : Look) (worker : Nat) : Option String :=
  match look.dispose worker with
  | .ok () => none
  | .error error => some (error.getD "worker disposal failed")

/-- How the Park service takes a call: it refuses, it starts, or it answers at once. -/
inductive ServiceReply where
  | refused (message : String)
  | started
  | answered (ok : Bool)
deriving DecidableEq

/-! ### Checks -/

/-- A whole number from zero on. -/
def isCount (number : Number) : Bool := (Number.ofNat 0).le number && number.isWhole

def copyClaims (claims : Option Value) : Except String (List String) :=
  match claims with
  | some (.table fields) =>
    let items := (table fields).sequence
    let texts := items.filterMap fun item => text? (some item)
    if texts.length != items.length || texts.contains "" then
      .error "Run claims must be an array of non-empty strings"
    else if !(table fields).isArray then .error "Run claims must be a dense array"
    else .ok texts
  | _ => .error "Run claims must be an array"

def copyGeneratedWork (generatedWork : Option Value) : Except String GeneratedWork :=
  if !isTable generatedWork then .error "Run generated_work must be a table"
  else
    let count (name : String) :=
      (number? (generatedWork.bind (·.field name))).filter isCount
    match count "ceiling", count "consumed", count "reserved" with
    | some ceiling, some consumed, some reserved => .ok ⟨ceiling, consumed, reserved⟩
    | _, _, _ => .error "Run generated_work fields must be non-negative integers"

/-- The statuses of a worker with work under way. -/
def busyStatuses : List String :=
  ["admitting", "preparing", "prompting", "running", "waiting_permission", "cancelling"]

/-- Whether a worker has nothing under way. -/
def acknowledged (state : Option Value) : Bool :=
  match text? (state.bind (·.field "status")) with
  | some status => !busyStatuses.contains status
  | none => true

/-- Whether a number is not below one. -/
def isFromOne (number : Number) : Bool :=
  !(number.le (.ofNat 1) && !(Number.ofNat 1).le number)

/-- Whether there is a text that is not empty. -/
def isFilled (value : Option Value) : Bool := ((text? value).getD "") != ""

/-- The state of a Session that can be parked cold. -/
def coldParkState (state client : Option Value) : Except String Value :=
  let read (name : String) := state.bind (·.field name)
  let capabilities := client.bind (·.field "agent_capabilities")
  match state with
  | some (.table fields) =>
    if !isTable client then .error "cold Park requires a live ACP Session"
    else if !(isFilled (read "agent") && isFilled (read "acp_session_id")) then
      .error "cold Park requires an initialized ACP Session"
    else if !isFilled (read "working_dir") then
      .error "cold Park requires a Session working directory"
    else if !(isTable capabilities && isTrue (capabilities.bind (·.field "loadSession"))) then
      .error "cold Park requires an Agent that supports session/load"
    else if !(text? (read "source") == some "loaded" && text? (read "status") == some "ready") &&
        !(number? (read "current_turn")).any isFromOne then
      .error "cold Park requires a Session that has sent at least one prompt"
    else .ok (.table fields)
  | _ => .error "cold Park requires a live ACP Session"

/-- What the service keeps of a Session parked cold. -/
def coldParkRecord (state client : Option Value) (request : Value) : Except String Value := do
  let state ← coldParkState state client
  let text (name : String) := (text? (state.field name)).getD ""
  let given (name : String) := ((request.field name).map fun item => (Key.str name, item)).toList
  return .table (given "id" ++
    [(.str "session_id", .str (text "agent" ++ "/" ++ text "acp_session_id")),
      (.str "agent", .str (text "agent")), (.str "acp_session_id", .str (text "acp_session_id")),
      (.str "cwd", .str (text "working_dir")), (.str "load_session", .bool true)] ++ given "claims")

namespace Run

/-- A Run of some options. -/
def new (options : Option Value) : Except String Run := do
  require (options.isNone || isTable options) "Run options must be a table"
  let option (name : String) := options.bind (·.field name)
  require ((option "id").isNone || isFilled (option "id")) "id must be a non-empty string"
  let timeout ←
    match either (option "cancellation_timeout_ms") (some (.num (.ofNat 1000))) with
    | some (.num (.finite q)) =>
      if isCount (.finite q) then .ok q.num.toNat
      else .error "cancellation_timeout_ms must be a non-negative integer"
    | _ => .error "cancellation_timeout_ms must be a non-negative integer"
  require ((option "schedule").isNone || typeName (option "schedule") == "function")
    "schedule must be a function"
  let claims ← if (option "claims").isNone then .ok [] else copyClaims (option "claims")
  let generatedWork ←
    if (option "generated_work").isNone then .ok none
    else (copyGeneratedWork (option "generated_work")).map some
  return {
    cancellationTimeoutMs := timeout
    workers := []
    status := .active
    parkRecord := option "park_record"
    claims
    generatedWork }

/-- The workers with something under way. -/
def unacknowledged (look : Look) (run : Run) : List Nat :=
  run.workers.filter fun worker => !acknowledged (look.inspect worker)

/-- Adopt a Session, where it can be a worker at all. -/
def adoptSession (worker : Nat) (isWorker : Bool) (run : Run) : Except String Unit × Run :=
  if run.status ≠ .active then (.error "Run is no longer active", run)
  else if !isWorker then (.error "Run worker must support cancel, dispose, and inspect", run)
  else if run.workers.contains worker then (.ok (), run)
  else (.ok (), { run with workers := run.workers ++ [worker] })

/-- Accept an operator resume that is already durable. -/
def acceptResume (claims generatedWork : Option Value) (run : Run) : Except String Unit × Run :=
  if run.status = .disposed then (.error "Run is disposed", run)
  else
    match claims.elim (.ok run.claims) (copyClaims <| some ·) with
    | .error error => (.error error, run)
    | .ok copied =>
      let run := { run with claims := copied }
      match generatedWork.elim (.ok run.generatedWork)
          fun given => (copyGeneratedWork (some given)).map some with
      | .error error => (.error error, run)
      | .ok copied =>
        let run := { run with generatedWork := copied }
        if run.status = .active then (.ok (), run)
        else if run.status ≠ .parked then (.error "only a Parked Run can resume", run)
        else (.ok (), { run with status := .active })

/-- Dispose of every worker and end the Run; the first worker that cannot be disposed of is
reported. -/
def dispose (look : Look) (run : Run) : Except String Unit × Run :=
  if run.status = .disposed then (.ok (), run)
  else
    ((run.workers.filterMap look.failure).head?.elim (.ok ()) .error,
      { run with status := .disposed })

end Run

/-! ### The Run with what it waits for -/

/-- The timer of a cancel. -/
structure Timer where
  cancel : Nat
  startedAt : Nat
deriving DecidableEq

/-- What a cold Park wrote over, and what it wrote. -/
structure ColdPark where
  previous : Option Value
  record : Value

/-- A Park that waits for its service. -/
structure PendingPark where
  cold : Option ColdPark

/-- A worker that a timer disposed of, when, and which cancel was the last one then. -/
structure Disposal where
  worker : Nat
  timer : Timer
  time : Nat
  last : Option Timer

/-- A Run, its clock, its timers and its Parks. Beside them the cancels that were started, the
latest first, those whose callback was called, and what the timers disposed of. -/
structure Supervised where
  run : Run
  now : Nat
  timers : List Timer
  parks : List PendingPark
  cancels : List Timer
  called : List Nat
  disposals : List Disposal

namespace Supervised

def start (run : Run) : Supervised := ⟨run, 0, [], [], [], [], []⟩

/-- Do something to the Run alone. -/
def onRun (change : Run → Except String Unit × Run) (state : Supervised) :
    Except String Unit × Supervised :=
  ((change state.run).1, { state with run := (change state.run).2 })

/-- The Run with another status. Workers that have something under way are asked to cancel it,
which shows in what they say later. -/
def become (status : RunStatus) (state : Supervised) : Supervised :=
  { state with run := { state.run with status } }

def putRecord (record : Option Value) (state : Supervised) : Supervised :=
  { state with run := { state.run with parkRecord := record } }

/-- Create a Session through the owner's API and adopt it. -/
def createSession (api : Bool) (created : Except String Nat) (state : Supervised) :
    Except String Unit × Supervised :=
  if !api then (.error "Run has no Session API", state)
  else if state.run.status ≠ .active then (.error "Run is no longer active", state)
  else
    match created with
    | .error error => (.error error, state)
    | .ok worker => state.onRun (·.adoptSession worker true)

/-- Cancel every worker, and give them until the timeout. -/
def cancel (state : Supervised) : Except String Unit × Supervised :=
  match state.run.status with
  | .disposed => (.error "Run is disposed", state)
  | .parked => (.error "Run is parked", state)
  | .cancelled | .cancelling => (.ok (), state)
  | .active =>
    let timer : Timer := ⟨state.cancels.length, state.now⟩
    (.ok (), { state.become .cancelling with
      timers := state.timers ++ [timer]
      cancels := timer :: state.cancels })

/-- Whether a timer may fire. -/
def isDue (state : Supervised) (timer : Timer) : Bool :=
  decide (timer.startedAt + state.run.cancellationTimeoutMs ≤ state.now)

/-- A timer fires: workers that still have something under way are disposed of, and the callback
of its cancel is called. -/
def expire (index : Nat) (look : Look) (state : Supervised) : Supervised :=
  match state.timers[index]? with
  | none => state
  | some timer =>
    if !state.isDue timer then state
    else
      let rest := { state with timers := state.timers.eraseIdx index }
      if state.run.status ≠ .cancelling then rest
      else
        { rest.become .cancelled with
          called := timer.cancel :: state.called
          disposals := (state.run.unacknowledged look).map
            (⟨·, timer, state.now, state.cancels.head?⟩) ++ state.disposals }

/-- A Park comes to its end, and a cold one that failed puts the record back. -/
def complete (park : PendingPark) (ok : Bool) (state : Supervised) : Supervised :=
  if ok then state.become .parked
  else
    match park.cold with
    | none => state
    | some cold => state.putRecord cold.previous

/-- Park the Run, through the service where it has a record. -/
def park (cold : Option ColdPark) (service : ServiceReply) (state : Supervised) :
    Except String Unit × Supervised :=
  match state.run.status with
  | .disposed => (.error "Run is disposed", state)
  | .parked => (.ok (), state)
  | _ =>
    match state.run.parkRecord with
    | none => (.ok (), state.complete ⟨cold⟩ true)
    | some _ =>
      match service with
      | .refused message => (.error message, state)
      | .started => (.ok (), { state with parks := state.parks ++ [⟨cold⟩] })
      | .answered ok => (.ok (), state.complete ⟨cold⟩ ok)

/-- Park the only Session of a Run cold. -/
def parkCold (request : Option Value) (service : ServiceReply) (look : Look)
    (state : Supervised) : Except String Unit × Supervised :=
  if state.run.status = .disposed then (.error "Run is disposed", state)
  else
    match request, state.run.workers with
    | some (.table fields), [worker] =>
      match coldParkRecord (look.inspect worker) (look.client worker) (.table fields) with
      | .error error => (.error error, state)
      | .ok record =>
        let previous := state.run.parkRecord
        let parked := (state.putRecord (some record)).park (some ⟨previous, record⟩) service
        match parked.1 with
        | .error error => (.error error, parked.2.putRecord previous)
        | .ok () => (.ok (), parked.2)
    | some (.table _), _ => (.error "cold Park requires exactly one owned Session", state)
    | _, _ => (.error "cold Park request must be a table", state)

/-- The service answers a Park. -/
def answer (index : Nat) (ok : Bool) (state : Supervised) : Supervised :=
  match state.parks[index]? with
  | none => state
  | some park => { state with parks := state.parks.eraseIdx index }.complete park ok

/-- Accept a Park of the service that is already durable. -/
def acceptPark (state : Supervised) : Except String Unit × Supervised :=
  if state.run.status = .disposed then (.error "Run is disposed", state)
  else if state.run.status = .parked then (.ok (), state)
  else (.ok (), state.become .parked)

end Supervised

/-- What happens to a Run. -/
inductive RunEvent where
  | elapse (ms : Nat)
  | adopt (worker : Nat) (isWorker : Bool)
  | create (api : Bool) (created : Except String Nat)
  | cancel
  | timer (index : Nat) (look : Look)
  | park (service : ServiceReply)
  | parkCold (request : Option Value) (service : ServiceReply) (look : Look)
  | answer (index : Nat) (ok : Bool)
  | acceptPark
  | acceptResume (claims generatedWork : Option Value)
  | dispose (look : Look)

namespace Supervised

/-- What an operation returns, where the event is one, and the state it leaves. -/
def handle (state : Supervised) : RunEvent → Option (Except String Unit) × Supervised
  | .elapse ms => (none, { state with now := state.now + ms })
  | .adopt worker isWorker => (state.onRun (·.adoptSession worker isWorker)).map some id
  | .create api created => (state.createSession api created).map some id
  | .cancel => state.cancel.map some id
  | .timer index look => (none, state.expire index look)
  | .park service => (state.park none service).map some id
  | .parkCold request service look => (state.parkCold request service look).map some id
  | .answer index ok => (none, state.answer index ok)
  | .acceptPark => state.acceptPark.map some id
  | .acceptResume claims generatedWork =>
    (state.onRun (·.acceptResume claims generatedWork)).map some id
  | .dispose look => (state.onRun (·.dispose look)).map some id

def step (state : Supervised) (event : RunEvent) : Supervised := (state.handle event).2

end Supervised

end Louiselm.Workflow
