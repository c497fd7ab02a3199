import Mathlib.Data.List.Sort
import Mathlib.Data.String.Basic
import Louiselm.Routing.Qualification

/-!
# Reader jobs

`lua/louiselm/routing/reader.lua`: a selected reading job looks its comparison up, creates a worker
Session, sets the approved options and looks the comparison up once more before it sends its
prompt. Each callback of the event loop is a step. The checks of a job, the text of the prompt and
the parsing of the answer are left out; `lua/louiselm/agent/provider.lua`, `resolve`, is here too.
-/

namespace Louiselm.Routing.ReaderJobs
open Base.Lua Routing.Qualification

/-! ### Providers -/

/-- Where access or quota comes from, as the definition of an Agent has it. -/
inductive Provider where
  | fixed (service : String)
  | prefixes (option : String) (services : List (String × String))
  | routes (candidates : List (String × List (String × Value)))

/-- The service that matches, where there is exactly one. -/
def only : List String → Option String
  | [service] => some service
  | _ => none

/-- Resolve a Provider against the values of all options. -/
def Provider.resolve (values : Value) : Provider → Option String
  | .fixed service => some service
  | .prefixes option services =>
    match Value.text? (values.field option) with
    | none => none
    | some text =>
      only ((services.filter fun item => item.1.toList.isPrefixOf text.toList).map Prod.snd)
  | .routes candidates =>
    only ((candidates.filter fun route => route.2.all fun item =>
      sameValue (values.field item.1) (some item.2)).map Prod.fst)

/-! ### The worker's configuration -/

structure ConfigOption where
  id : String
  category : Option String
  currentValue : Option Value

/-- A job that passed its checks. -/
structure Job where
  scope : Value
  outputBytes : Nat

/-- The route of the worker. -/
def Job.route (job : Job) : Option Value := job.scope.field "candidate"

/-- The values that options show. -/
def valuesOf (options : List ConfigOption) : Value :=
  .table (options.foldl (fun fields option =>
    fields.filter (·.1 != .str option.id) ++
      (option.currentValue.map fun value => (Key.str option.id, value)).toList) [])

/-- Whether options show the approved configuration. -/
def confirmed (provider : Option Provider) (job : Job) (options : List ConfigOption) : Bool :=
  let values := valuesOf options
  let model := (options.reverse.find? fun option => option.category == some "model").map (·.id)
  sameValue (model.map .str) (under job.route "model_option_id") &&
    sameValue ((provider.bind (·.resolve values)).map .str) (under job.route "provider") &&
    sameValue (some values) (under job.route "options")

/-- The options of the approved route, in order. -/
def Job.keys (job : Job) : List String :=
  match under job.route "options" with
  | some (.table fields) => (fields.filterMap fun field =>
      match field.1 with
      | .str key => some key
      | _ => none).insertionSort (· ≤ ·)
  | _ => []

/-- Whether an option has its approved value. -/
def isSet (job : Job) (options : List ConfigOption) (key : String) : Bool :=
  sameValue ((options.reverse.find? fun option => option.id == key).bind (·.currentValue))
    (under (under job.route "options") key)

/-! ### Readers -/

/-- What a reader waits for. -/
inductive Phase where
  /-- The first lookup reads the file. -/
  | looking
  /-- The callback of the first lookup. -/
  | found (approval : Option Value)
  | creating
  /-- An option is set, and these are left. -/
  | configuring (rest : List String)
  /-- The second lookup reads the file. -/
  | checking
  /-- The callback of the second lookup. -/
  | checked (approval : Option Value)
  | prompting
  /-- Finished with a code, or with an answer. -/
  | done (code : Option String)

structure Reader where
  job : Job
  provider : Option Provider
  phase : Phase
  session : Bool
  revision : Option Number
  reportId : Option Value
  outputBytes : Nat
  prompted : Bool

/-- What a callback finds: whether the deadline has passed, what the Session can do, and the
options that it shows. -/
structure Look where
  late : Bool
  disposes : Bool
  creates : Bool
  sets : Bool
  prompts : Bool
  options : List ConfigOption

/-- What the worker sends. -/
inductive Observed where
  | text (bytes : Nat)
  | invalid
  | tool
  | disposed

namespace Reader

variable (look : Look)

def isDone (reader : Reader) : Bool :=
  match reader.phase with
  | .done _ => true
  | _ => false

/-- Finish once, and dispose the worker. -/
def finish (code : Option String) (reader : Reader) : Reader :=
  if reader.isDone then reader
  else
    let code := if code.isNone && look.late then some "deadline" else code
    { reader with
      phase := .done (if reader.session && !look.disposes then some "cleanup_failed" else code) }

/-- Look the comparison up again, pinned to the captured revision. -/
def dispatch (reader : Reader) : Reader := { reader with phase := .checking }

/-- Set the next option that is not set yet. -/
def nextOption (rest : List String) (options : List ConfigOption) (reader : Reader) : Reader :=
  match rest.dropWhile (isSet reader.job options) with
  | [] => reader.dispatch
  | _ :: rest =>
    if look.sets then { reader with phase := .configuring rest }
    else reader.finish look (some "unsupported_route")

def configure (reader : Reader) : Reader :=
  reader.nextOption look reader.job.keys look.options

/-- The callback of the first lookup. -/
def create (approval : Option Value) (reader : Reader) : Reader :=
  if look.late then reader.finish look (some "deadline")
  else match approval with
    | none => reader.finish look (some "unqualified")
    | some approval =>
      let reader := { reader with
        revision := Value.number? (approval.field "revision")
        reportId := approval.field "report_id" }
      if look.creates then { reader with session := true, phase := .creating }
      else reader.finish look (some "unsupported_runtime")

/-- The callback of the second lookup. -/
def send (approval : Option Value) (reader : Reader) : Reader :=
  if look.late then reader.finish look (some "deadline")
  else if approval.isNone || !confirmed reader.provider reader.job look.options then
    reader.finish look (some "admission_changed")
  else if look.prompts then { reader with prompted := true, phase := .prompting }
  else reader.finish look (some "admission_failed")

/-- The worker has set an option, or could not. -/
def updated (options : Option (List ConfigOption)) (reader : Reader) : Reader :=
  match reader.phase, options with
  | .configuring rest, some options => reader.nextOption look rest options
  | .configuring _, none => reader.finish look (some "unsupported_route")
  | _, _ => reader

/-- The worker has completed its turn; there may be an answer that passes its checks. -/
def completed (answer : Option Bool) (reader : Reader) : Reader :=
  match reader.phase, answer with
  | .prompting, none => reader.finish look (some "worker_failed")
  | .prompting, some false => reader.finish look (some "invalid_answer")
  | .prompting, some true => reader.finish look none
  | _, _ => reader

def observe (event : Observed) (reader : Reader) : Reader :=
  if reader.isDone || !reader.session then reader
  else match event with
    | .text bytes =>
      let reader := { reader with outputBytes := reader.outputBytes + bytes }
      if reader.outputBytes > reader.job.outputBytes then reader.finish look (some "output_limit")
      else reader
    | .invalid => reader.finish look (some "invalid_output")
    | .tool => reader.finish look (some "forbidden_tool")
    | .disposed => reader.finish look (some "cancelled")

end Reader

/-! ### Runs -/

/-- A reader and the durable decisions. -/
structure System where
  history : List Value
  reader : Reader

/-- A decision is recorded, the pending lookup reads the file, or a callback runs. -/
inductive Event where
  | record (decision : Value)
  | read (look : ReadLook)
  | called (look : Look)
  | ready (established : Bool) (look : Look)
  | updated (options : Option (List ConfigOption)) (look : Look)
  | completed (answer : Option Bool) (look : Look)
  | observed (event : Observed) (look : Look)
  | timer (look : Look)
  | dispose (look : Look)

/-- A job that was just started. -/
def start (provider : Option Provider) (job : Job) (history : List Value) : System :=
  ⟨history, ⟨job, provider, .looking, false, none, none, 0, false⟩⟩

namespace System

/-- What a lookup calls back with, unpinned or pinned to a revision. -/
def lookup (system : System) (look : ReadLook) (expected : Option Number) : Option Value :=
  (Qualification.lookup look (.regular (some (State.document ⟨system.history⟩)))
    (some system.reader.job.scope) expected).toOption.join

/-- The pending lookup reads the file. -/
def read (system : System) (look : ReadLook) : Reader :=
  match system.reader.phase with
  | .looking => { system.reader with phase := .found (system.lookup look none) }
  | .checking =>
    { system.reader with phase := .checked (system.lookup look system.reader.revision) }
  | _ => system.reader

/-- The pending callback of a lookup runs. -/
def called (system : System) (look : Look) : Reader :=
  match system.reader.phase with
  | .found approval => system.reader.create look approval
  | .checked approval => system.reader.send look approval
  | _ => system.reader

/-- The worker Session is ready, or was not established. -/
def ready (system : System) (established : Bool) (look : Look) : Reader :=
  match system.reader.phase with
  | .creating =>
    if established then system.reader.configure look
    else system.reader.finish look (some "unsupported_runtime")
  | _ => system.reader

def step (system : System) : Event → System
  | .record decision =>
    if validDecision decision (system.history.length + 1) then
      { system with history := system.history ++ [decision] }
    else system
  | .read look => { system with reader := system.read look }
  | .called look => { system with reader := system.called look }
  | .ready established look => { system with reader := system.ready established look }
  | .updated options look => { system with reader := system.reader.updated look options }
  | .completed answer look => { system with reader := system.reader.completed look answer }
  | .observed event look => { system with reader := system.reader.observe look event }
  | .timer look => { system with reader := system.reader.finish look (some "deadline") }
  | .dispose look => { system with reader := system.reader.finish look (some "cancelled") }

end System

end Louiselm.Routing.ReaderJobs
