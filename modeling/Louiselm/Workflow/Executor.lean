import Mathlib.Logic.Function.Basic
import Louiselm.Workflow.Validate

/-!
# The workflow executor

`lua/louiselm/workflow/executor.lua`: one workflow Run, the ledger calls that
were not answered, and the settlements that wait for the main loop. A ledger call is what its
callback closes over. Calls, answers and settlements happen in any order; a callback that calls
the executor again does so after its settlement.
-/

namespace Louiselm.Workflow
open Base.Lua

inductive Status where
  | active
  | completed
  | parked
  | cancelled
  | disposed
deriving DecidableEq, Repr

/-- Which functions of its ledger an executor was given. -/
structure Ledger where
  consume : Bool
  reserve : Bool
  confirm : Bool
  release : Bool
deriving DecidableEq, Repr

/-- A transition that was applied; the names of the exhaustion outcome and of the next stage are
whatever the document has there. -/
structure Transition where
  source : String
  outcome : Option Value
  target : Option Value
  terminal : Bool
  exhausted : Bool
  requestedOutcome : Option String

/-- The live Generator, told apart by the operation that began it. -/
structure Generator where
  operation : Nat
  mutationId : String
  maximum : Number
  outputs : Nat
deriving DecidableEq, Repr

structure Executor where
  manifest : Manifest
  currentStage : Option Value
  status : Status
  iterations : String → Nat
  history : List Transition
  generator : Option Generator
  pending : Bool
  ledger : Ledger

/-- What the callback of a ledger call closes over. -/
inductive LedgerCall where
  | consume (stageName : String) (outcome : Value) (outcomeName : String) (used : Nat)
  | reserve (mutationId : String) (maximum : Number)
  | confirm (generator : Nat)
  | releaseEnded (generator : Nat) (mutationId : String)
  | releaseDisposed (generator : Nat) (mutationId : String)

/-- What a ledger answers. -/
structure LedgerAnswer where
  state : Option String
  confirmed : Bool
  error : Option String
deriving DecidableEq, Repr

/-- What the callback of an operation is called with. -/
inductive Outcome where
  | transition (result : Option Transition) (error : Option String)
  | flag (value : Bool) (error : Option String)

/-- A callback and its arguments. -/
structure Settlement where
  operation : Nat
  outcome : Outcome

/-- An executor with what is under way, and the callbacks that were called. -/
structure Running where
  executor : Executor
  operations : Nat
  inFlight : List (Nat × LedgerCall)
  deferred : List Settlement
  delivered : List Settlement

/-- What an operation returns, where it does not raise an error. -/
inductive Returned where
  | refused (message : String)
  | accepted
  | raised
deriving DecidableEq, Repr

/-! ### Documents -/

/-- Whether indexing a value raises no error. -/
def isIndexable : Option Value → Bool
  | some (.table _) => true
  | some (.str _) => true
  | _ => false

/-- Equality of values; tables are not equal to others. -/
def rawEqual : Option Value → Option Value → Bool
  | none, none => true
  | some (.bool a), some (.bool b) => a == b
  | some (.num a), some (.num b) => a == b && a != .nan
  | some (.str a), some (.str b) => a == b
  | _, _ => false

/-- The first outcome of a stage with a name. -/
def findOutcome (stage : Value) (name : Option Value) : Option Value :=
  match stage.field "outcomes" with
  | some (.table fields) => (Value.table fields).sequence.find? fun outcome =>
      Value.isTable (some outcome) && rawEqual (outcome.field "name") name
  | _ => none

/-- The key under which the traversals of an outcome are counted. -/
def edgeKey (stageName outcomeName : String) : String := stageName ++ "\u0000" ++ outcomeName

/-! ### Settling -/

/-- The message with which an inactive executor refuses. -/
def Executor.activeError (executor : Executor) : Option String :=
  match executor.status with
  | .active => none
  | .parked => some "workflow Run is parked"
  | .disposed => some "workflow Run is disposed"
  | .cancelled => some "workflow Run is cancelled"
  | .completed => some "workflow Run is completed"

def Executor.readyError (executor : Executor) (callback : Bool) : Option String :=
  if !callback then some "executor operation requires a callback"
  else if executor.pending then some "a ledger operation is already in flight"
  else none

/-- The message with which an operation is refused at once: the executor is not ready, or not
active. -/
def Executor.refusal (executor : Executor) (callback : Bool) : Option String :=
  (executor.readyError callback).or executor.activeError

namespace Running

/-- Finish an operation on the main loop. -/
def settle (run : Running) (operation : Nat) (outcome : Outcome) : Running :=
  { run with deferred := run.deferred ++ [⟨operation, outcome⟩] }

/-- A new operation. -/
def opened (run : Running) : Running := { run with operations := run.operations + 1 }

/-- Call the ledger. -/
def call (run : Running) (operation : Nat) (ledgerCall : LedgerCall) : Running :=
  { run with inFlight := run.inFlight ++ [(operation, ledgerCall)] }

end Running

/-- Follow an outcome. -/
def Executor.applyTransition (executor : Executor) (outcome : Value) (source : String)
    (outcomeName : Option Value) (exhausted : Bool) (requestedOutcome : Option String) :
    Transition × Executor :=
  if isTerminal outcome then
    let result : Transition := ⟨source, outcomeName, none, true, exhausted, requestedOutcome⟩
    (result, { executor with
      currentStage := none
      status := .completed
      history := executor.history ++ [result] })
  else
    let result : Transition :=
      ⟨source, outcomeName, outcome.field "to", false, exhausted, requestedOutcome⟩
    (result, { executor with
      currentStage := outcome.field "to"
      history := executor.history ++ [result] })

namespace Running

variable (run : Running)

/-- Follow an outcome and settle with the transition. -/
def follow (operation : Nat) (outcome : Value) (source : String) (outcomeName : Option Value)
    (exhausted : Bool) (requestedOutcome : Option String) : Running :=
  let followed :=
    run.executor.applyTransition outcome source outcomeName exhausted requestedOutcome
  { run with executor := followed.2 }.settle operation (.transition (some followed.1) none)

/-- Settle without a transition. -/
def settleError (operation : Nat) (message : String) : Running :=
  run.settle operation (.transition none (some message))

/-- Leave a bounded outcome that is used up by its exhaustion outcome. -/
def exhaust (operation : Nat) (stage outcome : Value) (stageName outcomeName : String) : Running :=
  match findOutcome stage (outcome.field "on-exhausted") with
  | none => run.settleError operation "automatic back-edge exhaustion outcome is not declared"
  | some exhaustion =>
    run.follow operation exhaustion stageName (outcome.field "on-exhausted") true (some outcomeName)

/-- Charge one unit before a bounded outcome is followed. -/
def charge (operation : Nat) (outcome : Value) (stageName outcomeName : String) (used : Nat) :
    Running :=
  if !run.executor.ledger.consume then
    run.settleError operation "workflow Run has no generated-work ledger"
  else
    { run with executor := { run.executor with pending := true } }.call operation
      (.consume stageName outcome outcomeName used)

def applyAutomaticBackEdge (operation : Nat) (stage outcome : Value)
    (stageName outcomeName : String) (mutationId : Option String) : Returned × Running :=
  if !(isBackEdge outcome && isAutomatic outcome) then
    (.accepted, run.follow operation outcome stageName (some (.str outcomeName)) false none)
  else if mutationId.getD "" == "" then
    (.accepted, run.settleError operation "automatic back-edge requires a mutation id")
  else
    match Value.number? (outcome.field "max-iterations") with
    | none => (.raised, run)
    | some maximum =>
      let used := run.executor.iterations (edgeKey stageName outcomeName)
      if maximum.le (.ofNat used) then
        (.accepted, run.exhaust operation stage outcome stageName outcomeName)
      else (.accepted, run.charge operation outcome stageName outcomeName used)

/-- Apply one model-selected named outcome. -/
def advance (outcomeName : String) (mutationId : Option String) (callback : Bool) :
    Returned × Running :=
  match run.executor.refusal callback with
  | some message => (.refused message, run)
  | none =>
    if run.executor.generator.isSome then
      (.refused "finish the active Generator before advancing the workflow", run)
    else if outcomeName == "" then (.refused "outcome name must be a non-empty string", run)
    else
      match run.executor.currentStage with
      | none => (.refused "workflow Run has no current stage", run)
      | some stageValue =>
        let stageName := (Value.text? (some stageValue)).getD ""
        match (Value.text? (some stageValue)).bind run.executor.manifest.stage with
        | none => (.raised, run)
        | some stage =>
          if !isIndexable (some stage) then (.raised, run)
          else
            match findOutcome stage (some (.str outcomeName)) with
            | none => (.refused ("outcome '" ++ outcomeName ++ "' is not declared by stage '" ++
                stageName ++ "'"), run)
            | some outcome =>
              run.opened.applyAutomaticBackEdge run.operations stage outcome stageName outcomeName
                mutationId

/-- What a generator may confirm at most, where its stage says so. -/
def generatorMaximum : Option Number :=
  let stage := (Value.text? run.executor.currentStage).bind run.executor.manifest.stage
  match stage with
  | some (.table fields) =>
    match (Value.table fields).field "generates" with
    | some (.table generates) => Value.number? ((Value.table generates).field "max")
    | _ => none
  | _ => none

/-- Reserve the declared maximum for a work-producing stage Generator. -/
def beginGenerator (mutationId : String) (callback : Bool) : Returned × Running :=
  match run.executor.refusal callback with
  | some message => (.refused message, run)
  | none =>
    if run.executor.generator.isSome then (.refused "a Generator is already active", run)
    else if mutationId == "" then (.refused "Generator requires a mutation id", run)
    else
      match run.generatorMaximum with
      | none => (.refused "current stage is not a work-producing Generator", run)
      | some maximum =>
        if !((Number.ofNat 1).le maximum && maximum.isWhole) then
          (.refused "current stage is not a work-producing Generator", run)
        else if !run.executor.ledger.reserve then
          (.refused "workflow Run has no generated-work ledger", run)
        else
          (.accepted, { run.opened with
            executor := { run.executor with pending := true } }.call run.operations
              (.reserve mutationId maximum))

/-- Confirm one output from the active Generator. -/
def recordGeneratorOutput (outputId : String) (callback : Bool) : Returned × Running :=
  match run.executor.refusal callback with
  | some message => (.refused message, run)
  | none =>
    match run.executor.generator with
    | none => (.refused "no Generator is active", run)
    | some generator =>
      if outputId == "" then (.refused "Generator output id must be a non-empty string", run)
      else if generator.maximum.le (.ofNat generator.outputs) then
        (.refused "Generator output exceeds its declared maximum", run)
      else if !run.executor.ledger.confirm then
        (.refused "workflow Run has no generated-work ledger", run)
      else
        (.accepted, { run.opened with
          executor := { run.executor with pending := true } }.call run.operations
            (.confirm generator.operation))

/-- Release unused capacity and finish the active Generator. -/
def endGenerator (callback : Bool) : Returned × Running :=
  match run.executor.refusal callback with
  | some message => (.refused message, run)
  | none =>
    match run.executor.generator with
    | none => (.refused "no Generator is active", run)
    | some generator =>
      if !run.executor.ledger.release then
        (.refused "workflow Run has no generated-work ledger", run)
      else
        (.accepted, { run.opened with
          executor := { run.executor with pending := true } }.call run.operations
            (.releaseEnded generator.operation generator.mutationId))

/-- Give the executor another status. -/
def become (status : Status) : Running := { run with executor := { run.executor with status } }

/-- Park the workflow without advancing its current stage. -/
def park : Returned × Running :=
  match run.executor.status with
  | .disposed => (.refused "workflow Run is disposed", run)
  | .completed => (.refused "workflow Run is completed", run)
  | _ => (.accepted, run.become .parked)

/-- Cancel the workflow without advancing its current stage. -/
def cancel : Returned × Running :=
  match run.executor.status with
  | .disposed => (.refused "workflow Run is disposed", run)
  | .completed => (.refused "workflow Run is completed", run)
  | _ => (.accepted, run.become .cancelled)

/-- Resume a Parked workflow with its current stage and counters intact. -/
def resume : Returned × Running :=
  match run.executor.status with
  | .disposed => (.refused "workflow Run is disposed", run)
  | .completed => (.refused "workflow Run is completed", run)
  | .cancelled => (.refused "workflow Run is cancelled", run)
  | .active => (.refused "workflow Run is not parked", run)
  | .parked => (.accepted, run.become .active)

/-- Dispose the workflow and release any outstanding Generator reservation. -/
def dispose (callback : Bool) : Returned × Running :=
  if !callback then (.refused "executor operation requires a callback", run)
  else if run.executor.status = .disposed then
    (.accepted, run.opened.settle run.operations (.flag true none))
  else
    let after : Running := { run.opened with
      executor := { run.executor with status := .disposed, generator := none } }
    match run.executor.generator with
    | none => (.accepted, after.settle run.operations (.flag true none))
    | some generator =>
      if !run.executor.ledger.release then
        (.accepted, after.settle run.operations
          (.flag false (some "workflow Run has no generated-work ledger")))
      else (.accepted, after.call run.operations
        (.releaseDisposed generator.operation generator.mutationId))

/-! ### Answers and settlements -/

/-- The callback of a charge. -/
def charged (operation : Nat) (stageName : String) (outcome : Value) (outcomeName : String)
    (used : Nat) (answer : LedgerAnswer) : Running :=
  if run.executor.status = .disposed then run.settleError operation "workflow Run is disposed"
  else if answer.state = some "exhausted" then
    (run.become .parked).settleError operation (answer.error.getD "workflow Run budget exhausted")
  else if answer.state ≠ some "consumed" then
    run.settleError operation (answer.error.getD "back-edge budget charge is pending")
  else
    { run with executor := { run.executor with
      iterations := Function.update run.executor.iterations (edgeKey stageName outcomeName)
        (used + 1) } }.follow operation outcome stageName (some (.str outcomeName)) false none

/-- The callback of a reservation. -/
def reserved (operation : Nat) (mutationId : String) (maximum : Number) (answer : LedgerAnswer) :
    Running :=
  if run.executor.status = .disposed then
    run.settle operation (.flag false (some "workflow Run is disposed"))
  else if answer.state = some "exhausted" then
    (run.become .parked).settle operation
      (.flag false (some (answer.error.getD "workflow Run budget exhausted")))
  else if answer.state ≠ some "reserved" then
    run.settle operation
      (.flag false (some (answer.error.getD "Generator budget reservation is pending")))
  else
    { run with executor := { run.executor with
      generator := some ⟨operation, mutationId, maximum, 0⟩ } }.settle operation (.flag true none)

/-- The callback of a confirmation. -/
def confirmed (operation : Nat) (generator : Nat) (answer : LedgerAnswer) : Running :=
  match run.executor.generator with
  | some live =>
    if run.executor.status = .disposed ∨ live.operation ≠ generator then
      run.settle operation (.flag false (some "workflow Run is disposed"))
    else if !answer.confirmed then
      run.settle operation
        (.flag false (some (answer.error.getD "Generator output could not be confirmed")))
    else
      { run with executor := { run.executor with
        generator := some { live with outputs := live.outputs + 1 } } }.settle operation
          (.flag true none)
  | none => run.settle operation (.flag false (some "workflow Run is disposed"))

/-- How a release is reported. -/
def releaseOutcome (answer : LedgerAnswer) : Outcome :=
  if answer.confirmed then .flag true none
  else .flag false (some (answer.error.getD "Generator reservation could not be released"))

/-- The callback of the release that ends a Generator. -/
def releasedEnded (operation : Nat) (answer : LedgerAnswer) : Running :=
  let after : Running := if answer.confirmed then
    { run with executor := { run.executor with generator := none } } else run
  after.settle operation (releaseOutcome answer)

/-- The callback of a ledger call. -/
def answered (operation : Nat) (ledgerCall : LedgerCall) (answer : LedgerAnswer) : Running :=
  match ledgerCall with
  | .consume stageName outcome outcomeName used =>
    run.charged operation stageName outcome outcomeName used answer
  | .reserve mutationId maximum => run.reserved operation mutationId maximum answer
  | .confirm generator => run.confirmed operation generator answer
  | .releaseEnded _ _ => run.releasedEnded operation answer
  | .releaseDisposed _ _ => run.settle operation (releaseOutcome answer)

end Running

/-! ### Events -/

/-- A call on an executor, the answer to one of its ledger calls, or a turn of the main loop. -/
inductive Event where
  | advance (outcomeName : String) (mutationId : Option String) (callback : Bool)
  | beginGenerator (mutationId : String) (callback : Bool)
  | recordGeneratorOutput (outputId : String) (callback : Bool)
  | endGenerator (callback : Bool)
  | park
  | cancel
  | resume
  | dispose (callback : Bool)
  | answer (index : Nat) (answer : LedgerAnswer)
  | settle (index : Nat)

namespace Running

variable (run : Running)

/-- The ledger answers one of its calls. -/
def answer (index : Nat) (answer : LedgerAnswer) : Running :=
  match run.inFlight[index]? with
  | none => run
  | some (operation, ledgerCall) =>
    { run with inFlight := run.inFlight.eraseIdx index }.answered operation ledgerCall answer

/-- The main loop runs a settlement. -/
def deliver (index : Nat) : Running :=
  match run.deferred[index]? with
  | none => run
  | some settlement => { run with
      executor := { run.executor with pending := false }
      deferred := run.deferred.eraseIdx index
      delivered := run.delivered ++ [settlement] }

/-- What an event returns, where it is a call, and what it leaves. -/
def handle : Event → Returned × Running
  | .advance outcomeName mutationId callback => run.advance outcomeName mutationId callback
  | .beginGenerator mutationId callback => run.beginGenerator mutationId callback
  | .recordGeneratorOutput outputId callback => run.recordGeneratorOutput outputId callback
  | .endGenerator callback => run.endGenerator callback
  | .park => run.park
  | .cancel => run.cancel
  | .resume => run.resume
  | .dispose callback => run.dispose callback
  | .answer index answer => (.accepted, run.answer index answer)
  | .settle index => (.accepted, run.deliver index)

def step (event : Event) : Running := (run.handle event).2

end Running

/-- An executor that was created at a stage. -/
def Executor.start (manifest : Manifest) (entry : String) (ledger : Ledger) : Executor where
  manifest := manifest
  currentStage := some (.str entry)
  status := .active
  iterations := fun _ => 0
  history := []
  generator := none
  pending := false
  ledger := ledger

/-- Nothing is under way yet. -/
def Running.start (executor : Executor) : Running := ⟨executor, 0, [], [], []⟩

/-- The first block, in the order of the table, that declares to be an entry. -/
def findEntry (manifest : Manifest) : Option String :=
  (manifest.blocks.find? fun item =>
    Value.isTable (some item.2) && Value.isTrue (item.2.field "entry")).map Prod.fst

/-- Why there is no executor. -/
inductive CreationError where
  | message (text : String)
  | rejections (rejections : List Rejection)
deriving DecidableEq, Repr

/-- Create an executor from a workflow's discovered stage manifest. -/
def Executor.new (text : Key → String) (workflow : String) (manifest : Manifest) (ledger : Ledger) :
    Except CreationError Executor :=
  if workflow == "" then .error (.message "workflow name must be a non-empty string")
  else
    let synthesized := escape workflow manifest
    let validation := validate text workflow synthesized
    if !validation.ok then .error (.rejections validation.rejections)
    else
      match findEntry synthesized with
      | none => .error (.message "validated workflow has no entry stage")
      | some entry => .ok (.start synthesized entry ledger)

end Louiselm.Workflow
