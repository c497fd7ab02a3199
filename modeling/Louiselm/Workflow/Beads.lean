import Louiselm.Session.Records
import Louiselm.Workflow.ChildLaunch
import Louiselm.Workflow.Run

/-!
# Contained workers over a Bead list

`lua/louiselm/workflow/beads.lua`: one worker after the other over a list of Beads, each verified
by a second Session, decided by the operator and, with a worktree, committed. A callback that is
waited for is a boundary with what it continues with; it acts once, in a task of its own. What the
broker, the Sessions, the executor and the options' functions do is part of what happens. The
summary's text, the Sessions' options, command lines and the digests shown with a result are left
out.
-/

namespace Louiselm.Workflow.Beads
open Base Base.Lua
open Routing.Qualification (digest under isHexDigit)
open Session (object)
open Value

/-! ### Options -/

structure Worktree where
  path : String
  journalParent : String
  head : String

/-- Checked options. -/
structure Options where
  envelope : Value
  runId : String
  beadIds : List String
  agentId : String
  worktree : Option Worktree
  distinct : beadIds.Nodup

/-- A dense array of unique texts that are not empty, with at least one. -/
def strings (value : Option Value) : Option { texts : List String // texts.Nodup } :=
  match value with
  | some (.table fields) =>
    let items := (table fields).sequence
    let texts := items.filterMap fun item => text? (some item)
    if hdistinct : texts.Nodup then
      if (table fields).isArray && items.length != 0 && texts.length == items.length &&
          !texts.contains "" then
        some ⟨texts, hdistinct⟩
      else none
    else none
  | _ => none

/-- A number that is not below another one. -/
def isAtLeast (count : Nat) (value : Option Value) : Bool :=
  match number? value with
  | some number => !(number.le (.ofNat count) && !(Number.ofNat count).le number)
  | none => false

/-- A commit's name. -/
def isCommit (text : String) : Bool :=
  text != "" && text.toList.all isHexDigit && (text.utf8ByteSize == 40 || text.utf8ByteSize == 64)

def isFunction (value : Option Value) : Bool := typeName value == "function"

/-- The names that options may have. -/
def optionNames : List String :=
  ["envelope", "bead_ids", "agent_id", "prepare", "on_worker", "worktree", "on_promotion",
    "session_api", "system"]

/-- The Run worktree of options, where there is one. -/
def worktreeOf (options : Value) : Except String (Option Worktree) :=
  match options.field "worktree" with
  | none => do
    require (options.field "on_promotion").isNone "promotion decision requires a Run worktree"
    return none
  | some worktree =>
    let text (name : String) := (text? (worktree.field name)).getD ""
    if text "path" != "" && text "journal_parent" != "" && isCommit (text "head") &&
        isFunction (options.field "on_promotion") then
      .ok (some ⟨text "path", text "journal_parent", text "head"⟩)
    else .error "Run worktree needs a path, journal, HEAD and promotion decision callback"

/-- Check options. The workflow made of them is left to the executor. -/
def Options.new (rt : Runtime) : Option Value → Except String Options
  | some (.table fields) => do
    let options := table fields
    let unknown := unknownKey optionNames fields
    require unknown.isNone ("unknown Bead executor option: " ++ (unknown.elim "" rt.keyText))
    let envelope := options.field "envelope"
    let scope := under envelope "bead_scope"
    let runId := (text? (under envelope "run_id")).getD ""
    match options.field "envelope", strings (under scope "issue_ids") with
    | some envelope, some approved =>
      require (runId != "") "Run envelope requires an identity and approved Bead list"
      match strings (options.field "bead_ids") with
      | none => .error "Bead list must be a non-empty dense array of unique IDs"
      | some ids =>
        let outside := ids.1.find? fun id => !approved.1.contains id
        require outside.isNone ("Bead is outside the approved list: " ++ outside.getD "")
        require (isAtLeast (2 * ids.1.length) (envelope.field "max_sessions"))
          "Run envelope needs one worker and one verifier Session per Bead"
        require (isAtLeast ids.1.length (under scope "max_mutations"))
          "Run envelope needs one failure-comment mutation per Bead"
        let agentId := (text? (options.field "agent_id")).getD ""
        require (agentId != "" && isFunction (options.field "prepare") &&
            isFunction (options.field "on_worker"))
          "Bead executor requires an Agent, prepare and on_worker callbacks"
        require ((options.field "system").isNone || isFunction (options.field "system"))
          "system must be a function"
        let worktree ← worktreeOf options
        let api := options.field "session_api"
        require (api.isNone || isFunction (under api "create_session"))
          "session_api must support create_session"
        return ⟨envelope, runId, ids.1, agentId, worktree, ids.2⟩
    | _, _ => .error "Run envelope requires an identity and approved Bead list"
  | _ => .error "Bead executor options must be a table"

/-! ### Values -/

/-- Whether two values are the same to `==`. Tables are compared by identity, and those that are
compared here come from different places. -/
def rawEqual : Option Value → Option Value → Bool
  | none, none => true
  | some (.bool left), some (.bool right) => left == right
  | some (.num left), some (.num right) => left == right && left != .nan
  | some (.str left), some (.str right) => left == right
  | some (.other .userdata), some (.other .userdata) => true
  | _, _ => false

/-- JSON's null. -/
def isNull : Option Value → Bool
  | some (.other .userdata) => true
  | _ => false

def present (value : Option Value) : Bool := value.isSome && !isNull value

def isText (value : Option Value) (text : String) : Bool := text? value == some text

def textOf (value : Option Value) (name : String) : String :=
  (text? (under value name)).getD ""

/-- A field of what may be no table. A text has none, and anything else cannot be asked. -/
def ask (value : Option Value) (name : String) : Option (Option Value) :=
  match value with
  | some (.table fields) => some ((table fields).field name)
  | some (.str _) => some none
  | _ => none

/-- What a text reads as. -/
def Runtime.decoded (rt : Runtime) (text : Option Value) : Option Value :=
  (text? text).bind rt.decode

def Runtime.operationId (rt : Runtime) (sessionId operation : String) : String :=
  "verification-" ++ operation ++ "-" ++ String.ofList ((rt.sha256 sessionId).toList.take 32)

/-- What `table.concat` takes: texts and numbers. -/
def Runtime.concatText (rt : Runtime) : Value → Option String
  | .str text => some text
  | .num number => some (rt.tostring (some (.num number)))
  | _ => none

def Runtime.concat (rt : Runtime) (values : List Value) : Option String :=
  (values.mapM rt.concatText).map (", ".intercalate ·)

/-! ### Callbacks that are waited for -/

/-- What a callback is called with. -/
structure Args where
  first : Option Value
  second : Option Value

/-- What the callbacks for one Bead share: its place in the list and its preparation. -/
structure Job where
  number : Nat
  id : String
  prepared : Value

namespace Job

variable (job : Job)

def grant : Option Value := job.prepared.field "grant"
def launch : Option Value := under job.grant "request"
def sessionId : String := textOf job.launch "session_id"
def verification : Option Value := job.prepared.field "verification"
def verifierGrant : Option Value := under job.verification "verifier_grant"
def verifier : Option Value := under job.verifierGrant "request"
def verifierSessionId : String := textOf job.verifier "session_id"
def inputId : String := "verify-input-" ++ job.sessionId

end Job

/-- What is continued with when a callback is called, with what it has captured. -/
inductive Cont where
  | authorizedRun
  | admitted
  | prepared (number : Nat) (id : String)
  | staged (job : Job) (bytes : String)
  | authorizedWorker (job : Job) (bytes : String) (inputDigest : Option Value)
  | ready (job : Job) (completed : Nat)
  | attached (job : Job) (completed : Nat)
  | completed (job : Job) (inputDigest : Option Value)
  | endedStatus (job : Job) (inputDigest : Option Value)
  | verifying (job : Job) (inputDigest : Option Value)
  | polled (watch : Nat)
  | inspected (job : Job) (inputDigest : Option Value)
  | parked (job : Job) (inputDigest : Option Value)
  | exported (job : Job)
  | authorizedVerifier (job : Job) (exported : Value)
  | verifierReady (job : Job) (exported : Value)
  | verifierInspected (job : Job) (exported : Value)
  | executed (job : Job)
  | status (job : Job)
  | decided (job : Job)
  | previewed (job : Job) (selection : Value)
  | approved (job : Job) (preview : Value)
  | committed (job : Job) (preview : Value)
  | promoted (job : Job) (promoted : Option Bool)
  | commented (job : Job) (requestId : String)
  | advanced (job : Job)

/-- A callback that may be called: what was asked for with it, whether anyone else has it, and
what it was first called with. -/
structure Boundary where
  id : Nat
  cont : Cont
  request : Option Value
  offered : Bool
  given : Option Args

/-! ### State -/

inductive Status where
  | new
  | active
  | held
  | completed
  | failed
  | disposed
deriving DecidableEq, Repr

inductive Outcome where
  | workerFailed
  | verificationFailed
  | rejected
deriving DecidableEq, Repr

def Outcome.name : Outcome → String
  | .workerFailed => "worker_failed"
  | .verificationFailed => "verification_failed"
  | .rejected => "rejected"

structure Failure where
  beadId : String
  outcome : Outcome
  observationIds : List Value
  commentOperationId : Option String
  confirmed : Bool
  commentText : String

structure Summary where
  accepted : List String
  commits : List (String × String)
  failed : List Failure
  providerHold : Option Value

/-- What becomes of one Bead's worker, and whether its verification was reported. -/
structure WorkerResult where
  session : Option Value
  error : Option Value
  verification : Option Value
  verificationPassed : Option Bool
  verifierSessionId : Option String
  workerTurnId : Option Value
  verificationRequestId : Option Value
  promotion : Option String
  reported : Bool

/-- A watch for Provider holds: whether it is on, and whether its timer runs. -/
structure Watch where
  pending : Bool
  timer : Bool

/-- What the completion callback is called with. -/
structure Report where
  ok : Bool
  error : Option Value
  summary : Summary

/-- A callback that has acted, with the head of the Run branch at that time. -/
structure Handled where
  cont : Cont
  request : Option Value
  args : Args
  head : Option String

/-- What a call to something else does: its outcome, the callbacks it calls, and whether it
disposes of the controller, before it returns. -/
structure Answer where
  result : Except (Option Value) (Option Value)
  calls : List (Nat × Args)
  disposes : Bool

/-- The controller. The Beads whose preparation was asked for and the callbacks that have acted are
kept to state what holds of runs; `answers` are those of the calls that the current event makes. -/
structure Controller where
  status : Status
  runStatus : RunStatus
  index : Nat
  envelopeDigest : Option String
  head : Option String
  summary : Summary
  callback : Bool
  completion : Option (Bool × Option Value)
  reports : List Report
  results : Nat → WorkerResult
  watches : List Watch
  poll : Option Nat
  boundaries : List Boundary
  next : Nat
  started : List String
  log : List Handled
  answers : List Answer

/-- A controller before its start. -/
def Options.controller (options : Options) : Controller where
  status := .new
  runStatus := .active
  index := 1
  envelopeDigest := none
  head := options.worktree.map (·.head)
  summary := ⟨[], [], [], none⟩
  callback := false
  completion := none
  reports := []
  results := fun _ => ⟨none, none, none, none, none, none, none, none, false⟩
  watches := []
  poll := none
  boundaries := []
  next := 0
  started := []
  log := []
  answers := []

def runStatusName : RunStatus → String
  | .active => "active"
  | .cancelling => "cancelling"
  | .cancelled => "cancelled"
  | .parked => "parked"
  | .disposed => "disposed"

namespace Controller

/-! ### Finishing and waiting -/

/-- Stop the watch for Provider holds, where one can be stopped. -/
def cancelHoldPoll (c : Controller) : Controller :=
  match c.poll with
  | none => c
  | some watch => { c with poll := none, watches := c.watches.set watch ⟨false, false⟩ }

/-- Finish. The completion callback is called in a task of its own. -/
def finish (ok : Bool) (error : Option Value) (c : Controller) : Controller :=
  let c := c.cancelHoldPoll
  { c with
    status :=
      if c.status = .disposed ∨ c.status = .held then c.status
      else if ok then .completed else .failed
    callback := false
    completion := if c.callback then some (ok, error) else c.completion }

/-- Finish with an error. -/
def fail (message : String) (c : Controller) : Controller := c.finish false (some (.str message))

/-- Finish with an error that may be there, or else with a text. -/
def failWith (error : Option Value) (message : String) (c : Controller) : Controller :=
  c.finish false (either error (some (.str message)))

/-- Make a callback. Only the first call of it counts. -/
def response (cont : Cont) (request : Option Value) (offered : Bool) (c : Controller) :
    Controller :=
  { c with
    boundaries := c.boundaries ++ [⟨c.next, cont, request, offered, none⟩]
    next := c.next + 1 }

/-- Call a callback. -/
def call (id : Nat) (args : Args) (c : Controller) : Controller :=
  { c with
    boundaries := c.boundaries.map fun boundary =>
      if boundary.id = id ∧ boundary.given.isNone then { boundary with given := some args }
      else boundary }

/-- Hand a callback to someone else. -/
def offer (id : Nat) (c : Controller) : Controller :=
  { c with
    boundaries := c.boundaries.map fun boundary =>
      if boundary.id = id then { boundary with offered := true } else boundary }

/-- Someone else calls a callback that was handed over. -/
def callBack (item : Nat × Args) (c : Controller) : Controller :=
  if c.boundaries.any fun boundary => boundary.id == item.1 && boundary.offered then
    c.call item.1 item.2
  else c

/-- Dispose of the controller. Cancelling and disposing of its Sessions is left out. -/
def dispose (c : Controller) : Controller :=
  if c.status = .disposed then c
  else { c with status := .disposed, runStatus := .disposed }.fail "Bead Run disposed"

/-- Call something else. -/
def external (c : Controller) : Except (Option Value) (Option Value) × Controller :=
  match c.answers with
  | [] => (.ok (some (.bool true)), c)
  | answer :: answers =>
    let called := answer.calls.foldl (fun c item => c.callBack item) { c with answers }
    (answer.result, if answer.disposes then called.dispose else called)

/-- Change what is kept of a Bead's worker. -/
def setResult (number : Nat) (change : WorkerResult → WorkerResult) (c : Controller) :
    Controller :=
  { c with
    results := fun other => if other = number then change (c.results other) else c.results other }

/-! ### Provider holds -/

end Controller

/-- A Provider hold of this Run. -/
def Options.validHold (options : Options) (hold : Option Value) : Bool :=
  isTable hold && isText (under hold "run_id") options.runId &&
    (isText (under hold "reason") "exhausted" || isText (under hold "reason") "expired") &&
    match number? (under hold "held_at_ms") with
    | some number => (Number.ofNat 0).le number && number.isWhole
    | none => false

/-- Whether a command ended with success. -/
def succeeded (result : Option Value) : Bool :=
  number? (under result "code") == some (.ofNat 0)

namespace Controller

variable (rt : Runtime) (options : Options)

/-- Park the Run because of a Provider hold. Parking cancels the workers. -/
def holdRun (hold : Option Value) (c : Controller) : Controller :=
  if !options.validHold hold then c.fail "Control broker returned invalid Provider hold"
  else if c.runStatus = .disposed then c.fail "Run is disposed"
  else
    let c :=
      if c.runStatus = .parked then c else ({ c with runStatus := .parked }.external).2
    { c with summary := { c.summary with providerHold := hold }, status := .held }.fail
      ("Run Provider budget " ++ textOf hold "reason" ++ "; explicit operator action required")

/-! ### The broker -/

/-- Ask the broker for an authorization. -/
def authorize (request : Value) (cont : Cont) (c : Controller) : Controller :=
  match rt.encode request with
  | .error error => c.fail ("authorization request is not JSON: " ++ error)
  | .ok _ =>
    let asked := (c.response cont (some request) true).external
    match asked.1 with
    | .ok _ => asked.2
    | .error error =>
      asked.2.fail ("could not start Control broker authorization: " ++ rt.tostring error)

/-- The reply to a request of a kind. -/
def authorized (kind : String) (args : Args) (receive : Value → Controller → Controller)
    (c : Controller) : Controller :=
  let invalid := c.fail ("Control broker returned invalid " ++ kind ++ " response")
  let own := c.envelopeDigest.map str
  match ask args.first "code" with
  | none => c
  | some _ =>
    if !succeeded args.first then
      c.fail (if kind = "bead_failure" then "Control broker refused Bead failure comment"
        else "Control broker refused Run authorization")
    else
      match rt.decoded (under args.first "stdout") with
      | some (.table fields) =>
        let value := some (table fields)
        let hold := under value "hold"
        let sameEnvelope := rawEqual (under value "envelope_digest") own
        if kind = "session" ∧ isText (under value "kind") "held" ∧ sameEnvelope then
          c.holdRun options hold
        else if kind = "provider_status" then
          if !isText (under value "kind") kind || !isText (under value "run_id") options.runId ||
              !sameEnvelope || hold.isNone || (!isNull hold && !options.validHold hold) then
            c.fail "Control broker returned invalid Provider status"
          else if !isNull hold then c.holdRun options hold
          else receive (.table fields) c
        else if !isText (under value "kind") kind then invalid
        else
          match under value "receipt" with
          | some (.table receipt) => receive (.table receipt) c
          | _ => invalid
      | _ => invalid

/-- Ask how the Provider budget stands. -/
def providerStatus (cont : Cont) (c : Controller) : Controller :=
  c.authorize rt (object [("kind", some (.str "provider_status")),
    ("run_id", some (.str options.runId)),
    ("expected_envelope_digest", c.envelopeDigest.map .str)]) cont

/-- Ask at every second whether the Provider is held. -/
def watchProviderHold (c : Controller) : Controller :=
  { c with watches := c.watches ++ [⟨true, true⟩], poll := some c.watches.length }

/-- The timer of a watch fires. -/
def expire (watch : Nat) (c : Controller) : Controller :=
  match c.watches[watch]? with
  | some ⟨pending, true⟩ =>
    let c := { c with watches := c.watches.set watch ⟨pending, false⟩ }
    if pending ∧ c.status = .active then c.providerStatus rt options (.polled watch) else c
  | _ => c

/-- What a command that did not start is taken to have returned. -/
def notStarted (error : Option Value) : Args :=
  ⟨some (object [("code", some (.num (.ofNat 1))), ("stderr", some (.str (rt.tostring error)))]),
    none⟩

/-- Run a control command. `refused` is the callback, for a request that cannot be printed. -/
def control (request : Option Value) (cont : Cont)
    (refused : Except String Value → Controller → Controller) (c : Controller) : Controller :=
  match request.elim (.ok "") rt.encode with
  | .error _ => refused (.error "verification request is not JSON") c
  | .ok _ =>
    let asked := (c.response cont request true).external
    match asked.1 with
    | .ok _ => asked.2
    | .error error => asked.2.call c.next (notStarted rt error)

end Controller

/-- The reply to a control command. -/
def Runtime.controlReply (rt : Runtime) (expected : String) (args : Args) : Except String Value :=
  if !succeeded args.first then .error ("Control broker " ++ expected ++ " unavailable")
  else
    match rt.decoded (under args.first "stdout") with
    | some (.table fields) =>
      if expected = "inspect" ∨ isText ((table fields).field "kind") expected then
        .ok (.table fields)
      else .error ("Control broker returned invalid " ++ expected)
    | _ => .error ("Control broker returned invalid " ++ expected)

/-- Whether a refusal of a promotion may be shown. -/
def isRefusal (refusal : Option Value) : Bool :=
  let message := textOf refusal "message"
  isTable refusal && isText (under refusal "schema") "louiselm.run-promotion-error/1" &&
    message != "" && message.utf8ByteSize ≤ 256 &&
    !message.toList.any fun c => c.toNat < 32 || c.toNat == 127

/-- The reply to a promotion command. -/
def Runtime.promotionReply (rt : Runtime) (action : String) (args : Args) : Except String Value :=
  if !succeeded args.first then
    let refusal := rt.decoded (under args.first "stderr")
    if isRefusal refusal then
      .error ("Run promotion " ++ action ++ " refused: " ++ textOf refusal "message")
    else
      .error ("Run promotion " ++ action ++ " outcome unavailable; inspect state before any retry")
  else
    match rt.decoded (under args.first "stdout") with
    | some (.table fields) => .ok (.table fields)
    | _ => .error ("Run promotion returned invalid " ++ action)

/-! ### Requests -/

/-- The request to promote a worker's result. -/
def Runtime.selection (rt : Runtime) (options : Options) (head : Option String) (job : Job) :
    Value :=
  object [("schema", some (.str "louiselm.run-promotion-selection/1")),
    ("run_id", under job.launch "run_id"), ("bead_id", some (.str job.id)),
    ("producer_session_id", some (.str job.sessionId)),
    ("verifier_session_id", some (.str job.verifierSessionId)),
    ("request_id", some (.str (rt.operationId job.sessionId "promotion"))),
    ("checkout", options.worktree.map (.str ·.path)),
    ("journal_parent", options.worktree.map (.str ·.journalParent)),
    ("expected_head", head.map .str)]

/-- The request for a preview of a selection. -/
def previewRequest (selection : Value) : Value := object [("selection", some selection)]

/-- The request to commit what a preview shows. -/
def commitRequest (preview : Value) : Value :=
  object [("selection", preview.field "selection"),
    ("approval_digest", preview.field "approval_digest")]

/-- Whether a preview is one of a selection, with the head that is current. -/
def isPreviewOf (selection : Value) (head : Option String) (preview : Value) : Bool :=
  let shown := preview.field "selection"
  let same (name : String) := rawEqual (under shown name) (selection.field name)
  isText (preview.field "schema") "louiselm.run-promotion-preview/1" &&
    isTable (preview.field "changes") && digest (preview.field "approval_digest") &&
    isTable shown && same "run_id" && same "bead_id" && same "producer_session_id" &&
    same "verifier_session_id" && same "request_id" && rawEqual (under shown "expected_head")
    (head.map .str) && isRevision (under shown "expires_at_ms")

/-- The commit of a Bead that a reply names. -/
def commitOf (id : String) (committed : Value) : Option String :=
  let commit := textOf (some committed) "commit"
  if isText (committed.field "schema") "louiselm.run-promotion-commit/1" &&
      isText (committed.field "bead_id") id && isCommit commit then
    some commit
  else none

/-- The request to stage the inputs of a Bead's verification. -/
def Job.stageRequest (head : Option String) (job : Job) : Value :=
  object [("kind", some (.str "stage")), ("input_id", some (.str job.inputId)),
    ("snapshot", under job.verification "snapshot"),
    ("snapshot_digest", under job.verification "snapshot_digest"),
    ("expected_base_commit", head.map .str), ("plan", under job.verification "plan"),
    ("plan_digest", under job.verification "plan_digest")]

/-- The request to authorize a Session of a grant. -/
def sessionRequest (grant : Option Value) (envelopeDigest : Option String) : Value :=
  object [("kind", some (.str "session")), ("grant", grant),
    ("expected_envelope_digest", envelopeDigest.map .str)]

/-- The request to park a worker for its verification. -/
def Runtime.parkRequest (rt : Runtime) (job : Job) (head : Option Value) : Value :=
  object [("kind", some (.str "park")), ("request", some (object
    [("schema", some (.str "louiselm.launch.lifecycle-request/1")),
      ("protocol_version", some (.num (.ofNat 1))),
      ("request_id", some (.str (rt.operationId job.sessionId "park"))),
      ("authorization_id", some (.str (rt.operationId job.sessionId "park-authorize"))),
      ("session_id", some (.str job.sessionId)), ("run_id", under job.launch "run_id"),
      ("action", some (.str "park")), ("expected_state", some (.str "running")),
      ("expected_receipt_sequence", under head "sequence"),
      ("envelope_revision", under job.launch "envelope_revision")]))]

/-- A verification request for a launch at a head. -/
def Options.verificationRequest (options : Options) (kind requestId : String)
    (launch head : Option Value) (operation : Value) : Value :=
  object [("kind", some (.str kind)), ("request", some (object
    [("schema", some (.str "louiselm.launch.verification/1")),
      ("protocol_version", some (.num (.ofNat 1))), ("request_id", some (.str requestId)),
      ("launch", launch), ("head", head), ("expires_at_ms", options.envelope.field "expires_at_ms"),
      ("operation", some operation)]))]

/-- The request to export a worker's result as the input of its verification. -/
def Runtime.exportRequest (rt : Runtime) (options : Options) (job : Job) (parked : Value)
    (inputDigest : Option Value) : Value :=
  options.verificationRequest "export" (rt.operationId job.sessionId "export") job.launch
    (parked.field "head")
    (object [("kind", some (.str "export")), ("input_id", some (.str job.inputId)),
      ("input_digest", inputDigest)])

/-- The request to run the plan of a verification. -/
def Runtime.runRequest (rt : Runtime) (options : Options) (job : Job) (exported : Value)
    (head jobDigest : Option Value) : Value :=
  options.verificationRequest "run" (rt.operationId job.verifierSessionId "run") job.verifier head
    (object [("kind", some (.str "run")), ("producer_session_id", some (.str job.sessionId)),
      ("export_request_id", some (.str (rt.operationId job.sessionId "export"))),
      ("export_digest", exported.field "export_digest"), ("job_digest", jobDigest)])

/-- The question for the outcome of a Bead's verification. -/
def statusRequest (job : Job) : Value :=
  object [("kind", some (.str "status")), ("session_id", some (.str job.verifierSessionId))]

/-! ### Checks of preparations -/

/-- Whether a scope names one Bead only. -/
def namesOnly (id : String) : Option Value → Bool
  | some (.table [(key, .str text)]) => key == .num (.ofNat 1) && text == id
  | _ => false

/-- Whether a launch request belongs to the Run and the Agent. -/
def Options.ownLaunch (options : Options) (launch : Option Value) : Bool :=
  isText (under launch "run_id") options.runId && rawEqual (under launch "envelope_id")
    (options.envelope.field "envelope_id") && rawEqual (under launch "envelope_revision")
    (options.envelope.field "envelope_revision") && isText (under launch "agent_id") options.agentId

/-- What a grant gives apart from its Session. -/
def capabilities : List String :=
  ["commands", "beads_mutations", "dependencies", "skill_requests", "provider_requests"]

/-- The launch text of a preparation that may be started. -/
def Runtime.checkPrepared (rt : Runtime) (options : Options) (head : Option String) (id : String)
    (prepared : Value) : Except String String :=
  let job : Job := ⟨0, id, prepared⟩
  if !isTable (some prepared) || !isTable job.grant ||
      textOf (some prepared) "prompt" == "" then
    .error "worker preparation requires a grant and prompt"
  else do
    let bytes ← rt.encodeLaunch job.launch
    require (options.ownLaunch job.launch) "worker launch does not match its Run and Agent"
    let scope := under job.grant "beads_mutations"
    require (isTable scope && namesOnly id (under scope "issue_ids") &&
        isText (under scope "role") "worker")
      "worker grant must name only its assigned Bead with the worker role"
    let verification := job.verification
    require (isTable verification && (text? (under verification "snapshot")).isSome &&
        (text? (under verification "plan")).isSome &&
        digest (under verification "snapshot_digest") && rawEqual (under verification "plan_digest")
          (options.envelope.field "verification_plan_digest") && isTable job.verifierGrant)
      "verification requires the approved plan, baseline and verifier grant"
    require (options.worktree.isNone ||
        rawEqual (prepared.field "base_commit") (head.map .str))
      "next Bead snapshot does not match the Run branch HEAD"
    require ((rt.encodeLaunch job.verifier).isOk && options.ownLaunch job.verifier &&
        job.verifierSessionId != job.sessionId &&
        !capabilities.any fun name => present (under job.verifierGrant name))
      "verifier must be a distinct grant without ordinary capabilities"
    return bytes

/-! ### The sequence of one Bead -/

namespace Controller

variable (rt : Runtime) (options : Options)

/-- Move the workflow on. -/
def advance (cont : Cont) (c : Controller) : Controller :=
  let asked := (c.response cont none true).external
  match asked.1 with
  | .ok _ => asked.2
  | .error error => asked.2.finish false error

/-- Prepare the next Bead, or finish. -/
def nextBead (c : Controller) : Controller :=
  match options.beadIds[c.index - 1]? with
  | none => c.finish true none
  | some id =>
    let asked := ({ c with started := c.started ++ [id] }.response
      (.prepared c.index id) none true).external
    match asked.1 with
    | .ok _ => asked.2
    | .error error =>
      asked.2.call c.next ⟨none, either error (some (.str "could not prepare worker"))⟩

def proceed (job : Job) (c : Controller) : Controller := c.advance (.advanced job)

/-- Record a failed Bead and have the broker comment on it. -/
def reject (job : Job) (c : Controller) : Controller :=
  let result := c.results job.number
  let outcome : Outcome :=
    if isTruthy result.error then .workerFailed
    else if result.verificationPassed ≠ some true then .verificationFailed
    else .rejected
  let verifier := result.verifierSessionId.map fun id =>
    (either result.verificationRequestId (some (.str id))).getD (.str id)
  let ids := (either result.workerTurnId (some (.str job.sessionId))).getD
    (.str job.sessionId) :: verifier.toList
  -- Joining the identities raises an error, and nothing is recorded, where one is no text.
  match rt.concat ids with
  | none => c
  | some joined =>
    let text := "Run " ++ options.runId ++ ": " ++ outcome.name ++ "; observations: " ++ joined
    let requestId := "failure-" ++
      String.ofList ((rt.sha256 (options.runId ++ ":" ++ job.id)).toList.take 32)
    let failure : Failure := ⟨job.id, outcome, ids, none, false, text⟩
    { c with summary := { c.summary with failed := c.summary.failed ++ [failure] } }.authorize rt
      (object [("kind", some (.str "bead_failure")), ("report", some (object
        [("run_id", some (.str options.runId)),
          ("expected_envelope_digest", c.envelopeDigest.map .str),
          ("request_id", some (.str requestId)), ("bead_id", some (.str job.id)),
          ("outcome", some (.str outcome.name)), ("observation_ids", some (array ids))]))])
      (.commented job requestId)

/-- Change a Bead's failure. -/
def setFailure (id : String) (change : Failure → Failure) (c : Controller) : Controller :=
  let failed := c.summary.failed.map fun failure =>
    if failure.beadId = id then change failure else failure
  { c with summary := { c.summary with failed } }

/-- The broker has commented on a failed Bead. -/
def onCommented (job : Job) (requestId : String) (receipt : Value) (c : Controller) :
    Controller :=
  let operation := text? (receipt.field "operation_id")
  let c := if operation.isSome then
    c.setFailure job.id fun failure => { failure with commentOperationId := operation } else c
  if !isText (receipt.field "request_id") requestId || operation.isNone ||
      !isText (under (receipt.field "outcome") "kind") "completed" then
    c.fail "broker Bead failure comment is not confirmed"
  else (c.setFailure job.id fun failure => { failure with confirmed := true }).proceed job

/-! ### Promotion -/

/-- A promotion comes to its end: `none` stops the Run. -/
def settlePromotion (job : Job) (promoted : Option Bool) (error : Option String)
    (c : Controller) : Controller :=
  { c.response (.promoted job promoted) none false with }.call c.next
    ⟨promoted.map .bool, error.map .str⟩

/-- Run a promotion command. -/
def promotionControl (job : Job) (request : Value) (cont : Cont) (c : Controller) : Controller :=
  match rt.encode request with
  | .error _ => c.settlePromotion job none (some "promotion request is not JSON")
  | .ok _ =>
    let asked := (c.response cont (some request) true).external
    match asked.1 with
    | .ok _ => asked.2
    | .error error => asked.2.call c.next (notStarted rt error)

def promote (job : Job) (c : Controller) : Controller :=
  let selection := rt.selection options c.head job
  c.promotionControl rt job (previewRequest selection) (.previewed job selection)

/-- The preview of a promotion has come. -/
def onPreviewed (job : Job) (selection : Value) (reply : Except String Value) (c : Controller) :
    Controller :=
  match reply with
  | .error error => c.settlePromotion job none (some error)
  | .ok preview =>
    if !isPreviewOf selection c.head preview then
      c.settlePromotion job none (some "Run promotion returned a mismatched preview")
    else (c.response (.approved job preview) none true).external.2

/-- The maintainer has decided about a preview. -/
def onApproved (job : Job) (preview : Value) (accepted : Option Value) (c : Controller) :
    Controller :=
  if !isTrue accepted then c.settlePromotion job (some false) none
  else c.promotionControl rt job (commitRequest preview) (.committed job preview)

/-- The commit of a promotion has come. -/
def onCommitted (job : Job) (reply : Except String Value) (c : Controller) : Controller :=
  match reply with
  | .error error => c.settlePromotion job none (some error)
  | .ok committed =>
    match commitOf job.id committed with
    | none => c.settlePromotion job none (some "Run promotion returned an invalid commit")
    | some commit =>
      ({ c with head := some commit }.setResult job.number fun result =>
        { result with promotion := some commit }).settlePromotion job (some true) none

/-- Count a Bead as accepted. -/
def accept (job : Job) (commits : List (String × String)) (c : Controller) : Controller :=
  let summary := c.summary
  { c with
    summary := { summary with
      accepted := summary.accepted ++ [job.id], commits := summary.commits ++ commits } }

/-- A promotion has come to its end. -/
def onPromoted (job : Job) (promoted : Option Bool) (error : Option Value) (c : Controller) :
    Controller :=
  match promoted with
  | none => c.finish false error
  | some false => c.reject rt options job
  | some true =>
    let result := c.results job.number
    let c := c.accept job (result.promotion.toList.map fun commit => (job.id, commit))
    if result.session.isNone then c
    else
      let disposed := c.external
      match disposed.1 with
      | .error error => disposed.2.failWith error "promoted worker disposal failed"
      | .ok _ => disposed.2.proceed job

/-! ### Verification -/

/-- Hand a worker's result to the operator. -/
def handoff (job : Job) (c : Controller) : Controller :=
  (c.response (.decided job) none true).external.2

/-- The operator has decided about a worker's result. -/
def onDecided (job : Job) (accepted error : Option Value) (c : Controller) : Controller :=
  let result := c.results job.number
  if accepted.isNone then c.failWith error "operator stopped the Run"
  else
    let state := ask result.verification "state"
    if isTruthy result.verification && state.isNone then c
    else if isTruthy result.verification && !isText (state.getD none) "completed" then
      c.fail "Run verification outcome is uncertain"
    else if isTrue accepted && !isTruthy result.error && result.verificationPassed == some true then
      if options.worktree.isSome then c.promote rt options job
      else (c.accept job []).proceed job
    else c.reject rt options job

/-- Report a verification, unless one has been reported. -/
def report (job : Job) (verification : Option Value) (passed : Bool) (error : Option Value)
    (c : Controller) : Controller :=
  if (c.results job.number).reported then c
  else
    (c.setResult job.number fun result => { result with
      reported := true
      verification
      verificationPassed := some passed
      error }).handoff job

/-- Report a verification with an unknown outcome. -/
def unknown (job : Job) (message : Value) (c : Controller) : Controller :=
  c.report job (some (object [("state", some (.str "unknown"))])) false (some message)

/-- Keep the identity of the verification that a view shows. -/
def noteRequest (job : Job) (view : Value) (c : Controller) : Controller :=
  let execution := under (under (view.field "status") "detail") "execution"
  let request := under execution "request"
  if isTable request then
    c.setResult job.number fun result =>
      { result with verificationRequestId := under request "request_id" }
  else c

/-- The outcome of a verification has come. -/
def onStatus (job : Job) (reply : Except String Value) (c : Controller) : Controller :=
  match reply with
  | .error error => c.unknown job (.str error)
  | .ok view =>
    (c.noteRequest job view).report job (view.field "status")
      (isTrue (view.field "commands_passed")) none

/-- The plan has been run, or the reply to it is lost: its outcome is asked for. -/
def onExecuted (job : Job) (c : Controller) : Controller :=
  c.control rt (some (statusRequest job)) (.status job) (onStatus job)

/-- Whether a Session is running, with a receipt. -/
def isRunning (status : Value) : Bool :=
  isText (status.field "state") "running" && isTable (status.field "broker_head")

/-- The verifier has been inspected. -/
def onVerifierInspected (job : Job) (exported : Value) (reply : Except String Value)
    (c : Controller) : Controller :=
  match reply with
  | .error error => c.unknown job (.str error)
  | .ok status =>
    let head := status.field "broker_head"
    if !isRunning status || number? (under head "sequence") != some (.ofNat 1) then
      c.unknown job (.str "verifier has no fresh Running receipt")
    else
      match (ask (exported.field "evidence") "job").bind (ask · "job_digest") with
      | none => c
      | some jobDigest =>
        c.control rt (some (rt.runRequest options job exported head jobDigest)) (.executed job)
          fun _ => onExecuted rt job

/-- The verifier has started, or could not be. -/
def onVerifierReady (job : Job) (exported : Value) (args : Args) (c : Controller) : Controller :=
  if !isTruthy args.first then
    c.unknown job ((either args.second none).getD (.str "verifier startup failed"))
  else
    c.control rt none (.verifierInspected job exported)
      (onVerifierInspected rt options job exported)

/-- The verifier is authorized. -/
def onAuthorizedVerifier (job : Job) (exported receipt : Value) (c : Controller) : Controller :=
  match rt.encodeLaunch job.verifier with
  | .error _ => c
  | .ok bytes =>
    if !isText (receipt.field "request_digest") ("sha256:" ++ rt.sha256 bytes) then
      c.unknown job (.str "broker returned a mismatched verifier authorization")
    else
      let created := (c.response (.verifierReady job exported) none true).external
      match created.1 with
      | .ok _ => created.2
      | .error error =>
        created.2.unknown job ((either error none).getD (.str "verifier startup failed"))

/-- The worker's result is exported. -/
def onExported (job : Job) (reply : Except String Value) (c : Controller) : Controller :=
  match reply with
  | .error error => c.unknown job (.str error)
  | .ok exported =>
    c.authorize rt (sessionRequest job.verifierGrant c.envelopeDigest)
      (.authorizedVerifier job exported)

/-- The worker is parked. -/
def onParked (job : Job) (inputDigest : Option Value) (reply : Except String Value)
    (c : Controller) : Controller :=
  match reply with
  | .error error => c.unknown job (.str error)
  | .ok parked =>
    c.control rt (some (rt.exportRequest options job parked inputDigest)) (.exported job)
      (onExported rt job)

/-- The worker has been inspected. -/
def onInspected (job : Job) (inputDigest : Option Value) (reply : Except String Value)
    (c : Controller) : Controller :=
  match reply with
  | .error error => c.unknown job (.str error)
  | .ok status =>
    if !isRunning status then c.unknown job (.str "producer has no Running broker receipt")
    else
      c.control rt (some (rt.parkRequest job (status.field "broker_head")))
        (.parked job inputDigest) (onParked rt options job inputDigest)

/-- Verify what a worker has done, where it ended without an error. -/
def verifyWorker (job : Job) (inputDigest : Option Value) (c : Controller) : Controller :=
  if isTruthy (c.results job.number).error then c.handoff job
  else
    (c.setResult job.number fun result =>
        { result with verifierSessionId := some job.verifierSessionId }).control rt none
      (.inspected job inputDigest) (onInspected rt options job inputDigest)

/-! ### The worker -/

/-- The worker has ended. -/
def onCompleted (job : Job) (inputDigest error : Option Value) (c : Controller) : Controller :=
  (c.cancelHoldPoll.setResult job.number fun result => { result with error }).providerStatus rt
    options (.endedStatus job inputDigest)

/-- Prompt the worker. -/
def prompt (job : Job) (completed : Nat) (c : Controller) : Controller :=
  let sent := (c.offer completed).external
  match sent.1 with
  | .ok turn =>
    (sent.2.setResult job.number fun result =>
      { result with workerTurnId := turn }).watchProviderHold
  | .error error =>
    sent.2.call completed ⟨none, either error (some (.str "worker prompt refused"))⟩

/-- The worker has started, or could not be. The first one is attached to the Run. -/
def onReady (job : Job) (completed : Nat) (args : Args) (c : Controller) : Controller :=
  if !isTruthy args.first then
    c.call completed ⟨none, either args.second (some (.str "worker startup failed"))⟩
  else
    let c := c.setResult job.number fun result => { result with session := args.first }
    if c.index ≠ 1 then c.prompt job completed
    else
      let attached := (c.response (.attached job completed) none true).external
      match attached.1 with
      | .ok _ => attached.2
      | .error error => attached.2.call c.next ⟨some (.bool false), error⟩

/-- The Run is attached to its first worker. -/
def onAttached (job : Job) (completed : Nat) (args : Args) (c : Controller) : Controller :=
  if !isTruthy args.first then c.failWith args.second "Run attachment failed"
  else c.prompt job completed

/-- Whether a receipt is the child authorization that was asked for. -/
def isChildReceipt (job : Job) (bytes : String) (receipt : Value) (c : Controller) : Bool :=
  let same (name : String) := rawEqual (receipt.field name) (under job.launch name)
  isText (receipt.field "schema") "louiselm.broker.child-authorization/1" && same "run_id" &&
    same "session_id" && same "authorization_id" && same "envelope_revision" &&
    rawEqual (receipt.field "envelope_digest") (c.envelopeDigest.map .str) &&
    isText (receipt.field "request_digest") ("sha256:" ++ rt.sha256 bytes)

/-- The worker is authorized. -/
def onAuthorizedWorker (job : Job) (bytes : String) (inputDigest : Option Value)
    (receipt : Value) (c : Controller) : Controller :=
  if !isChildReceipt rt job bytes receipt c then
    c.fail "broker returned a mismatched child authorization"
  else
    let completed := c.next
    let created := ((c.response (.completed job inputDigest) none false).response
      (.ready job completed) none true).external
    match created.1 with
    | .ok _ => created.2
    | .error error =>
      created.2.call completed ⟨none, either error (some (.str "worker startup failed"))⟩

/-- The inputs of a verification are staged. -/
def onStaged (job : Job) (bytes : String) (reply : Except String Value) (c : Controller) :
    Controller :=
  match reply with
  | .error error => c.fail error
  | .ok staged =>
    c.authorize rt (sessionRequest job.grant c.envelopeDigest)
      (.authorizedWorker job bytes (staged.field "input_digest"))

/-- A Bead is prepared, or could not be. -/
def onPrepared (number : Nat) (id : String) (args : Args) (c : Controller) : Controller :=
  match args.first with
  | none | some (.bool false) => c.failWith args.second "worker preparation failed"
  | some prepared =>
    match rt.checkPrepared options c.head id prepared with
    | .error error => c.fail error
    | .ok bytes =>
      let job : Job := ⟨number, id, prepared⟩
      c.control rt (some (job.stageRequest c.head)) (.staged job bytes) (onStaged rt job bytes)

/-! ### The Run -/

/-- The Run is admitted, or could not be. Its ledger may be refused. -/
def onAdmitted (args : Args) (c : Controller) : Controller :=
  if !isTruthy args.first then c.failWith args.second "Run admission failed"
  else
    let ledger := c.external
    match ledger.1 with
    | .error error => ledger.2.finish false error
    | .ok _ => ledger.2.nextBead options

/-- The Run is authorized. -/
def onAuthorizedRun (receipt : Value) (c : Controller) : Controller :=
  match receipt.field "envelope_digest" with
  | some (.str envelopeDigest) =>
    if isText (receipt.field "schema") "louiselm.broker.run-authorization/1" &&
        isText (receipt.field "run_id") options.runId &&
        rawEqual (receipt.field "envelope_revision") (options.envelope.field "envelope_revision") &&
        digest (some (.str envelopeDigest)) then
      let c := { c with envelopeDigest := some envelopeDigest }
      let admitted := (c.response .admitted none true).external
      match admitted.1 with
      | .ok _ => admitted.2
      | .error error => admitted.2.call c.next ⟨none, error⟩
    else c.fail "broker returned a mismatched Run authorization"
  | _ => c.fail "broker returned a mismatched Run authorization"

/-- Start. `api` is what the Session API's construction says. -/
def start (api : Except String Unit) (c : Controller) : Controller :=
  if c.status ≠ .new then c
  else
    let c := { c with status := .active, callback := true }
    match api with
    | .error error => c.fail ("could not construct worker Session API: " ++ error)
    | .ok () =>
      c.authorize rt (object [("kind", some (.str "run")), ("envelope", some options.envelope)])
        .authorizedRun

/-- Continue after a callback was called. -/
def handle (cont : Cont) (args : Args) (c : Controller) : Controller :=
  match cont with
  | .authorizedRun => c.authorized rt options "run" args (onAuthorizedRun options)
  | .admitted => c.onAdmitted options args
  | .prepared number id => c.onPrepared rt options number id args
  | .staged job bytes => c.onStaged rt job bytes (rt.controlReply "staged" args)
  | .authorizedWorker job bytes inputDigest =>
    c.authorized rt options "session" args (onAuthorizedWorker rt job bytes inputDigest)
  | .ready job completed => c.onReady job completed args
  | .attached job completed => c.onAttached job completed args
  | .completed job inputDigest => c.onCompleted rt options job inputDigest args.second
  | .endedStatus job inputDigest =>
    c.authorized rt options "provider_status" args fun _ =>
      Controller.advance (.verifying job inputDigest)
  | .verifying job inputDigest =>
    if !isTruthy args.first then c.finish false args.second
    else c.verifyWorker rt options job inputDigest
  | .polled watch =>
    c.authorized rt options "provider_status" args fun _ c =>
      if (c.watches[watch]?.any (·.pending)) ∧ c.status = .active then
        { c with watches := c.watches.set watch ⟨true, true⟩ } else c
  | .inspected job inputDigest =>
    c.onInspected rt options job inputDigest (rt.controlReply "inspect" args)
  | .parked job inputDigest =>
    c.onParked rt options job inputDigest (rt.controlReply "parked" args)
  | .exported job => c.onExported rt job (rt.controlReply "exported" args)
  | .authorizedVerifier job exported =>
    c.authorized rt options "session" args (onAuthorizedVerifier rt job exported)
  | .verifierReady job exported => c.onVerifierReady rt options job exported args
  | .verifierInspected job exported =>
    c.onVerifierInspected rt options job exported (rt.controlReply "inspect" args)
  | .executed job => c.onExecuted rt job
  | .status job => c.onStatus job (rt.controlReply "status" args)
  | .decided job => c.onDecided rt options job args.first args.second
  | .previewed job selection =>
    c.onPreviewed job selection (rt.promotionReply "preview" args)
  | .approved job preview => c.onApproved rt job preview args.first
  | .committed job _ => c.onCommitted job (rt.promotionReply "commit" args)
  | .promoted job promoted => c.onPromoted rt options job promoted args.second
  | .commented job requestId =>
    c.authorized rt options "bead_failure" args (onCommented job requestId)
  | .advanced _ =>
    if !isTruthy args.first then c.finish false args.second
    else { c with index := c.index + 1 }.nextBead options

/-- Run the task of a callback that was called. -/
def run (id : Nat) (c : Controller) : Controller :=
  match c.boundaries.find? (·.id == id) with
  | some ⟨_, cont, request, _, some args⟩ =>
    let c := { c with boundaries := c.boundaries.filter (·.id != id) }
    if c.status ≠ .active then c
    else if c.runStatus ≠ .active then c.fail ("Bead Run is " ++ runStatusName c.runStatus)
    else { c with log := ⟨cont, request, args, c.head⟩ :: c.log }.handle rt options cont args
  | _ => c

end Controller

/-- What happens to a controller. -/
inductive Event where
  | start (api : Except String Unit) (answers : List Answer)
  | call (id : Nat) (args : Args)
  | run (id : Nat) (answers : List Answer)
  | timer (watch : Nat) (answers : List Answer)
  | deliver
  | runStatus (status : RunStatus)
  | dispose

/-- Whether the Run is made active again, as only an operator's resume of it does. -/
def Event.resumes : Event → Bool
  | .runStatus .active => true
  | _ => false

namespace Controller

variable (rt : Runtime) (options : Options)

/-- The completion callback is called. -/
def deliver (c : Controller) : Controller :=
  match c.completion with
  | none => c
  | some (ok, error) =>
    { c with completion := none, reports := ⟨ok, error, c.summary⟩ :: c.reports }

def step (c : Controller) : Event → Controller
  | .start api answers => { c with answers }.start rt options api
  | .call id args => c.callBack (id, args)
  | .run id answers => { c with answers }.run rt options id
  | .timer watch answers => { c with answers }.expire rt options watch
  | .deliver => c.deliver
  | .runStatus status => { c with runStatus := status }
  | .dispose => c.dispose

/-- A controller after a run of events. -/
def after (c : Controller) (events : List Event) : Controller :=
  events.foldl (step rt options) c

end Controller

end Louiselm.Workflow.Beads
