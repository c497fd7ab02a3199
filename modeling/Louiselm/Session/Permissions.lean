import Louiselm.Permission.Options

/-!
# Permission requests of a Session

`lua/louiselm/session/lifecycle.lua`: the requests of an Agent that need a human decision, one
published at a time. Events are delivered to listeners at once, who may call the Session again;
what is left to do afterwards waits on a stack until they return. The rest of the Session only
changes the status and the rules.
-/

namespace Louiselm.Session
open Base.Lua Permission Gates

inductive Status where
  | starting
  | ready
  | admitting
  | configuring
  | preparing
  | prompting
  | running
  | waitingPermission
  | cancelling
  | error
  | disposed
deriving DecidableEq, Repr

/-- A Session with this status takes part in nothing any more. -/
def Status.isDead (status : Status) : Bool := status == .error || status == .disposed

/-- What never changes in a Session. -/
structure Setup where
  tostring : Option Value → String
  sha256 : String → String
  policy : Policy
  /-- The Session was started with a launch request. -/
  contained : Bool
  id : Option Value
  /-- The Session, Agent, adapter and workspace that rules are for. -/
  context : Value

/-- How things are and what becomes of writes while something is done; what is done for a
request goes by its number. -/
structure Look where
  paths : Paths
  access : Nat → Access
  /-- The order in which the rules of Sessions are visited. -/
  visit : Nat → List Rule → List Rule
  writable : Nat → Bool
  notified : Bool
  closes : Bool
  turnDone : Bool
  turnFinished : Bool
  agentRunning : Option Bool
  /-- An admission was settled, after which disposal is noticed. -/
  admitted : Bool

/-- A request that waits for a decision; its number is its identity. -/
structure PermissionEntry where
  number : Nat
  requestId : Value
  data : Value
  operation : Value
  policyDecision : Decision
  permissionError : Option String
  rememberedDecision : Option Verdict

structure Response where
  result : Option Value
  error : Option Value

/-- What is left to do when the listeners of an event return. Sending an answer settles the
status after it has published the next request. -/
inductive Frame where
  /-- The status says that a decision is waited for; the request is yet to be published. -/
  | announce (entry : PermissionEntry) (settles : Bool)
  | published (settles : Bool)
  | cancelling
  | failing
  | failed
  | disposing
  | disposed

/-- The part of a Session that permission requests are about. Beside it what was written for
every request, what was published, what was taken back, whether the Session failed or was
disposed of, the answers that were accepted, and those whose choice was remembered. -/
structure Permissions where
  status : Status
  acpSessionId : Option String
  permissionActive : Option PermissionEntry
  permissionQueue : List PermissionEntry
  answered : List Nat
  store : Store
  closed : Bool
  frames : List Frame
  arrived : Nat
  written : List (Nat × Response)
  published : List PermissionEntry
  withdrawn : List Nat
  retired : List (List Value)
  ended : Bool
  accepted : List Nat
  remembered : List Nat

namespace Permissions

def new (store : Store) : Permissions :=
  { status := .starting, acpSessionId := none, permissionActive := none, permissionQueue := []
    answered := [], store, closed := false, frames := [], arrived := 0, written := []
    published := [], withdrawn := [], retired := [], ended := false, accepted := []
    remembered := [] }

/-- Write the response to a request. -/
def respond (look : Look) (number : Nat) (response : Response) (session : Permissions) :
    Bool × Permissions :=
  if look.writable number && !session.closed then
    (true, { session with written := session.written ++ [(number, response)] })
  else (false, session)

/-- Mark a request as answered. -/
def markAnswered (number : Nat) (session : Permissions) : Permissions :=
  { session with answered := session.answered ++ [number] }

/-! ### Publishing -/

/-- The status after the last decision. -/
def settledStatus (look : Look) : Status :=
  if look.turnDone || (look.agentRunning.isSome && look.turnFinished) then
    if look.agentRunning = some true then .running else .ready
  else .prompting

/-- Leave the status that waits for a decision when there is none to wait for. -/
def settle (look : Look) (session : Permissions) : Permissions :=
  if session.permissionActive.isNone && session.status == .waitingPermission then
    { session with status := settledStatus look }
  else session

/-- The queue is worked off. -/
def finish (look : Look) (settles : Bool) (session : Permissions) : Permissions :=
  if settles then session.settle look else session

/-- Answer a queued request from remembered permissions, or annotate it for a human. -/
def applyRemembered (setup : Setup) (look : Look) (entry : PermissionEntry)
    (session : Permissions) : Option PermissionEntry × Permissions :=
  if entry.policyDecision ≠ .ask then (some entry, session)
  else
    match session.store.evaluate setup.sha256 look.paths (look.access entry.number)
        (look.visit entry.number (session.store.sessionRules.map Prod.snd)) setup.context
        entry.operation with
    | .error message => (some { entry with permissionError := some message }, session)
    | .ok remembered =>
      match remembered.verdict? with
      | none => (some entry, session)
      | some verdict =>
        match rememberedResponse setup.tostring entry.data verdict with
        | none => (some { entry with rememberedDecision := some verdict }, session)
        | some result =>
          match session.respond look entry.number ⟨some result, none⟩ with
          | (true, session) => (none, session.markAnswered entry.number)
          | (false, session) => (some entry, session)

/-- Deliver a request to the listeners. -/
def publish (entry : PermissionEntry) (settles : Bool) (session : Permissions) : Permissions :=
  { session with
    published := session.published ++ [entry]
    frames := .published settles :: session.frames }

/-- Make a request the active one. A changed status is delivered before the request is. -/
def offer (entry : PermissionEntry) (settles : Bool) (session : Permissions) : Permissions :=
  let session := { session with permissionActive := some entry }
  if session.status = .waitingPermission then session.publish entry settles
  else { session with
    status := .waitingPermission
    frames := .announce entry settles :: session.frames }

/-- Work off the queue until a request needs a human decision. -/
def pumpQueue (setup : Setup) (look : Look) (settles : Bool) :
    List PermissionEntry → Permissions → Permissions
  | [], session => session.finish look settles
  | entry :: rest, session =>
    match { session with permissionQueue := rest }.applyRemembered setup look entry with
    | (none, session) => pumpQueue setup look settles rest session
    | (some entry, session) => session.offer entry settles

/-- Publish the next permission request that still needs a human decision. -/
def pump (setup : Setup) (look : Look) (settles : Bool) (session : Permissions) : Permissions :=
  if session.permissionActive.isSome || session.status.isDead then session.finish look settles
  else pumpQueue setup look settles session.permissionQueue session

/-- The listeners of the changed status have returned. -/
def announce (setup : Setup) (look : Look) (entry : PermissionEntry) (settles : Bool)
    (session : Permissions) : Permissions :=
  -- A disposed Session delivers no more requests.
  if session.status = .disposed then session.pump setup look settles
  else session.publish entry settles

/-! ### Requests -/

/-- A protocol error for a request. -/
def invalidParams (message : String) : Response :=
  ⟨none, some (.table [(.str "code", .num (.finite (-32602))), (.str "message", .str message)])⟩

/-- Queue a request. -/
def enqueue (setup : Setup) (look : Look) (entry : PermissionEntry) (session : Permissions) :
    Permissions :=
  { session with permissionQueue := session.permissionQueue ++ [entry] }.pump setup look false

/-- Take a request of the Agent. -/
def handleRequest (setup : Setup) (look : Look) (requestId : Value) (params : Option Value)
    (session : Permissions) : Permissions :=
  let number := session.arrived
  let session := { session with arrived := number + 1 }
  let named := Value.text? (params.bind (·.field "sessionId"))
  match params with
  | some (.table fields) =>
    if (params.bind (·.field "sessionId")).isSome ≠ session.acpSessionId.isSome ∨
        named ≠ session.acpSessionId then
      (session.respond look number (invalidParams "malformed ACP permission request")).2
    else
      let data := Value.table fields
      let operation := fromAcp setup.tostring data
      match check setup.policy operation with
      | .error message =>
        (session.respond look number
          (invalidParams ("invalid ACP permission request: " ++ message))).2
      | .ok (decision, _) =>
        let entry := ⟨number, requestId, data, operation, decision, none, none⟩
        match decision.verdict? with
        | none => session.enqueue setup look entry
        | some verdict =>
          match response setup.tostring data verdict with
          | some result => (session.respond look number ⟨some result, none⟩).2
          | none =>
            -- A contained Session never turns to a human.
            if setup.contained then (session.respond look number ⟨some cancelled, none⟩).2
            else session.enqueue setup look entry
  | _ => (session.respond look number (invalidParams "malformed ACP permission request")).2

/-! ### Answers -/

/-- Write one permission response and publish the next queued request. -/
def sendPermission (setup : Setup) (look : Look) (entry : PermissionEntry) (response : Response)
    (session : Permissions) : Bool × Permissions :=
  match session.respond look entry.number response with
  | (false, session) => (false, session)
  | (true, session) =>
    let session := session.markAnswered entry.number
    let active := session.permissionActive.filter (·.number != entry.number)
    (true, { session with permissionActive := active }.pump setup look true)

/-- Remember a choice, where there is one to remember. -/
def remembering (setup : Setup) (look : Look) (entry : PermissionEntry) (result : Option Value)
    (session : Permissions) : Option (Except String Rule × Store) :=
  match rememberedChoice setup.tostring entry.data result with
  | some (verdict, some lifetime) =>
    if Value.text? (entry.operation.field "kind") = some "unknown" then none
    else some (session.store.remember setup.sha256 look.paths (look.access entry.number)
      setup.context entry.operation (some (.str verdict.name)) (some (.str lifetime.name)))
  | _ => none

/-- Answer one published permission request, remembering a supported local scope first. The
answer is accepted or refused. -/
def respondPermission (setup : Setup) (look : Look) (entry : PermissionEntry)
    (result rpcError : Option Value) (session : Permissions) : Bool × Permissions :=
  if session.answered.contains entry.number then (false, session)
  else
    match session.remembering setup look entry result with
    | none => session.sendPermission setup look entry ⟨result, rpcError⟩
    | some (.error _, store) =>
      (false, ({ session with store }.sendPermission setup look entry ⟨some cancelled, none⟩).2)
    | some (.ok _, store) =>
      { session with store, remembered := session.remembered ++ [entry.number] }.sendPermission
        setup look entry ⟨result, rpcError⟩

/-- A listener answers a request that was delivered. -/
def answer (setup : Setup) (look : Look) (number : Nat) (result rpcError : Option Value)
    (session : Permissions) : Permissions :=
  match session.published.find? (·.number == number) with
  | none => session
  | some entry =>
    match session.respondPermission setup look entry result rpcError with
    | (true, session) => { session with accepted := session.accepted ++ [number] }
    | (false, session) => session

/-! ### Withdrawal -/

/-- The active request and the queue, in their order. -/
def outstanding (session : Permissions) : List PermissionEntry :=
  session.permissionActive.toList ++ session.permissionQueue

/-- Take all requests back. -/
def clear (session : Permissions) : Permissions :=
  { session with
    permissionActive := none
    permissionQueue := []
    withdrawn := session.withdrawn ++ session.outstanding.map (·.number) }

/-- Answer a request that is taken back, unless it was answered. -/
def cancelEntry (look : Look) (session : Permissions) (entry : PermissionEntry) : Permissions :=
  if session.answered.contains entry.number then session
  else ((session.markAnswered entry.number).respond look entry.number ⟨some cancelled, none⟩).2

/-- Answer every outstanding request with the cancelled outcome, and tell the listeners. -/
def cancelPermissions (look : Look) (session : Permissions) : Permissions :=
  let requestIds := (session.outstanding.filter fun entry =>
    !session.answered.contains entry.number).map (·.requestId)
  let session := session.outstanding.foldl (cancelEntry look) session.clear
  if requestIds.isEmpty then session
  else { session with retired := session.retired ++ [requestIds] }

/-- Fail, unless the Session has ended already. -/
def fail (session : Permissions) : Permissions :=
  if session.status.isDead then session
  else { session with frames := .failing :: session.frames }

/-- Close the transport. -/
def close (look : Look) (session : Permissions) : Permissions :=
  { session with closed := session.closed || look.closes }

/-- The turn is settled, and the Session fails. -/
def failing (look : Look) (session : Permissions) : Permissions :=
  if look.admitted && session.status == .disposed then session
  else if session.status = .error then session.clear.close look
  else { session with status := .error, ended := true, frames := .failed :: session.frames }

/-- Dispose of the Session. -/
def dispose (session : Permissions) : Permissions :=
  if session.status = .disposed then session
  else { session with frames := .disposing :: session.frames }

/-- The Session is disposed of, and its listeners were told. -/
def disposed (setup : Setup) (look : Look) (session : Permissions) : Permissions :=
  { session with store := (session.store.clearSession setup.id).2 }.clear.close look

/-- The turn is settled, and the Session is disposed of. -/
def disposing (setup : Setup) (look : Look) (session : Permissions) : Permissions :=
  if session.status = .disposed then session.disposed setup look
  else { session with status := .disposed, ended := true, frames := .disposed :: session.frames }

/-- Tell the Agent that its turn is cancelled, and take all requests back. -/
def cancelling (look : Look) (session : Permissions) : Permissions :=
  if look.notified && !session.closed then session.cancelPermissions look else session.fail

/-- Cancel the turn. Before a prompt is sent, cancelling only changes the status. -/
def cancel (look : Look) (unsent : Bool) (session : Permissions) : Permissions :=
  if unsent ||
      !([.prompting, .running, .waitingPermission, .cancelling].contains session.status) then
          session
  else if session.status = .cancelling then session.cancelling look
  else { session with status := .cancelling, frames := .cancelling :: session.frames }

end Permissions

/-! ### Runs -/

inductive PermissionEvent where
  | request (look : Look) (requestId : Value) (params : Option Value)
  | answer (look : Look) (number : Nat) (result rpcError : Option Value)
  | cancel (look : Look) (unsent : Bool)
  | fail
  | dispose
  /-- The listeners of the last event return. -/
  | resume (look : Look)
  /-- The Agent hangs up. -/
  | hangUp
  /-- The rest of the Session changes its status. -/
  | moved (status : Status)
  | identified (acpSessionId : String)
  /-- Rules are changed for another Session, or revoked. -/
  | ruled (store : Store)

namespace Permissions

/-- Go on with what is left to do. -/
def resume (setup : Setup) (look : Look) (session : Permissions) : Permissions :=
  match session.frames with
  | [] => session
  | frame :: frames =>
    let session := { session with frames }
    match frame with
    | .announce entry settles => session.announce setup look entry settles
    | .published settles => session.pump setup look settles
    | .cancelling => session.cancelling look
    | .failing => session.failing look
    | .failed => session.clear.close look
    | .disposing => session.disposing setup look
    | .disposed => session.disposed setup look

def step (setup : Setup) (session : Permissions) : PermissionEvent → Permissions
  | .request look requestId params => session.handleRequest setup look requestId params
  | .answer look number result rpcError => session.answer setup look number result rpcError
  | .cancel look unsent => session.cancel look unsent
  | .fail => session.fail
  | .dispose => session.dispose
  | .resume look => session.resume setup look
  | .hangUp => { session with closed := true }
  | .moved status => if status.isDead then session else { session with status }
  | .identified acpSessionId => { session with acpSessionId := some acpSessionId }
  | .ruled store => { session with store }

end Permissions

end Louiselm.Session
