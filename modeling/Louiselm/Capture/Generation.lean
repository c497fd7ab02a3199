import Mathlib.Data.List.DropRight
import Louiselm.Base.Json
import Louiselm.Base.Text
import Louiselm.Capture.Runs

/-!
# Brokered generation of Beads issues

`capture-service/src/generation.rs`: a Run-owned Agent asks for one issue. The broker first
reconciles what earlier requests left pending, reserves a unit of the Run's budget, adds its own
options to the supplied ones and executes `br`. What the execution answers is a parameter, as is
the JSON reader; the execution does not touch the Run store.
-/

namespace Louiselm.Capture
open Base Canonical

/-! ### Requests -/

/-- One brokered Beads command from a Run-owned Agent. -/
structure GenerateRequest where
  runId : String
  token : String
  mutationId : String
  command : String
  arguments : List String
deriving DecidableEq, Repr

/-- A captured subprocess result. -/
structure CommandOutput where
  success : Bool
  stdout : String
  stderr : String
deriving DecidableEq, Repr

/-- A confirmed issue with the original output, which is empty for a confirmed retry. -/
structure GeneratedIssue where
  id : String
  stdout : String
deriving DecidableEq, Repr

/-- Why no issue was generated. -/
inductive GenerationError where
  | run (error : RunStoreError)
  | invalid (reason : String)
  | exhausted
  | pending
  | start (error : String)
  | ambiguous (reason : String)
deriving DecidableEq, Repr

/-- What executing `br` with some arguments answers; an error did not start it. -/
abbrev Execute := List String → Except String CommandOutput

/-- The reference by which a mutation of a Run is found again. -/
def mutationExternalRef (runId mutationId : String) : String :=
  "louiselm-run/" ++ runId ++ "/mutation/" ++ mutationId

def validateRequest (uuid : String → Option String) (request : GenerateRequest) :
    Except GenerationError Unit := do
  require (uuid request.runId).isSome (.invalid "Run id must be a UUID")
  require (uuid request.mutationId).isSome (.invalid "mutation id must be a UUID")
  require (request.command == "create" || request.command == "q")
    (.invalid "only br create and br q generate work")

/-- A trimmed message, or that there is none. -/
def nonempty (message : String) : String :=
  let trimmed := String.ofList
    ((message.toList.dropWhile Text.isWhitespace).rdropWhile Text.isWhitespace)
  if trimmed = "" then "unknown br failure" else trimmed

/-! ### Arguments -/

/-- The flags that the broker does not let an Agent set. -/
def forbiddenFlags : List String :=
  ["--actor", "--external-ref", "--db", "--no-db", "--no-auto-flush", "--no-auto-import",
    "--dry-run", "--silent"]

/-- A forbidden flag, alone or with a value behind `=`. -/
def isControlFlag (argument : String) : Bool :=
  forbiddenFlags.any fun forbidden =>
    argument == forbidden || (forbidden ++ "=").toList.isPrefixOf argument.toList

def rejectControlFlags (arguments : List String) : Except GenerationError Unit :=
  match arguments.find? isControlFlag with
  | some flag => .error (.invalid ("broker owns control flag '" ++ flag ++ "'"))
  | none => .ok ()

/-- The options of `br q` that are followed by a value. -/
def takesValue (value : String) : Bool :=
  ["-p", "--priority", "-t", "--type", "-l", "--labels", "-d", "--description", "--body",
    "--parent", "-e", "--estimate"].contains value

/-- The options with their values, and the words of the title, after those that were seen. -/
def quickLoop : (output title arguments : List String) →
    Except GenerationError (List String × List String)
  | output, title, [] => .ok (output, title)
  | output, title, value :: rest =>
    if value = "--json" then quickLoop output title rest
    else if takesValue value then
      match rest with
      | [] => .error (.invalid ("quick-capture option '" ++ value ++ "' has no value"))
      | next :: rest => quickLoop (output ++ [value, next]) title rest
    else if value.toList.head? = some '-' then
      .error (.invalid ("unsupported br q option '" ++ value ++ "'"))
    else quickLoop output (title ++ [value]) rest

/-- The arguments of `br create` that stand for those of `br q`. -/
def quickToCreate (arguments : List String) : Except GenerationError (List String) := do
  rejectControlFlags arguments
  let (output, title) ← quickLoop ["create"] [] arguments
  require (!title.isEmpty) (.invalid "br q requires a title")
  return output ++ ["--title", " ".intercalate title]

/-- The part of the command line that the Agent supplies. -/
def suppliedArguments (command : String) (supplied : List String) :
    Except GenerationError (List String) :=
  if command = "q" then quickToCreate supplied
  else do
    rejectControlFlags supplied
    return "create" :: supplied.filter (· != "--json")

/-- The part of the command line that the broker adds. -/
def brokerArguments (actor externalRef database : String) : List String :=
  ["--actor", actor, "--external-ref", externalRef, "--db", database, "--json"]

def generationArguments (command : String) (supplied : List String)
    (actor externalRef database : String) : Except GenerationError (List String) := do
  let arguments ← suppliedArguments command supplied
  return arguments ++ brokerArguments actor externalRef database

/-! ### Answers of `br` -/

def jsonText : Json → Option String
  | .str text => some text
  | _ => none

/-- A string member of an object. -/
def textMember (key : String) (value : Json) : Option String := (value.get key).bind jsonText

section

variable (uuid : String → Option String) (sha256 : Sha256) (fmt : JsonFormat) (database : String)

/-- The non-empty identifier that a successful creation prints. -/
def parseIssueId (output : String) : Option String :=
  ((fmt.read output).bind (textMember "id")).filter (· != "")

/-- The listed issues. -/
def parseIssues (output : String) : Option (List Json) :=
  match fmt.read output with
  | some (.arr issues) => some issues
  | _ => none

/-- The first listed issue that carries a reference and an identifier. -/
def issueOf (expected : String) (issues : List Json) : Option String :=
  issues.findSome? fun issue =>
    if textMember "external_ref" issue = some expected then textMember "id" issue else none

/-! ### The Run store -/

/-- The actor to whom the work of a Run is attributed. -/
def generationActor (runId token : String) : Action String := do
  let run ← loadRun uuid runId
  Program.ofExcept (verifyToken sha256 run token)
  match run.sessionId with
  | none => Program.fail (.invalid "Run has no attached Session")
  | some sessionId => return sessionId

/-- The mutations of a Run that are pending. -/
def pendingGenerationIds (runId token : String) : Action (List String) := do
  let run ← loadRun uuid runId
  Program.ofExcept (verifyToken sha256 run token)
  return run.generatedWork.pending.map (·.mutationId)

/-! ### Generation -/

/-- A step of the broker. -/
abbrev Brokering (α : Type) := Program RunStore GenerationError α

/-- Confirm the pending mutations whose issue is listed. -/
def confirmListed (runId token : String) (issues : List Json) : List String → Brokering Unit
  | [] => return ()
  | mutationId :: pending =>
    match issueOf (mutationExternalRef runId mutationId) issues with
    | none => confirmListed runId token issues pending
    | some id => do
      (confirmGeneratedWork uuid sha256 runId token mutationId id).mapError .run
      confirmListed runId token issues pending

def reconcileWith (runId token : String) (execute : Execute) : Brokering Unit := do
  let pending ← (pendingGenerationIds uuid sha256 runId token).mapError .run
  if pending = [] then return ()
  else
    match execute ["list", "--status", "all", "--db", database, "--json"] with
    | .error error => Program.fail (.start error)
    | .ok output =>
      if !output.success then Program.fail (.ambiguous (nonempty output.stderr))
      else
        match parseIssues fmt output.stdout with
        | none => Program.fail (.ambiguous "br list returned malformed data")
        | some issues => confirmListed uuid sha256 runId token issues pending

/-- The reservation of a request. -/
def GenerateRequest.reservation (request : GenerateRequest) : GeneratedWorkReservation where
  runId := request.runId
  token := request.token
  mutationId := request.mutationId
  kind := "beads_issue"
  units := 1

/-- The execution behind a reservation, and what becomes of the reservation. -/
def executeReserved (request : GenerateRequest) (actor : String) (execute : Execute) :
    Brokering GeneratedIssue := do
  let externalRef := mutationExternalRef request.runId request.mutationId
  let arguments ← Program.ofExcept
    (generationArguments request.command request.arguments actor externalRef database)
  match execute arguments with
  | .error error => do
    (releaseGeneratedWork uuid sha256 request.runId request.token request.mutationId).mapError .run
    Program.fail (.start error)
  | .ok output =>
    if !output.success then Program.fail (.ambiguous (nonempty output.stderr))
    else
      match parseIssueId fmt output.stdout with
      | none => Program.fail (.ambiguous "br returned malformed success data")
      | some id => do
        (confirmGeneratedWork uuid sha256 request.runId request.token request.mutationId
          id).mapError .run
        return ⟨id, output.stdout⟩

/-- The answer to a request whose mutation was confirmed before. -/
def confirmedIssue (request : GenerateRequest) : Brokering GeneratedIssue := do
  let run ← (loadRun uuid request.runId).mapError .run
  match run.generatedIssue request.mutationId with
  | none => Program.fail (.invalid "confirmed issue is absent")
  | some id => return ⟨id, ""⟩

/-- Reconcile, reserve, execute and confirm. -/
def generateWith (request : GenerateRequest) (nowMs : UInt64) (execute : Execute) :
    Brokering GeneratedIssue := do
  Program.ofExcept (validateRequest uuid request)
  reconcileWith uuid sha256 fmt database request.runId request.token execute
  let actor ← (generationActor uuid sha256 request.runId request.token).mapError .run
  let reserved ← (reserveGeneratedWork uuid sha256 request.reservation nowMs).mapError .run
  match reserved with
  | .exhausted => Program.fail .exhausted
  | .pending => Program.fail .pending
  | .consumed => confirmedIssue uuid request
  | .reserved => executeReserved uuid sha256 fmt database request actor execute

end
end Louiselm.Capture
