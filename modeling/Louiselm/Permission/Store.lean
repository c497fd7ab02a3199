import Mathlib.Data.List.Sort
import Louiselm.Permission.Gates

/-!
# Remembered permissions

`lua/louiselm/permission/store.lua`: the rules that remember what a human chose, for a Session
in memory and for all of them in a file. The hash of an identifier and what the file system says
of paths are parameters, the latter as it is at a call. The file holds the decoded rules; how an
access to it goes is a parameter of the call, and a write that fails leaves it as it was.
-/

namespace Louiselm.Permission
open Base.Lua Value

/-! ### Rules -/

/-- What a human can have remembered. -/
inductive Verdict where
  | allow
  | deny
deriving DecidableEq, Repr

def Verdict.name : Verdict → String
  | .allow => "allow"
  | .deny => "deny"

def Verdict.decision : Verdict → Decision
  | .allow => .allow
  | .deny => .deny

inductive Lifetime where
  | session
  | always
deriving DecidableEq, Repr

def Lifetime.name : Lifetime → String
  | .session => "session"
  | .always => "always"

inductive Kind where
  | fileEdit
  | command
deriving DecidableEq, Repr

def Kind.name : Kind → String
  | .fileEdit => "file_edit"
  | .command => "command"

structure Adapter where
  command : String
  args : List String
deriving DecidableEq, Repr

/-- A context that was normalized. -/
structure Context where
  sessionId : String
  agent : String
  adapter : Adapter
  workspace : String
deriving DecidableEq, Repr

structure Rule where
  id : String
  verdict : Verdict
  lifetime : Lifetime
  sessionId : Option String
  agent : String
  adapter : Adapter
  workspace : String
  kind : Kind
  path : Option String
  command : Option (List String)
deriving DecidableEq, Repr

/-- What the file system says of paths. -/
structure Paths where
  normalize : String → String
  abspath : String → String
  joinpath : String → String → String
  realpath : String → Option String

namespace Paths

variable (paths : Paths)

def canonicalPath (value : String) : String :=
  let normalized := paths.normalize value
  let absolute := if paths.abspath normalized ≠ normalized then paths.abspath normalized
    else normalized
  paths.normalize ((paths.realpath absolute).getD absolute)

/-- The path of an operation, which may be relative to the workspace. -/
def operationPath (value workspace : String) : String :=
  let normalized := paths.normalize value
  let joined := if paths.abspath normalized ≠ normalized then paths.joinpath workspace normalized
    else normalized
  paths.canonicalPath joined

end Paths

/-- A text that is there and not empty. -/
def filled (value : Option Value) : Option String := (text? value).filter (· != "")

def normalizeContext (paths : Paths) (context : Value) : Except String Context :=
  if !isTable (some context) then .error "permission context must be a table"
  else
    match filled (context.field "session_id") with
    | none => .error "permission context session_id must be a non-empty string"
    | some sessionId =>
      match filled (context.field "agent") with
      | none => .error "permission context agent must be a non-empty string"
      | some agent =>
        match filled (context.field "workspace") with
        | none => .error "permission context workspace must be a non-empty string"
        | some workspace =>
          let adapter := (context.field "adapter").bind fun adapter =>
            (filled (adapter.field "command")).bind fun command =>
              (denseStrings true (adapter.field "args")).map fun args => Adapter.mk command args
          match adapter with
          | none => .error "permission context adapter must contain a command and dense args"
          | some adapter => .ok ⟨sessionId, agent, adapter, paths.canonicalPath workspace⟩

def identityPart (value : String) : String := toString value.utf8ByteSize ++ ":" ++ value

section

variable (sha256 : String → String)

/-- The identifier that a rule has by its scope. -/
def ruleId (rule : Rule) : String :=
  let parts := [rule.lifetime.name] ++ rule.sessionId.toList ++
    [rule.agent, rule.adapter.command] ++ rule.adapter.args ++ [rule.workspace, rule.kind.name] ++
    (match rule.path with
      | some path => [path]
      | none => rule.command.getD [])
  "rule-" ++ sha256 (String.intercalate "|" (parts.map identityPart))

/-- What a rule of the file has to be. -/
def isPersistent (rule : Rule) : Bool :=
  rule.lifetime == .always && rule.sessionId.isNone && rule.agent != "" && rule.workspace != "" &&
    rule.adapter.command != "" && (match rule.kind with
      | .fileEdit => rule.path.any (· != "") && rule.command.isNone
      | .command => rule.path.isNone && rule.command.any fun command => command.all (· != "")) &&
    rule.id == ruleId sha256 rule

/-! ### Scopes -/

/-- Whether a rule covers a request in a context. -/
def covers (paths : Paths) (rule : Rule) (context : Context) (request : Value) : Bool :=
  rule.agent == context.agent && rule.workspace == context.workspace &&
    rule.adapter == context.adapter && rule.sessionId.all (· == context.sessionId) &&
    text? (request.field "kind") == some rule.kind.name &&
    match rule.kind with
    | .fileEdit => (text? (request.field "path")).any fun path =>
        some (paths.operationPath path context.workspace) == rule.path
    | .command => (denseStrings false (request.field "command")).any fun command =>
        (rule.command.getD []).isPrefixOf command

/-- The rule by which a choice is remembered. -/
def makeRule (paths : Paths) (context : Context) (request : Value) (verdict : Verdict)
    (lifetime : Lifetime) : Except String Rule :=
  let rule (kind : Kind) (path : Option String) (command : Option (List String)) : Rule :=
    ⟨"", verdict, lifetime, if lifetime = .session then some context.sessionId else none,
      context.agent, context.adapter, context.workspace, kind, path, command⟩
  let made :=
    if text? (request.field "kind") = some "file_edit" then
      (filled (request.field "path")).map fun path =>
        rule .fileEdit (some (paths.operationPath path context.workspace)) none
    else if text? (request.field "kind") = some "command" then
      (denseStrings false (request.field "command")).map fun command =>
        rule .command none (some command)
    else none
  match made with
  | none => .error "only valid file_edit and command requests can be remembered"
  | some made => .ok { made with id := ruleId sha256 made }

/-! ### The store -/

/-- The rules of Sessions under their identifiers, and the rules of the file. -/
structure Store where
  sessionRules : List (String × Rule)
  file : List Rule
deriving DecidableEq, Repr

/-- How an access to the file goes. -/
structure Access where
  readError : Option String
  writeError : Option String
deriving DecidableEq, Repr

/-- Read the rules of the file, all of which have to be right. -/
def readRules (access : Access) (store : Store) : Except String (List Rule) :=
  match access.readError with
  | some message => .error message
  | none =>
    if store.file.all (isPersistent sha256) then .ok store.file
    else .error "permission state has invalid schema"

/-- Write rules in the order of their identifiers. -/
def writeRules (access : Access) (store : Store) (rules : List Rule) : Except String Store :=
  match access.writeError with
  | some message => .error message
  | none => .ok { store with file := rules.insertionSort fun left right => left.id ≤ right.id }

namespace Store

/-- A store for which nothing was remembered yet. -/
def new : Store := ⟨[], []⟩

/-- Evaluate remembered rules without broadening their adapter or workspace scope. The rules of
Sessions are visited in the order in which their table is iterated over. -/
def evaluate (paths : Paths) (access : Access) (visited : List Rule) (store : Store)
    (context request : Value) : Except String Decision :=
  match normalizeContext paths context with
  | .error message => .error message
  | .ok normalized =>
    match visited.find? fun rule => covers paths rule normalized request with
    | some rule => .ok rule.verdict.decision
    | none =>
      match readRules sha256 access store with
      | .error message => .error message
      | .ok rules =>
        match rules.find? fun rule => covers paths rule normalized request with
        | some rule => .ok rule.verdict.decision
        | none => .ok .ask

/-- Put a rule among others, in the place of the first that has its identifier. -/
def replace (rule : Rule) : List Rule → List Rule
  | [] => [rule]
  | existing :: rules =>
    if existing.id = rule.id then rule :: rules else existing :: replace rule rules

def verdictOf (decision : Option Value) : Option Verdict :=
  [.allow, .deny].find? fun verdict => text? decision == some verdict.name

def lifetimeOf (lifetime : Option Value) : Option Lifetime :=
  [.session, .always].find? fun known => text? lifetime == some known.name

/-- Remember an exact operation scope for this Session or future Sessions. -/
def remember (paths : Paths) (access : Access) (store : Store) (context request : Value)
    (decision lifetime : Option Value) : Except String Rule × Store :=
  match verdictOf decision with
  | none => (.error "remembered permission decision must be allow or deny", store)
  | some verdict =>
    match lifetimeOf lifetime with
    | none => (.error "remembered permission lifetime must be session or always", store)
    | some lifetime =>
      match normalizeContext paths context with
      | .error message => (.error message, store)
      | .ok normalized =>
        match makeRule sha256 paths normalized request verdict lifetime with
        | .error message => (.error message, store)
        | .ok rule =>
          match lifetime with
          | .session => (.ok rule, { store with
              sessionRules := store.sessionRules.filter (·.1 != rule.id) ++ [(rule.id, rule)] })
          | .always =>
            match readRules sha256 access store with
            | .error message => (.error message, store)
            | .ok rules =>
              match writeRules access store (replace rule rules) with
              | .error message => (.error message, store)
              | .ok written => (.ok rule, written)

/-- Revoke one rule by its identifier. -/
def revoke (access : Access) (store : Store) (id : Option Value) : Except String Bool × Store :=
  match filled id with
  | none => (.error "permission rule id must be a non-empty string", store)
  | some id =>
    if (store.sessionRules.lookup id).isSome then
      (.ok true, { store with sessionRules := store.sessionRules.filter (·.1 != id) })
    else
      match readRules sha256 access store with
      | .error message => (.error message, store)
      | .ok rules =>
        if rules.all (·.id != id) then (.ok false, store)
        else
          match writeRules access store (rules.filter (·.id != id)) with
          | .error message => (.error message, store)
          | .ok written => (.ok true, written)

/-- Forget all rules of a disposed Session. -/
def clearSession (store : Store) (sessionId : Option Value) : Bool × Store :=
  match filled sessionId with
  | none => (false, store)
  | some sessionId => (true, { store with
      sessionRules := store.sessionRules.filter (·.2.sessionId != some sessionId) })

end Store
end
end Louiselm.Permission
