import Mathlib.Data.Prod.Lex
import Mathlib.Data.String.Basic
import Louiselm.Base.Rows

/-!
# The views over indexed calls

`usage-cli/src/schema.sql` and the facts of `usage-cli/src/model.rs`: how the calls of all sources
become one row for every call. Tables have their rows in the order in which they were inserted, in
which SQLite also visits the rows of a group. Of a fact's document only what a view reads or sets
is taken apart; the requests and their view have no part in calls.
-/

namespace Louiselm.Usage
open Base.Rows

/-! ### Facts -/

/-- The formats of sources. -/
inductive Format where
  | codex
  | claude
  | opencode
  | copilot
  | gemini
  | acp
  | adapter
  | louiselm
deriving DecidableEq, Repr

def Format.name : Format → String
  | .codex => "codex"
  | .claude => "claude"
  | .opencode => "opencode"
  | .copilot => "copilot"
  | .gemini => "gemini"
  | .acp => "acp"
  | .adapter => "adapter"
  | .louiselm => "louiselm"

/-- A JSON value that is passed on from one document to another. -/
inductive Passed where
  | bool (value : Bool)
  | text (json : String)
deriving DecidableEq, Repr

/-- What is left of a value that was taken out of a document: a boolean is a number in SQL. -/
def Passed.extracted : Passed → Passed
  | .bool value => .text (if value then "1" else "0")
  | .text json => .text json

/-- A call as its document; `rest` are the fields that no view reads or sets. -/
structure Call where
  id : String
  sessionId : String
  nativeSessionId : String
  turnId : Option String
  rpcRequestId : Option String
  adapter : String
  agent : Option String
  provider : Option String
  model : Passed
  options : String
  mixedOptions : Bool
  optionsComplete : Bool
  commandKey : Option String
  outputFingerprint : Option String
  rest : List (String × String)
deriving DecidableEq, Repr

structure Session where
  id : String
  nativeId : String
  adapter : String
  louiselmOrigin : Bool
deriving DecidableEq, Repr

structure Turn where
  id : String
  nativeSessionId : String
  agent : String
  provider : String
  model : Passed
  options : String
  mixedOptions : Bool
  dispatched : Bool
  rpcRequestId : Option String
deriving DecidableEq, Repr

/-! ### Tables -/

structure SourceRow where
  id : String
  format : Format
  path : String
  digest : String
  state : String
deriving DecidableEq, Repr

/-- The tables of the index; a fact stands beside the source it is from. -/
structure Tables where
  sources : List SourceRow
  sessions : List (String × Session)
  calls : List (String × Call)
  turns : List (String × Turn)
deriving DecidableEq

/-! ### Views -/

/-- Of several turns with one identity, that of the first source. -/
def turnFacts (turns : List (String × Turn)) : List (String × Turn) :=
  chosen (fun item => item.2.id) (fun item => item.1) turns

structure Alias where
  nativeId : String
  id : String
  adapter : String
deriving DecidableEq, Repr

/-- The alias of a native Session whose Sessions from LouiseLM are one. -/
def aliasOf (nativeId : String) (sessions : List Session) : Option Alias :=
  if countDistinct (sessions.map fun session => some session.id) = 1 then do
    let id ← least (sessions.map (·.id))
    let adapter ← least (sessions.map (·.adapter))
    return ⟨nativeId, id, adapter⟩
  else none

def nativeAliases (sessions : List (String × Session)) : List Alias :=
  (groups (·.nativeId) ((sessions.map Prod.snd).filter (·.louiselmOrigin))).filterMap fun item =>
    aliasOf item.1 item.2

structure Observation where
  id : String
  sourceId : String
  call : Call
deriving DecidableEq, Repr

/-- A call of a proxy is one of the Session that it was made for. -/
def observe (sourceId : String) (call : Call) : Option Alias → Observation
  | none => ⟨call.id, sourceId, call⟩
  | some found =>
    let id := found.id ++ String.ofList (call.id.toList.drop call.sessionId.length)
    ⟨id, sourceId, { call with id, sessionId := found.id, adapter := found.adapter }⟩

/-- The native Session whose alias a call takes. -/
def Call.aliased (call : Call) : Option String :=
  if call.adapter = "acp" then some call.nativeSessionId else none

def callObservations (tables : Tables) : List Observation :=
  (leftJoin (fun item => item.2.aliased) (fun found => some found.nativeId) tables.calls
    (nativeAliases tables.sessions)).map fun item => observe item.1.1 item.1.2 item.2

structure Identity where
  id : String
  observationCount : Nat
  sourceIds : List String
  rpcRequestId : Option String
  conflict : Bool
deriving DecidableEq, Repr

/-- What the observations of one call amount to. -/
def identityOf (id : String) (observations : List Observation) : Identity where
  id
  observationCount := observations.length
  sourceIds := (observations.map (·.sourceId)).eraseDups
  rpcRequestId :=
    if countDistinct (observations.map (·.call.rpcRequestId)) = 1 then
      least (observations.filterMap (·.call.rpcRequestId))
    else none
  conflict :=
    decide (1 < countDistinct (observations.map (·.call.commandKey))) ||
      decide (1 < countDistinct (observations.map (·.call.outputFingerprint)))

def identities (observations : List Observation) : List Identity :=
  (groups (·.id) observations).map fun item => identityOf item.1 item.2

/-- Native observations are preferred to those of a proxy. -/
def rank (item : Observation × SourceRow) : ℕ ×ₗ String :=
  toLex (if item.2.format = .acp then 1 else 0, item.1.sourceId)

/-- The observation that stands for each call. -/
def ranked (tables : Tables) : List Observation :=
  (chosen (fun item => item.1.id) rank
    (join (fun observation => some observation.sourceId) (fun source => some source.id)
      (callObservations tables) tables.sources)).map Prod.fst

def baseCalls (tables : Tables) : List (Observation × Identity) :=
  join (fun observation => some observation.id) (fun identity => some identity.id) (ranked tables)
    (identities (callObservations tables))

structure Durable where
  nativeSession : String
  rpc : String
  turn : Turn
deriving DecidableEq, Repr

/-- The turn of a request, where it is the only one. -/
def durableOf : (String × Option String) × List Turn → Option Durable
  | ((nativeSession, some rpc), [turn]) => some ⟨nativeSession, rpc, turn⟩
  | _ => none

def durable (turns : List (String × Turn)) : List Durable :=
  (groups (fun turn => (turn.nativeSessionId, turn.rpcRequestId))
    (((turnFacts turns).map Prod.snd).filter (·.dispatched))).filterMap durableOf

def nativeSessions (sessions : List (String × Session)) : List String :=
  (((sessions.map Prod.snd).filter fun session =>
    session.adapter != "acp" && session.adapter != "louiselm").map (·.nativeId)).eraseDups

/-- A row of a call; `nativeTurnId` is there where the call was given a turn. -/
structure DerivedCall where
  id : String
  sourceId : String
  call : Call
  nativeTurnId : Option (Option String)
  sourceIds : List String
  observationCount : Nat
  conflictingObservations : Bool
  overlap : String
deriving DecidableEq, Repr

/-- What a durable turn says of its calls. -/
def Call.inTurn (call : Call) (turn : Turn) : Call :=
  { call with
    turnId := some turn.id
    agent := some turn.agent
    provider := some turn.provider
    model := turn.model.extracted
    options := turn.options
    mixedOptions := turn.mixedOptions
    optionsComplete := true }

def derive (item : ((Observation × Identity) × Option Durable) × Option String) : DerivedCall :=
  let call := item.1.1.1.call
  { id := item.1.1.1.id
    sourceId := item.1.1.1.sourceId
    call := (item.1.2.map fun found => call.inTurn found.turn).getD call
    nativeTurnId := item.1.2.map fun _ => call.turnId
    sourceIds := item.1.1.2.sourceIds
    observationCount := item.1.1.2.observationCount
    conflictingObservations := item.1.1.2.conflict
    overlap := if call.adapter = "acp" ∧ item.2.isSome then "possible_mirror" else "none_detected" }

/-- The request that a call was made in. -/
def requestKey (item : Observation × Identity) : Option (String × String) :=
  item.2.rpcRequestId.map fun rpc => (item.1.call.nativeSessionId, rpc)

def derivedCalls (tables : Tables) : List DerivedCall :=
  (leftJoin (fun item => some item.1.1.call.nativeSessionId) some
    (leftJoin requestKey (fun found => some (found.nativeSession, found.rpc)) (baseCalls tables)
      (durable tables.turns)) (nativeSessions tables.sessions)).map derive

end Louiselm.Usage
