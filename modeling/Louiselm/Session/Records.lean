import Mathlib.Data.List.Sort
import Louiselm.Base.Lua

/-!
# Recorded facts

`lua/louiselm/session/recording.lua`: the checks a record passes before it is queued, the row it
becomes, and the routing preferences beside them. The encoding of JSON scalars, the number a
printed sequence is read back as, and the check of a routing selection are parameters.
-/

namespace Louiselm.Session
open Base.Lua Value

inductive RecordingErrorCode where
  | invalid
  | unavailable
  | permissions
  | locked
  | corrupt
  | conflict
  | storage
deriving DecidableEq, Repr

/-- The sanitized text of an error. -/
def RecordingErrorCode.message : RecordingErrorCode → String
  | .invalid => "invalid turn recording metadata"
  | .unavailable => "turn recording requires sqlite3 >= 3.38 with JSON support on PATH"
  | .permissions =>
    "turn recording needs an owned private directory (0700) and regular database (0600)"
  | .locked => "turn recording database is locked; retry after the writer finishes"
  | .corrupt => "turn recording database is corrupt or has an unsupported schema"
  | .conflict => "turn recording conflicts with an existing immutable fact"
  | .storage => "turn recording failed; check storage access and free space, then retry"

/-- What records are encoded and checked with: JSON of a value that is no table, the number that
SQLite reads where a number was printed, the null of JSON, and valid routing selections. -/
structure Codec where
  encode : Value → Option String
  literal : Number → Number
  isNull : Value → Bool
  validSelection : Option Value → Bool

/-! ### Encoding -/

section

variable (encode : Value → Option String)

/-- The encoded fields of a table: an array without gaps, or an object with sorted names. -/
def assemble (fields : List (Key × Value)) (texts : List (Key × String)) : Option String :=
  if !fields.isEmpty && (table fields).isArray then
    let items := (List.range fields.length).filterMap fun i =>
      texts.lookup (.num (.ofNat (i + 1)))
    some ("[" ++ ",".intercalate items ++ "]")
  else do
    let named ← texts.mapM fun item =>
      match item.1 with
      | .str name => some (name, item.2)
      | _ => none
    let sorted := named.insertionSort fun a b => a.1 ≤ b.1
    let members ← sorted.mapM fun item => (encode (.str item.1)).map (· ++ ":" ++ item.2)
    return "\x7b" ++ ",".intercalate members ++ "\x7d"

mutual

/-- The JSON text of a value, with the names of objects sorted. -/
def json : Value → Option String
  | .table fields => (jsonFields fields).bind (assemble encode fields)
  | .bool value => encode (.bool value)
  | .num number => encode (.num number)
  | .str text => encode (.str text)
  | .other type => encode (.other type)

def jsonFields : List (Key × Value) → Option (List (Key × String))
  | [] => some []
  | item :: rest => do
    let text ← jsonField item
    let texts ← jsonFields rest
    return (item.1, text) :: texts

def jsonField : Key × Value → Option String
  | (_, value) => json value

end

end

/-- A table of named values, those that are there. -/
def object (fields : List (String × Option Value)) : Value :=
  .table (fields.filterMap fun item => item.2.map fun value => (Key.str item.1, value))

/-! ### Checks -/

def nonempty (value : Option Value) : Bool := ((text? value).getD "") != ""

/-- A number from zero on, and not infinite. -/
def finite (value : Option Value) : Bool :=
  match number? value with
  | some (.finite q) => decide (0 ≤ q)
  | _ => false

/-- A whole number from zero on. -/
def isWholeCount (value : Option Value) : Bool :=
  finite value && (number? value).any Number.isWhole

/-- A whole number from one on. -/
def isOrdinal (value : Option Value) : Bool :=
  isWholeCount value && (number? value).any (Number.ofNat 1).le

def isText (value : Option Value) : Bool := (text? value).isSome

def isTextOrBoolean (value : Option Value) : Bool :=
  match value with
  | some (.str _) | some (.bool _) => true
  | _ => false

/-- The fields of a table. -/
def fieldsOf (value : Option Value) : List (Key × Value) :=
  match value with
  | some (.table fields) => fields
  | _ => []

def tupleValid (value : Option Value) : Bool :=
  isTable value && (fieldsOf value).all fun item =>
    match item.1 with
    | .str name => name != "" && isTextOrBoolean (some item.2)
    | _ => false

/-- Three capital letters. -/
def isCurrency (text : String) : Bool :=
  text.toList.length == 3 && text.toList.all fun c => 'A' ≤ c && c ≤ 'Z'

def costValid (codec : Codec) (value : Option Value) : Bool :=
  value.isNone || value.any codec.isNull ||
    (isTable value && finite (value.bind (·.field "amount")) &&
      (text? (value.bind (·.field "currency"))).any isCurrency && (fieldsOf value).length == 2)

def tokenFields : List String :=
  ["total_tokens", "input_tokens", "output_tokens", "thought_tokens", "cached_read_tokens",
    "cached_write_tokens"]

/-- Whether a value is one of some texts. -/
def isOneOf (texts : List String) (value : Option Value) : Bool :=
  (text? value).any texts.contains

/-- Whether a table has none but some names. -/
def only (names : List String) (value : Option Value) : Bool :=
  isTable value && (fieldsOf value).all fun item =>
    match item.1 with
    | .str name => names.contains name
    | _ => false

/-- `valid_recovery` of `lua/louiselm/routing/routing.lua`. -/
def validRecovery (value : Option Value) : Bool :=
  only ["turn_id", "reason"] value && nonempty (value.bind (·.field "turn_id")) &&
    isOneOf ["not_sent", "turn_failed", "delivery_unknown"] (value.bind (·.field "reason"))

/-- Whether two values are the same text or boolean, or both are nothing. -/
def sameScalar (left right : Option Value) : Bool :=
  match left, right with
  | none, none => true
  | some (.str a), some (.str b) => a == b
  | some (.bool a), some (.bool b) => a == b
  | _, _ => false

/-! ### Rows -/

inductive Table where
  | turns
  | turnEvents
  | optionEvents
  | admissionEvents
deriving DecidableEq, Repr

inductive Cell where
  | null
  | text (text : String)
  | integer (number : Number)
deriving DecidableEq, Repr

/-- One fragment of a transaction: nothing, a fact with its row, or a preference. -/
inductive Statement where
  | nothing
  | fact (table : Table) (row : List Cell)
  | preference (agent acpSessionId preference : String)
deriving DecidableEq, Repr

/-- A text, where there is one. -/
def textCell (value : Option Value) : Cell := ((text? value).map Cell.text).getD .null

/-- The JSON of a value, where there is one. -/
def jsonCell (codec : Codec) (value : Option Value) : Option Cell :=
  match value with
  | none => some .null
  | some value => (json codec.encode value).map Cell.text

def numberCell (codec : Codec) (value : Option Value) : Cell :=
  ((number? value).map fun number => Cell.integer (codec.literal number)).getD .null

section

variable (codec : Codec) (record : Value)

/-- The data of an admission decision. -/
def decisionData (data : Value) : Option Value :=
  let pair := data.field "requested"
  let model := pair.bind (·.field "model")
  let effort := pair.bind (·.field "effort")
  let selection := data.field "selection"
  let requested := selection.bind (·.field "requested")
  let origin := text? (data.field "origin")
  let reason := text? (data.field "reason")
  let parent := data.field "parent_turn_id"
  if isOneOf ["auto", "helper", "manual"] (data.field "origin") && isTable pair &&
      (model.isNone || isTextOrBoolean model) && (effort.isNone || isTextOrBoolean effort) &&
      (origin != some "auto" ||
        (nonempty model && (reason == some "baseline" || reason == some "qualified"))) &&
      (reason != some "qualified" || selection.isSome) &&
      (selection.isNone || (origin == some "auto" && codec.validSelection selection &&
        sameScalar (selection.bind (·.field "reason")) (data.field "reason") &&
        sameScalar (requested.bind (·.field "model")) model &&
        sameScalar (requested.bind (·.field "effort")) effort)) &&
      (origin != some "helper" || (reason == some "parent_correlation" && nonempty parent)) &&
      (origin != some "manual" || (reason == some "current_pair" && parent.isNone)) &&
      (parent.isNone || nonempty parent) &&
      ((data.field "recovery").isNone || validRecovery (data.field "recovery")) then
    some (object [("origin", data.field "origin"), ("reason", data.field "reason"),
      ("requested", pair), ("parent_turn_id", parent), ("selection", selection),
      ("recovery", data.field "recovery")])
  else none

def settlementReasons : List String :=
  ["admission_rejected", "attribution_changed", "baseline_unavailable", "cancelled",
    "configuration_mismatch", "configuration_unknown", "delivery_unknown", "disposed",
    "recording_failed", "selection_changed"]

/-- The data of an admission settlement. -/
def settlementData (data : Value) : Option Value :=
  let requestsValid := isTable (data.field "requests") &&
    (fieldsOf (data.field "requests")).all fun item =>
      match item.1 with
      | .str name => name != "" && (nonempty (some item.2) || isWholeCount (some item.2))
      | _ => false
  if isOneOf ["dispatched", "not_sent", "cancelled", "uncertain"] (data.field "result") &&
      isTable (data.field "confirmed") && tupleValid (data.field "options") &&
      requestsValid && isWholeCount (data.field "elapsed_ms") &&
      ((data.field "reason").isNone || isOneOf settlementReasons (data.field "reason")) then
    some (object (["result", "confirmed", "options", "requests", "reason", "elapsed_ms"].map
      fun name => (name, data.field name)))
  else none

/-- An admission event. -/
def admissionRow : Option Statement := do
  let given := record.field
  guard (nonempty (given "turn_id") && nonempty (given "agent") &&
    nonempty (given "acp_session_id") && nonempty (given "observed_at") &&
    isOneOf ["decision", "settlement"] (given "phase") && isTable (given "data"))
  let data ← given "data"
  let data ← if text? (given "phase") = some "decision" then decisionData codec data
    else settlementData data
  let text ← jsonCell codec (some data)
  return .fact .admissionEvents
    ((["turn_id", "phase", "agent", "acp_session_id", "observed_at"].map fun name =>
      textCell (given name)) ++ [text])

/-- The request of an option transition, nothing for a notification. -/
def optionRequest : Option (Option Value) :=
  let request := record.field "request"
  if text? (record.field "source") = some "response" then
    let given (name : String) := request.bind (·.field name)
    if isTable request && nonempty (given "option") && isTextOrBoolean (given "value") &&
        (nonempty (given "id") || isWholeCount (given "id")) then
      some (some (object (["id", "option", "value"].map fun name => (name, given name))))
    else none
  else if text? (record.field "source") = some "notification" ∧ request.isNone then some none
  else none

/-- An option transition. -/
def optionRow : Option Statement := do
  let given := record.field
  guard (nonempty (given "id") && nonempty (given "observer_id") && isOrdinal (given "sequence") &&
    nonempty (given "agent") && nonempty (given "acp_session_id") &&
    nonempty (given "observed_at") && tupleValid (given "previous_options") &&
    tupleValid (given "options") && ((given "turn_id").isNone || nonempty (given "turn_id")))
  let request ← optionRequest record
  let previous ← jsonCell codec (given "previous_options")
  let options ← jsonCell codec (given "options")
  let request ← jsonCell codec request
  return .fact .optionEvents
    [textCell (given "id"), textCell (given "observer_id"), numberCell codec (given "sequence"),
      textCell (given "agent"), textCell (given "acp_session_id"), textCell (given "observed_at"),
      previous, options, textCell (given "source"), request, textCell (given "turn_id")]

/-- A prepared turn. -/
def turnRow : Option Statement := do
  let given := record.field
  guard (nonempty (given "id") && nonempty (given "agent") && nonempty (given "provider") &&
    nonempty (given "acp_session_id") && nonempty (given "prepared_at") &&
    tupleValid (given "options") && costValid codec (given "cost_baseline") &&
    ((given "model").isNone || isTextOrBoolean (given "model")))
  let options ← jsonCell codec (given "options")
  let model ← jsonCell codec (given "model")
  let cost ← jsonCell codec (given "cost_baseline")
  return .fact .turns ((["id", "agent", "provider", "acp_session_id", "prepared_at"].map fun name =>
      textCell (given name)) ++ [options, model, cost])

/-- The data of a turn observation of one kind. -/
def eventData (kind : Option String) (data : Value) : Option Value :=
  match kind with
  | some "dispatch" =>
    if (isText (data.field "request_id") || (number? (data.field "request_id")).isSome) &&
        ((data.field "transcript_turn").isNone || isOrdinal (data.field "transcript_turn")) then
      some (object [("request_id", data.field "request_id"),
        ("transcript_turn", data.field "transcript_turn")])
    else none
  | some "cost" =>
    if (data.field "cost").isSome && costValid codec (data.field "cost") then
      some (object [("cost", data.field "cost")])
    else none
  | some "cancel_requested" => some (object [])
  | some "outcome" =>
    let usage := data.field "usage"
    let usageValid := usage.isNone || (isTable usage && (fieldsOf usage).all fun item =>
      match item.1 with
      | .str name => tokenFields.contains name && isWholeCount (some item.2)
      | _ => false)
    if isOneOf ["completed", "cancelled", "failed", "disposed", "not_sent"]
        (data.field "outcome") &&
        typeName (data.field "peer_response") == "boolean" && usageValid then
      some (object (["outcome", "peer_response", "usage"].map fun name => (name, data.field name)))
    else none
  | _ => none

/-- A turn observation. -/
def eventRow : Option Statement := do
  let given := record.field
  guard (nonempty (given "turn_id") && isOrdinal (given "sequence") &&
    nonempty (given "observed_at") && isTable (given "data"))
  let data ← given "data"
  let data ← eventData codec (text? (given "kind")) data
  let text ← jsonCell codec (some data)
  return .fact .turnEvents
    [textCell (given "turn_id"), numberCell codec (given "sequence"), textCell (given "kind"),
      textCell (given "observed_at"), text]

/-- The statement of a record, none where it is invalid. -/
def recordSql : Option Statement :=
  if !isTable (some record) then none
  else if text? (record.field "kind") = some "admission" then admissionRow codec record
  else if text? (record.field "kind") = some "options" then optionRow codec record
  else if (record.field "id").isSome then turnRow codec record
  else eventRow codec record

end

/-- Whether a value is a routing preference. -/
def validPreference (value : Option Value) : Bool :=
  let given (name : String) := value.bind (·.field name)
  only ["mode", "pair", "recovery"] value && isOneOf ["auto", "manual"] (given "mode") &&
    ((given "recovery").isNone || validRecovery (given "recovery")) &&
    if text? (given "mode") = some "auto" then (given "pair").isNone
    else only ["model", "effort"] (given "pair") && (fieldsOf (given "pair")).all fun item =>
      nonempty (some item.2) || typeName (some item.2) == "boolean"

end Louiselm.Session
