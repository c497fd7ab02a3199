import Louiselm.Base.Hex
import Louiselm.Base.Lua

/-!
# Comparison approvals

`lua/louiselm/routing/qualification.lua`: the checks of comparison reports and decisions, the file
of decisions as its reader and writer see it, and the newest decision about a scope. The file is
taken as the value that its text decodes to.
-/

namespace Louiselm.Routing
open Base Base.Lua

namespace Qualification

def version : Number := .ofNat 1

/-! ### Schema -/

def nonempty : Option Value → Bool
  | some (.str text) => text != ""
  | _ => false

/-- Whether a value is a table with fields of these names only. -/
def exact (value : Option Value) (keys : List String) : Bool :=
  match value with
  | some (.table fields) => fields.all fun field =>
      match field.1 with
      | .str name => keys.contains name
      | _ => false
  | _ => false

/-- Whether a value is an array of at least so many items. -/
def array (value : Option Value) (minimum : Nat) : Bool :=
  match value with
  | some value => Value.isTable (some value) && minimum ≤ value.sequence.length && value.isArray
  | none => false

/-- What is under a name, where there is a table. -/
def under (value : Option Value) (name : String) : Option Value := value.bind (·.field name)

/-- The items of an array. -/
def items (value : Option Value) : List Value := (value.map Value.sequence).getD []

def oneOf (texts : List String) (value : Option Value) : Bool :=
  match value with
  | some (.str text) => texts.contains text
  | _ => false

def status (value : Option Value) : Bool := oneOf ["pass", "fail", "pending"] value

mutual
/-- `vim.deep_equal`: tables are equal when they have equal values under the same keys. -/
def deepEqual : Value → Value → Bool
  | .table fields, .table others => fields.length == others.length && fieldsEqual fields others
  | .bool left, .bool right => left == right
  | .num .nan, .num _ => false
  | .num left, .num right => left == right
  | .str left, .str right => left == right
  | _, _ => false

def fieldsEqual : List (Key × Value) → List (Key × Value) → Bool
  | [], _ => true
  | (key, value) :: fields, others =>
    (match others.lookup key with
    | some other => deepEqual value other
    | none => false) && fieldsEqual fields others
end

/-- Equality of values that may be absent. -/
def sameValue : Option Value → Option Value → Bool
  | none, none => true
  | some left, some right => deepEqual left right
  | _, _ => false

def route (value : Option Value) : Bool :=
  exact value ["agent", "provider", "model", "model_option_id", "options"] &&
    nonempty (under value "agent") && nonempty (under value "provider") &&
    nonempty (under value "model") && nonempty (under value "model_option_id") &&
    match under value "options", under value "model_option_id" with
    | some (.table fields), some (.str identifier) =>
      sameValue ((Value.table fields).field identifier) (under value "model") &&
        fields.all fun option =>
          (match option.1 with
          | .str key => key != ""
          | _ => false) &&
          match option.2 with
          | .str _ => true
          | .bool _ => true
          | _ => false
    | _, _ => false

def workload (value : Option Value) : Bool :=
  exact value ["kind", "id"] && oneOf ["main", "reader"] (under value "kind") &&
    nonempty (under value "id")

/-- A lower-case digit of a hexadecimal number. -/
def isHexDigit (c : Char) : Bool := ('0' ≤ c && c ≤ '9') || ('a' ≤ c && c ≤ 'f')

/-- A digest in its displayed form. -/
def isDigest (text : String) : Bool :=
  text.utf8ByteSize == 71 &&
    match stripPrefix "sha256:".toList text.toList with
    | some digits => digits != [] && digits.all isHexDigit
    | none => false

def digest : Option Value → Bool
  | some (.str text) => isDigest text
  | _ => false

def check (value : Value) : Bool :=
  exact (some value) ["id", "baseline", "candidate"] && nonempty (value.field "id") &&
    status (value.field "baseline") && status (value.field "candidate")

/-- The result of a human assessment, where one is required. -/
def human (value : Value) : Bool :=
  if Value.isTrue (value.field "human_review_required") then
    match value.field "human" with
    | none => true
    | some assessment =>
      exact (some assessment) ["baseline", "candidate", "reviewer"] &&
        status (assessment.field "baseline") && status (assessment.field "candidate") &&
        nonempty (assessment.field "reviewer")
  else (value.field "human").isNone

def fixture (value : Value) : Bool :=
  exact (some value) ["id", "source", "digest", "checks", "human_review_required", "human"] &&
    nonempty (value.field "id") && nonempty (value.field "source") &&
    digest (value.field "digest") && array (value.field "checks") 1 &&
    Value.typeName (value.field "human_review_required") == "boolean" &&
    (items (value.field "checks")).all check && human value

def report (value : Option Value) : Bool :=
  exact value ["version", "id", "policy_revision", "workload", "baseline", "candidate",
      "fixtures"] &&
    Value.number? (under value "version") == some version && nonempty (under value "id") &&
    nonempty (under value "policy_revision") && workload (under value "workload") &&
    route (under value "baseline") && route (under value "candidate") &&
    !sameValue (under value "baseline") (under value "candidate") &&
    array (under value "fixtures") 1 && (items (under value "fixtures")).all fixture &&
    decide ((items (under value "fixtures")).map fun selected =>
      Value.text? (selected.field "id")).Nodup

/-- Whether a result is in for the baseline and the candidate passes. -/
def passes (value : Value) : Bool :=
  Value.text? (value.field "baseline") != some "pending" &&
    Value.text? (value.field "candidate") == some "pass"

/-- Whether a report's results are complete and the candidate passes every one. -/
def accepted (value : Option Value) : Bool :=
  (items (under value "fixtures")).all fun selected =>
    (items (selected.field "checks")).all passes &&
      (!Value.isTrue (selected.field "human_review_required") ||
        ((selected.field "human").map passes).getD false)

/-- A finite quantity that is not negative. -/
def quantity : Option Value → Bool
  | some (.num (.finite q)) => decide (0 ≤ q)
  | _ => false

/-- Three capital letters. -/
def currency : Option Value → Bool
  | some (.str text) => text.toList.length == 3 && text.toList.all fun c => 'A' ≤ c && c ≤ 'Z'
  | _ => false

def figure (entry : Value) : Bool :=
  exact (some entry) ["route", "kind", "metric", "value", "unit", "provenance"] &&
    ((entry.field "route").isNone || oneOf ["baseline", "candidate"] (entry.field "route")) &&
    oneOf ["estimated", "measured"] (entry.field "kind") && oneOf ["api_cost", "quota", "latency"]
    (entry.field "metric") && quantity (entry.field "value") && nonempty (entry.field "unit") &&
    nonempty (entry.field "provenance") &&
    (Value.text? (entry.field "metric") != some "api_cost" || currency (entry.field "unit"))

def economics (value : Option Value) : Bool :=
  value.isNone || (array value 1 && (items value).all figure)

def allowance (value : Option Value) : Bool :=
  value.isNone ||
    (exact value ["max_extra_cost", "provenance"] &&
      exact (under value "max_extra_cost") ["value", "currency"] &&
      nonempty (under value "provenance") &&
      quantity (under (under value "max_extra_cost") "value") &&
      currency (under (under value "max_extra_cost") "currency"))

def isAction (action : String) (decision : Value) : Bool :=
  Value.text? (decision.field "action") == some action

/-- What a decision and the input that it is made of have in common. -/
def decided (value : Value) : Bool :=
  (isAction "approve" value || isAction "reject" value) && report (value.field "report") &&
    (!isAction "approve" value || accepted (value.field "report")) &&
    economics (value.field "economics") && allowance (value.field "api_for_quota")

/-- The revision that a decision states. -/
def revisionOf (decision : Value) : Option Number := Value.number? (decision.field "revision")

def validDecision (value : Value) (revision : Nat) : Bool :=
  exact (some value) ["action", "report", "economics", "api_for_quota", "revision", "decided_at"] &&
    decided value && revisionOf value == some (.ofNat revision) &&
    ((Value.number? (value.field "decided_at")).map Number.isWhole).getD false

/-! ### The file -/

/-- What stands under the path; a regular file has text that decodes to a value, or does not. -/
inductive Stored where
  | absent
  | regular (decoded : Option Value)
  | other

/-- The decisions in the order of their revisions. -/
structure State where
  decisions : List Value

def State.empty : State := ⟨[]⟩

def State.revision (state : State) : Nat := state.decisions.length

/-- The value that is encoded. -/
def State.document (state : State) : Value :=
  .table [(.str "version", .num version), (.str "revision", .num (.ofNat state.revision)),
    (.str "decisions", Value.array state.decisions)]

/-- A failed access to a regular file, with its detail. -/
inductive ReadFailure where
  | openFile (detail : String)
  | read (detail : String)
  | close (detail : String)

def ReadFailure.message : ReadFailure → String
  | .openFile detail => "could not read comparison approvals: " ++ detail
  | .read detail => "could not read comparison approvals: " ++ detail
  | .close detail => "could not close comparison approvals: " ++ detail

/-- How one read goes: whether the path can be examined, and what fails afterwards. -/
structure ReadLook where
  stat : Bool
  failure : Option ReadFailure

/-- Decisions whose revisions count on from an index. -/
def validDecisions : Nat → List Value → Bool
  | _, [] => true
  | index, decision :: decisions =>
    validDecision decision index && validDecisions (index + 1) decisions

/-- The state of a decoded document. -/
def decodeState (decoded : Value) : Except String State :=
  if exact (some decoded) ["version", "revision", "decisions"] &&
      Value.number? (decoded.field "version") == some version &&
      array (decoded.field "decisions") 0 && Value.number? (decoded.field "revision") ==
        some (.ofNat (items (decoded.field "decisions")).length) &&
      validDecisions 1 (items (decoded.field "decisions")) then
    .ok ⟨items (decoded.field "decisions")⟩
  else .error "comparison approvals have invalid schema"

def readState (look : ReadLook) (file : Stored) : Except String State :=
  -- A path that cannot be examined counts as one where nothing stands.
  if !look.stat then .ok .empty
  else match file with
    | .absent => .ok .empty
    | .other => .error "comparison approval path is not a regular file"
    | .regular decoded =>
      match look.failure with
      | some failure => .error failure.message
      | none =>
        match decoded with
        | none => .error "comparison approvals have invalid schema"
        | some decoded => decodeState decoded

/-! ### Operations -/

/-- The checks of an input before anything is read; an object takes one decision at a time. -/
def checkInput (busy : Bool) : Option Value → Except String Value
  | none => .error "comparison decision must explicitly approve or reject"
  | some input =>
    if !(exact (some input) ["action", "report", "economics", "api_for_quota"] &&
        (isAction "approve" input || isAction "reject" input)) then
      .error "comparison decision must explicitly approve or reject"
    else if !report (input.field "report") then .error "comparison report has invalid schema"
    else if isAction "approve" input && !accepted (input.field "report") then
      .error "comparison acceptance is incomplete or failed"
    else if !(economics (input.field "economics") && allowance (input.field "api_for_quota")) then
      .error "comparison economics or allowance has invalid schema"
    else if busy then .error "comparison approval write is in progress"
    else .ok input

/-- The decision that is made of an input. -/
def decisionOf (input : Value) (revision : Nat) (now : Int) : Value :=
  (input.set "revision" (.num (.ofNat revision))).set "decided_at" (.num (.finite now))

/-- What a decision is published as. -/
def result (decision : Value) : Value :=
  .table ([("revision", decision.field "revision"),
    ("report_id", under (decision.field "report") "id"),
    ("policy_revision", under (decision.field "report") "policy_revision"),
    ("report", decision.field "report"), ("economics", decision.field "economics"),
    ("api_for_quota", decision.field "api_for_quota")].filterMap fun item =>
      item.2.map fun value => (.str item.1, value))

def validScope (scope : Option Value) : Bool :=
  exact scope ["workload", "baseline", "candidate", "policy_revision"] &&
    workload (under scope "workload") && route (under scope "baseline") &&
    route (under scope "candidate") && nonempty (under scope "policy_revision")

/-- Whether a decision is about a scope. -/
def covers (scope : Option Value) (decision : Value) : Bool :=
  let selected := decision.field "report"
  sameValue (under selected "workload") (under scope "workload") &&
    sameValue (under selected "baseline") (under scope "baseline") &&
    sameValue (under selected "candidate") (under scope "candidate") &&
    sameValue (under selected "policy_revision") (under scope "policy_revision")

/-- The newest decision about a scope, when it approves; an expected revision must be that of the
whole file. -/
def lookup (look : ReadLook) (file : Stored) (scope : Option Value) (expected : Option Number) :
    Except String (Option Value) :=
  if !validScope scope then .error "qualification scope has invalid schema"
  else match readState look file with
    | .error error => .error error
    | .ok state =>
      if expected.any (· != .ofNat state.revision) then .error "approval revision changed"
      else match state.decisions.reverse.find? (covers scope) with
        | none => .ok none
        | some decision =>
          if isAction "approve" decision then .ok (some (result decision)) else .ok none

end Qualification
end Louiselm.Routing
