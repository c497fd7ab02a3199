import Louiselm.Base.Lua

/-!
# Permission requests

`lua/louiselm/permission/gates.lua`: the operation in an ACP permission payload, and the check
that a request passes before a policy decides on it. Requests are what an Agent sends, so they
are values of any shape. The text of a value that is no string is a parameter.
-/

namespace Louiselm.Permission
open Base.Lua

inductive Decision where
  | allow
  | deny
  | ask
deriving DecidableEq, Repr

def Decision.name : Decision → String
  | .allow => "allow"
  | .deny => "deny"
  | .ask => "ask"

/-- The decision that a value names. -/
def Decision.of? (value : Option Value) : Option Decision :=
  [.allow, .deny, .ask].find? fun decision => Value.text? value == some decision.name

/-- What a policy does with a request. -/
inductive PolicyAnswer where
  | raised (error : String)
  | returned (decision : Option Value) (error : Option Value)

/-- A policy, where it is one that can be evaluated. -/
abbrev Policy := Option (Value → PolicyAnswer)

/-- The policy that leaves every request for a human decision. -/
def askHuman : Policy := some fun _ => .returned (some (.str "ask")) none

/-- The strings of an array without gaps, where it is one; empty ones only where they are
allowed. -/
def denseStrings (allowEmpty : Bool) (value : Option Value) : Option (List String) :=
  match value with
  | some (.table fields) =>
    let items := (Value.table fields).sequence
    let texts := items.filterMap fun item => Value.text? (some item)
    if (Value.table fields).isArray && texts.length == items.length &&
        (allowEmpty || texts.all (· != "")) then some texts
    else none
  | _ => none

namespace Gates

/-! ### Extraction -/

def lower (tostring : Option Value → String) (value : Option Value) : String :=
  String.ofList (((Value.text? value).getD (tostring value)).toList.map Char.toLower)

/-- A request of a kind, with the fields that there are. -/
def request (kind : String) (fields : List (String × Option Value)) : Value :=
  .table ((Key.str "kind", .str kind) ::
    fields.filterMap fun item => item.2.map fun value => (.str item.1, value))

/-- Extract a gate operation from an ACP permission payload. -/
def fromAcp (tostring : Option Value → String) (data : Value) : Value :=
  match Value.either (data.field "toolCall") (data.field "tool_call") with
  | some (.table fields) =>
    let toolCall := Value.table fields
    let rawInput := match Value.either (toolCall.field "rawInput") (toolCall.field "raw_input") with
      | some (.table raw) => Value.table raw
      | _ => toolCall
    let kind := lower tostring (toolCall.field "kind")
    if ["edit", "file_edit", "write"].contains kind then
      match Value.either (rawInput.field "path")
          (Value.either (rawInput.field "filePath") (rawInput.field "file_path")) with
      | none => request "unknown" []
      | some (.str "") => request "unknown" []
      | some path => request "file_edit" [("path", some path), ("diff", rawInput.field "diff")]
    else if ["command", "execute", "shell"].contains kind then
      match ((rawInput.field "command").or (rawInput.field "argv")).or
          (rawInput.field "CommandLine") with
      | none => request "unknown" []
      | some (.str text) => request "command" [("command", some (.array [.str text]))]
      | some command => request "command" [("command", some command)]
    else request "unknown" []
  | _ => request "unknown" []

/-! ### Checks -/

/-- Ask a policy, whatever it is and does. -/
def evaluate (policy : Policy) (request : Value) : Except String (Decision × Option Value) :=
  match policy with
  | none => .error "permission policy must provide an evaluate function"
  | some evaluate =>
    match evaluate request with
    | .raised error => .error error
    | .returned decision error =>
      match Decision.of? decision with
      | none => .error "permission policy returned an invalid decision"
      | some decision => .ok (decision, error)

/-- Evaluate a normalized permission request. -/
def check (policy : Policy) (request : Value) : Except String (Decision × Option Value) :=
  let kind := Value.text? (request.field "kind")
  if !Value.isTable (some request) then .error "permission request must be a table"
  else if kind ≠ some "file_edit" ∧ kind ≠ some "command" ∧ kind ≠ some "unknown" then
    .error "permission request kind must be file_edit, command, or unknown"
  else if kind = some "file_edit" ∧ (Value.text? (request.field "path")).getD "" = "" then
    .error "permission file edit must have a non-empty path"
  else if kind = some "command" ∧ (denseStrings false (request.field "command")).isNone then
    .error "permission command must be a dense array of strings"
  else evaluate policy request

/-- A command that passes the check has its arguments. -/
theorem command_of_check {p : Policy} {req : Value} {a : Decision × Option Value}
    (h : check p req = .ok a) (hk : Value.text? (req.field "kind") = some "command") :
    ∃ c, denseStrings false (req.field "command") = some c := by
  unfold check at h
  dsimp only at h
  split at h
  · cases h
  · split at h
    · cases h
    · split at h
      · cases h
      · split at h
        · cases h
        · next hc =>
          refine Option.isSome_iff_exists.mp (Option.isSome_iff_ne_none.mpr fun hn => ?_)
          exact hc ⟨hk, by rw [hn]; rfl⟩

end Gates
end Louiselm.Permission
