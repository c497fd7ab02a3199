import Louiselm.Base.Checks
import Louiselm.Routing.Qualification

/-!
# Launch requests of child Sessions

`lua/louiselm/acp/launch.lua`: the checks of a closed launch request and its text in the order of
the launcher's fields. Printing JSON, reading it and hashing are parameters.
-/

namespace Louiselm.Workflow.Beads
open Base.Lua
open Routing.Qualification (digest)

/-- What the code is run with: reading JSON, printing a whole value, a text or a number of it,
SHA-256, and how values and keys are shown. -/
structure Runtime where
  decode : String → Option Value
  encode : Value → Except String String
  scalar : Option Value → String
  sha256 : String → String
  tostring : Option Value → String
  keyText : Key → String

/-- A member of an object. -/
def member (name text : String) : String := "\"" ++ name ++ "\":" ++ text

def joined (members : List String) : String := "\x7b" ++ ",".intercalate members ++ "\x7d"

/-- The first key of a table that is none of some names. -/
def unknownKey (names : List String) (fields : List (Key × Value)) : Option Key :=
  (fields.map Prod.fst).find? fun key =>
    match key with
    | .str name => !names.contains name
    | _ => true

/-- The fields that a skills binding has in its mode. -/
def skillFields (skills : Value) : Except String (List String) :=
  if !digest (skills.field "view_digest") then .error "invalid skills binding"
  else if Value.text? (skills.field "mode") == some "off" then .ok ["mode", "view_digest"]
  else if Value.text? (skills.field "mode") == some "enabled" &&
      digest (skills.field "generation_digest") then
    .ok ["mode", "generation_digest", "view_digest"]
  else .error "invalid skills binding"

/-- The text of a skills binding. -/
def Runtime.encodeSkills (rt : Runtime) : Option Value → Except String String
  | some (.table fields) => do
    let skills := Value.table fields
    let names ← skillFields skills
    match unknownKey names fields with
    | some key => .error ("unknown skills field: " ++ rt.keyText key)
    | none => .ok (joined (names.map fun name => member name (rt.scalar (skills.field name))))
  | _ => .error "invalid skills binding"

/-- A name of letters, digits, underscores and hyphens. -/
def isName (value : Option Value) : Bool :=
  match value with
  | some (.str text) => text.utf8ByteSize ≤ 128 && text != "" &&
      text.toList.all fun c => c.isAlphanum || c == '_' || c == '-'
  | _ => false

/-- A whole number from one on that a double holds exactly. -/
def isRevision (value : Option Value) : Bool :=
  match Value.number? value with
  | some number => (Number.ofNat 1).le number && number.le (.ofNat 9007199254740991) &&
      number.isWhole
  | none => false

/-- The fields of a launch request in their order, each with its check. -/
def launchFields : List (String × (Option Value → Bool)) :=
  [("schema", fun value => Value.text? value == some "louiselm.launch.request/3"),
    ("protocol_version", fun value => Value.number? value == some (.ofNat 1)),
    ("request_id", isName), ("authorization_id", isName), ("session_id", isName),
    ("run_id", isName), ("agent_id", isName), ("envelope_id", isName),
    ("envelope_revision", isRevision), ("skills", fun _ => true),
    ("session_input_manifest_id", digest)]

/-- A field of a launch request as it stands in the text. -/
def Runtime.launchField (rt : Runtime) (request : Value)
    (item : String × (Option Value → Bool)) : Except String String :=
  let value := request.field item.1
  if item.1 == "skills" then
    match rt.encodeSkills value with
    | .ok text => .ok (member item.1 text)
    | .error _ => .error ("invalid launch request field: " ++ item.1)
  else if item.2 value then .ok (member item.1 (rt.scalar value))
  else .error ("invalid launch request field: " ++ item.1)

/-- The text of a launch request. -/
def Runtime.encodeLaunch (rt : Runtime) : Option Value → Except String String
  | some (.table fields) =>
    match unknownKey (launchFields.map Prod.fst) fields with
    | some key => .error ("unknown launch request field: " ++ rt.keyText key)
    | none => (launchFields.mapM (rt.launchField (.table fields))).map joined
  | _ => .error "launch request must be a table"

end Louiselm.Workflow.Beads
