import Louiselm.Base.Checks
import Louiselm.Base.Json
import Louiselm.Base.Text

/-!
# Reviewed Provider metadata

`skills-core/src/provider_request/disclosure.rs`: the metadata a request may carry, by the
embedded profile `disclosure.json`. Every refusal is the same denial, so the rules are
decided as one check.
-/

namespace Louiselm.Provider
open Base

/-- The failure codes of `launch_protocol.rs` that framing reports. -/
inductive ErrorCode where
  | invalidRequest
  | messageTooLarge
  | providerDisclosureDenied
deriving DecidableEq, Repr

/-- The fixed message of a code. -/
def ErrorCode.message : ErrorCode → String
  | .invalidRequest => "protocol request is invalid"
  | .messageTooLarge => "protocol message is too large"
  | .providerDisclosureDenied =>
    "Provider metadata disclosure refused; review the supported profile and authorize its " ++
      "exact digest"

/-- A stable, sanitized protocol failure about no known subject. -/
structure ProtocolError where
  code : ErrorCode
  message : String
deriving DecidableEq, Repr

/-- An error whose presentation is derived from its code. -/
def ProtocolError.new (code : ErrorCode) : ProtocolError := ⟨code, code.message⟩

namespace Disclosure

/-- The value shapes a rule may ask for. -/
inductive Kind where
  | string
  | boolean
  | unsigned
  | turn
  | workspaces
deriving DecidableEq, Repr

structure Profile where
  id : String
  maxStringBytes : Nat
  maxTurnBytes : Nat
  promptCacheKey : Kind
  headers : List (String × Kind)
  clientMetadata : List (String × Kind)
  turnMetadata : List (String × Kind)

/-- The embedded profile. -/
def profile : Profile where
  id := "codex-responses-metadata/2"
  maxStringBytes := 4096
  maxTurnBytes := 8192
  promptCacheKey := .string
  headers := [("accept", .string), ("content-type", .string), ("originator", .string),
    ("user-agent", .string), ("session-id", .string), ("thread-id", .string),
    ("x-client-request-id", .string), ("x-client-feature-id", .string),
    ("x-codex-beta-features", .string), ("x-codex-window-id", .string),
    ("x-codex-turn-metadata", .turn)]
  clientMetadata := [("root_turn_id", .string), ("thread_id", .string), ("session_id", .string),
    ("x-codex-window-id", .string), ("turn_id", .string), ("x-codex-turn-metadata", .turn),
    ("x-codex-installation-id", .string)]
  turnMetadata := [("installation_id", .string), ("session_id", .string), ("thread_id", .string),
    ("agent_name", .string), ("turn_id", .string), ("window_id", .string),
    ("window_number", .unsigned), ("context_window_id", .string), ("request_kind", .string),
    ("root_turn_id", .string), ("thread_source", .string), ("turn_trigger", .string),
    ("sandbox", .string), ("sandbox_mode", .string), ("auto_review_enabled", .boolean),
    ("node_repl_auto_review_required", .boolean), ("node_repl_disabled", .boolean),
    ("turn_started_at_unix_ms", .unsigned), ("analytics_enabled", .boolean), ("model", .string),
    ("reasoning_effort", .string), ("workspaces", .workspaces)]

def denied : ProtocolError := .new .providerDisclosureDenied

mutual
/-- Whether no object of a document repeats a key. -/
def uniqueKeys : Json → Bool
  | .arr items => uniqueItems items
  | .obj members => decide (members.map Prod.fst).Nodup && uniqueMembers members
  | _ => true

def uniqueItems : List Json → Bool
  | [] => true
  | item :: items => uniqueKeys item && uniqueItems items

def uniqueMembers : List (String × Json) → Bool
  | [] => true
  | (_, value) :: members => uniqueKeys value && uniqueMembers members
end

/-- The fields of a metadata object, which repeats no key at any depth. -/
def uniqueFields : Json → Option (List (String × Json))
  | .obj members =>
    if uniqueKeys (.obj members) then some (Json.normalizeMembers members) else none
  | _ => none

/-- A printable text of bounded size. -/
def printable (limit : Nat) (text : String) : Bool :=
  text.utf8ByteSize ≤ limit && !text.toList.any Text.isControl

def isHexDigit (c : Char) : Bool := c.isDigit || ('a' ≤ c && c ≤ 'f') || ('A' ≤ c && c ≤ 'F')

/-- The Git state of one workspace. -/
def workspaceState : Json → Bool
  | .obj state =>
    state.length == 2 && (match (Json.obj state).get "has_changes" with
      | some (.bool _) => true
      | _ => false) &&
      (match (Json.obj state).get "latest_git_commit_hash" with
      | some (.str hash) => (hash.utf8ByteSize == 40 || hash.utf8ByteSize == 64) &&
          hash.toList.all isHexDigit
      | _ => false)
  | _ => false

/-- Whether a value has a shape other than nested turn metadata. -/
def Profile.leaf (profile : Profile) : Kind → Json → Bool
  | .string, .str text => text != "" && printable profile.maxStringBytes text
  | .boolean, .bool _ => true
  | .unsigned, .num (.nat _) => true
  | .workspaces, .obj workspaces =>
    decide (workspaces.length ≤ 16) && workspaces.all fun (path, state) =>
      "/".isPrefixOf path && printable profile.maxStringBytes path && workspaceState state
  | _, _ => false

/-- Whether every field has a rule and the shape it asks for. -/
def objectMatches (value : Kind → Json → Bool) (rules : List (String × Kind))
    (fields : List (String × Json)) : Bool :=
  fields.all fun (name, v) =>
    match rules.lookup name with
    | some kind => value kind v
    | none => false

/-- Whether a value has the shape a rule asks for. Turn metadata is itself a JSON text, whose
own rules are leaves. -/
def Profile.value (fmt : JsonFormat) (profile : Profile) : Kind → Json → Bool
  | .turn, .str text =>
    decide (text.utf8ByteSize ≤ profile.maxTurnBytes) &&
      match (fmt.read text).bind uniqueFields with
      | some fields => (profile.turnMetadata.all fun rule => rule.2 != .turn) &&
          objectMatches profile.leaf profile.turnMetadata fields
      | none => false
  | kind, v => profile.leaf kind v

/-- The loop over the forwarded headers, with the names seen so far. -/
def headersMatch (fmt : JsonFormat) (profile : Profile) :
    List String → List (String × String) → Bool
  | _, [] => true
  | seen, (name, value) :: headers =>
    decide (name ∉ seen) && (match profile.headers.lookup name with
      | some kind => profile.value fmt kind (.str value)
      | none => false) &&
      headersMatch fmt profile (name :: seen) headers

/-- The metadata of a body: an absent object has no fields, an explicit `null` key stays. -/
def bodyFields (fmt : JsonFormat) (body : Bytes) : Option (List (String × Json) × Option Json) := do
  match ← (← fmt.readBytes body).struct false ["client_metadata", "prompt_cache_key"] with
  | [clientMetadata, promptCacheKey] =>
    let fields ← match clientMetadata with
      | some v => uniqueFields v
      | none => some []
    return (fields, promptCacheKey.map Json.normalize)
  | _ => none

def validate (fmt : JsonFormat) (body : Bytes) (headers : List (String × String)) :
    Except ProtocolError Unit := do
  require (headersMatch fmt profile [] headers) denied
  match bodyFields fmt body with
  | none => .error denied
  | some (clientMetadata, promptCacheKey) => do
    require (promptCacheKey.all (profile.value fmt profile.promptCacheKey)) denied
    require (objectMatches (profile.value fmt) profile.clientMetadata clientMetadata) denied

end Disclosure
end Louiselm.Provider
