import Mathlib.Data.List.Infix
import Louiselm.Base.Search
import Louiselm.Broker.Receipts

/-!
# What an approval permits

`skills-core/src/beads_mutation.rs` and its `permission.rs`, `skill_request.rs` and
`provider_request.rs`: the requests of a Session and the approvals they are held against.
The bytes of a name are ASCII, so a check of bytes is one of characters. The parser of URLs
and the digest of the reviewed disclosure profile are parameters.
-/

namespace Louiselm.Broker
open Base Launch

/-! ### Beads mutations -/

/-- Trusted role chosen at launch. -/
inductive BeadsRole where
  | worker
  | coordinator
deriving DecidableEq, Repr

/-- Supported edge kinds. -/
inductive BeadsDependencyKind where
  | blocks
  | parentChild
  | related
deriving DecidableEq, Repr

/-- Exactly one project close verdict. -/
inductive BeadsVerdictKind where
  | consumer
  | gate
  | live
  | inert
  | none
deriving DecidableEq, Repr

/-- Bounded evidence reference supplied to closure policy. -/
structure BeadsCloseVerdict where
  kind : BeadsVerdictKind
  reference : String
deriving DecidableEq, Repr

/-- One canonical mutation a Session may ask the broker to perform. -/
inductive BeadsMutationKind where
  | commentAdd (issueId text : String)
  | claim (issueId : String)
  | statusUpdate (issueId status : String)
  | labelAdd (issueId label : String)
  | labelRemove (issueId label : String)
  | dependencyAdd (issueId dependsOnId : String) (dependencyType : BeadsDependencyKind)
  | dependencyRemove (issueId dependsOnId : String) (dependencyType : BeadsDependencyKind)
  | close (issueId reason : String) (verdict : BeadsCloseVerdict)
deriving DecidableEq, Repr

/-- A name of a Beads issue: with dots, and never one a command line takes for a flag. -/
def issueIdentifier (value : String) : Bool :=
  Text.bounded 128 (fun c => Text.isIdentifierChar c || c == '.') value &&
    value.toList.head? != some '-'

def textValid (value : String) : Bool :=
  value != "" && value.utf8ByteSize ≤ 8192 && !value.toList.contains '\x00'

def statusValid (value : String) : Bool :=
  isRecordIdentifier value && !value.toList.any Char.isUpper &&
    !(["closed", "tombstone", "in_progress", "inprogress"].contains value)

def labelValid (value : String) : Bool :=
  Text.bounded 128 (fun c => c.isAlphanum || ['-', '_', '.', ':', '/'].contains c) value &&
    value.toList.head? != some '-'

/-- Whether a text has one of the tokens that closing policy reads. -/
def hasVerdictToken (value : String) : Bool :=
  ["consumer:", "gate:", "live:", "inert:", "none:"].any fun token =>
    decide (token.toList <:+: value.toList)

def BeadsCloseVerdict.valid (verdict : BeadsCloseVerdict) : Bool :=
  Text.bounded 512 (fun c => !Text.isWhitespace c && !Text.isControl c) verdict.reference &&
    (verdict.kind != .inert || issueIdentifier verdict.reference) &&
    !hasVerdictToken verdict.reference

namespace BeadsMutationKind

/-- Exact primary issue, independent of the operation's payload. -/
def issueId : BeadsMutationKind → String
  | .commentAdd issueId _ | .claim issueId | .statusUpdate issueId _ | .labelAdd issueId _
  | .labelRemove issueId _ | .dependencyAdd issueId _ _ | .dependencyRemove issueId _ _
  | .close issueId _ _ => issueId

/-- The other endpoint of an edge. -/
def dependsOnId : BeadsMutationKind → Option String
  | .dependencyAdd _ dependsOnId _ | .dependencyRemove _ dependsOnId _ => some dependsOnId
  | _ => none

def valid (kind : BeadsMutationKind) : Bool :=
  issueIdentifier kind.issueId &&
    match kind with
    | .commentAdd _ text => textValid text
    | .claim _ => true
    | .statusUpdate _ status => statusValid status
    | .labelAdd _ label | .labelRemove _ label => labelValid label
    | .dependencyAdd issueId dependsOnId _ | .dependencyRemove issueId dependsOnId _ =>
      issueIdentifier dependsOnId && dependsOnId != issueId
    | .close _ reason verdict => textValid reason && verdict.valid && !hasVerdictToken reason

end BeadsMutationKind

/-- Immutable request content. -/
structure BeadsMutationRequest where
  requestId : String
  required : Bool
  kind : BeadsMutationKind
deriving DecidableEq, Repr

def BeadsMutationRequest.valid (request : BeadsMutationRequest) : Bool :=
  isRecordIdentifier request.requestId && request.kind.valid

/-- One independently approved operation. -/
inductive BeadsEffect where
  | commentAdd
  | claim
  | statusUpdate (status : String)
  | labelAdd (label : String)
  | labelRemove (label : String)
  | dependencyAdd (dependencyType : BeadsDependencyKind)
  | dependencyRemove (dependencyType : BeadsDependencyKind)
  | close
deriving DecidableEq, Repr

namespace BeadsEffect

/-- Required authority without the payloads. -/
def forMutation : BeadsMutationKind → BeadsEffect
  | .commentAdd _ _ => .commentAdd
  | .claim _ => .claim
  | .statusUpdate _ status => .statusUpdate status
  | .labelAdd _ label => .labelAdd label
  | .labelRemove _ label => .labelRemove label
  | .dependencyAdd _ _ dependencyType => .dependencyAdd dependencyType
  | .dependencyRemove _ _ dependencyType => .dependencyRemove dependencyType
  | .close _ _ _ => .close

/-- The derived order: that of the variants, and of what a variant carries. -/
def before : BeadsEffect → BeadsEffect → Bool
  | .statusUpdate left, .statusUpdate right | .labelAdd left, .labelAdd right
  | .labelRemove left, .labelRemove right => left < right
  | .dependencyAdd left, .dependencyAdd right | .dependencyRemove left, .dependencyRemove right =>
    left.ctorIdx < right.ctorIdx
  | left, right => left.ctorIdx < right.ctorIdx

def valid : BeadsEffect → Bool
  | .statusUpdate status => statusValid status
  | .labelAdd label | .labelRemove label => labelValid label
  | _ => true

/-- Role policy only narrows an explicit grant. -/
def permittedRole (effect : BeadsEffect) (role : BeadsRole) : Bool :=
  role == .coordinator ||
    match effect with
    | .close | .dependencyRemove _ | .dependencyAdd .blocks | .dependencyAdd .parentChild => false
    | .labelAdd label | .labelRemove label => label != "integration_verified"
    | _ => true

end BeadsEffect

/-- Explicit controller-issued capability for one canonical project. -/
structure ApprovedBeadsMutations where
  projectDigest : String
  role : BeadsRole
  issueIds : List String
  effects : List BeadsEffect
  maxMutations : UInt32
  expiresAtMs : UInt64
deriving DecidableEq, Repr

namespace ApprovedBeadsMutations

/-- Bounded scope, budget, role and lifetime. -/
def valid (approved : ApprovedBeadsMutations) (nowMs : UInt64) : Bool :=
  isCanonicalDigest approved.projectDigest && !approved.issueIds.isEmpty &&
    approved.issueIds.length ≤ 64 && approved.issueIds.all issueIdentifier &&
    decide (approved.issueIds.IsChain (· < ·)) && !approved.effects.isEmpty &&
    approved.effects.length ≤ 64 &&
    approved.effects.all (fun effect => effect.valid && effect.permittedRole approved.role) &&
    decide (approved.effects.IsChain (BeadsEffect.before · · = true)) &&
    1 ≤ approved.maxMutations && approved.maxMutations ≤ 64 && nowMs < approved.expiresAtMs

/-- Exact effect and every target, held against the envelope. -/
def permits (approved : ApprovedBeadsMutations) (request : BeadsMutationRequest)
    (nowMs : UInt64) : Bool :=
  let effect := BeadsEffect.forMutation request.kind
  approved.valid nowMs && request.valid && effect.permittedRole approved.role &&
    approved.effects.contains effect && approved.issueIds.contains request.kind.issueId &&
    request.kind.dependsOnId.all (approved.issueIds.contains ·)

end ApprovedBeadsMutations

/-! ### Skill requests -/

/-- Subject kind selected within the authenticated Agent's own binding. -/
inductive SkillSubject where
  | session
  | run
  | supply
deriving DecidableEq, Repr

structure SkillRequest where
  requestId : String
  subject : SkillSubject
  packages : List String
  agents : List String
deriving DecidableEq, Repr

/-- A sorted set of configured Agent names. -/
def agentNames (values : List String) : Bool :=
  !values.isEmpty && values.length ≤ 32 && decide (values.IsChain (· < ·)) &&
    values.all isRecordIdentifier

def SkillRequest.valid (request : SkillRequest) : Bool :=
  isRecordIdentifier request.requestId && agentNames request.agents &&
    !request.packages.isEmpty && request.packages.length ≤ 32 &&
    decide (request.packages.IsChain (· < ·)) && request.packages.all isCanonicalDigest

/-- Explicit trusted permission to request, and not perform, an Admission. -/
structure ApprovedSkillRequests where
  agents : List String
  allowRun : Bool
  allowSupply : Bool
  expiresAtMs : UInt64
deriving DecidableEq, Repr

namespace ApprovedSkillRequests

def valid (approved : ApprovedSkillRequests) (nowMs : UInt64) : Bool :=
  agentNames approved.agents && nowMs < approved.expiresAtMs

/-- Whether a subject kind is inside an approval. -/
def allows (approved : ApprovedSkillRequests) : SkillSubject → Bool
  | .session => true
  | .run => approved.allowRun
  | .supply => approved.allowSupply

def permits (approved : ApprovedSkillRequests) (request : SkillRequest) (nowMs : UInt64) : Bool :=
  approved.valid nowMs && request.valid && approved.allows request.subject &&
    request.agents.all (approved.agents.contains ·)

end ApprovedSkillRequests

/-! ### Provider requests -/

def maxRunRequests : UInt32 := 10000

/-- Efforts of a request, in increasing cost order. -/
inductive ReasoningEffort where
  | none
  | minimal
  | low
  | medium
  | high
  | xhigh
  | max
deriving DecidableEq, Repr

def ReasoningEffort.parse : String → Option ReasoningEffort
  | "none" => some .none
  | "minimal" => some .minimal
  | "low" => some .low
  | "medium" => some .medium
  | "high" => some .high
  | "xhigh" => some .xhigh
  | "max" => some .max
  | _ => Option.none

/-- An address of either family. -/
inductive IpAddr where
  | v4 (address : BitVec 32)
  | v6 (address : BitVec 128)
deriving DecidableEq, Repr

def IpAddr.isUnspecified : IpAddr → Bool
  | .v4 address => address == 0
  | .v6 address => address == 0

/-- The first octet of a multicast address is from 224 to 239, or is 255. -/
def IpAddr.isMulticast : IpAddr → Bool
  | .v4 address => address.extractLsb' 28 4 == 14
  | .v6 address => address.extractLsb' 120 8 == 255

/-- What is read of a parsed URL. -/
structure Url where
  text : String
  scheme : String
  host : Option String
  username : String
  password : Option String
  query : Option String
  fragment : Option String
  path : String
deriving DecidableEq, Repr

/-- The parser of URLs, and the displayed digest of the reviewed profile. -/
structure Disclosure where
  parseUrl : String → Option Url
  profileDigest : String

/-- Controller-issued permission to spend a Run's shared Provider request budget. -/
structure ApprovedProviderRequests where
  disclosureProfile : String
  provider : String
  upstream : String
  addresses : List IpAddr
  maxRunRequests : UInt32
  models : List String
  maxEffort : ReasoningEffort
  expiresAtMs : UInt64
deriving DecidableEq, Repr

namespace ApprovedProviderRequests

/-- Whether the destination is exactly one reviewed HTTPS endpoint. -/
def upstreamValid (disclosure : Disclosure) (upstream : String) : Bool :=
  (disclosure.parseUrl upstream).any fun url =>
    url.scheme == "https" && url.host.isSome && url.username == "" && url.password.isNone &&
      url.query.isNone && url.fragment.isNone && url.text == upstream && url.path == "/v1/responses"

/-- Bounded scope, destination and lifetime. -/
def valid (disclosure : Disclosure) (approved : ApprovedProviderRequests) (nowMs : UInt64) : Bool :=
  Text.bounded 64 (fun c => c.isLower || c.isDigit || c == '-') approved.provider &&
    approved.disclosureProfile == disclosure.profileDigest &&
    upstreamValid disclosure approved.upstream && approved.upstream.utf8ByteSize ≤ 2048 &&
    !approved.addresses.isEmpty && approved.addresses.length ≤ 16 &&
    decide approved.addresses.Nodup &&
    approved.addresses.all (fun address => !address.isUnspecified && !address.isMulticast) &&
    1 ≤ approved.maxRunRequests && approved.maxRunRequests ≤ Broker.maxRunRequests &&
    1 ≤ approved.models.length && approved.models.length ≤ 16 &&
    decide (approved.models.IsChain (· < ·)) &&
    approved.models.all (fun model => model != "" && model.utf8ByteSize ≤ 128) &&
    nowMs < approved.expiresAtMs

/-- Whether a request for a model at a stated effort is inside this grant. -/
def permits (approved : ApprovedProviderRequests) (model : String) (effort : Option String) :
    Bool :=
  binarySearch approved.models model &&
    (effort.bind ReasoningEffort.parse).any fun effort =>
    effort.ctorIdx ≤ approved.maxEffort.ctorIdx

end ApprovedProviderRequests
end Louiselm.Broker
