import Louiselm.Launch.Protocol

/-!
# Launch authorizations

`skills-core/src/launch_protocol.rs` and `launch_protocol/conformance.rs`: the consumed
authorization a Session runs under, with the attendance and exact waiver it may carry.
`Preparation` and its check are those of `conformance/preparation.rs`.
-/

namespace Louiselm.Launch.Protocol
open Base Canonical

def launchAuthorizationSchema : String := "louiselm.launch.authorization/4"

def preparationSchema : String := "louiselm.conformance-preparation/1"

/-- Maximum age of a preparation, in milliseconds. -/
def maxPreparationAgeMs : UInt64 := 300000

/-! ### Conformance attendance and waivers -/

/-- Whether an operator is present to authorize an explicit waiver. -/
inductive Attendance where
  | interactive
  | unattended
deriving DecidableEq, Repr

/-- Minimal trusted observation bound to one exact prospective launch. -/
structure Preparation where
  schema : String
  requestDigest : String
  sessionId : String
  operatorUid : UInt32
  policyDigest : String
  bootId : String
  observedAtMs : UInt64
  condition : Condition
deriving DecidableEq, Repr

/-- Exact normalized outcome of the broker's operator-waiver authority. -/
structure ConformanceWaiver where
  preparation : Option Preparation
  sessionId : String
  requestDigest : String
  operatorUid : UInt32
  condition : Condition
  expiresAtMs : UInt64
  receiptDigest : String
deriving DecidableEq, Repr

/-- Broker-approved attendance and optional exact waiver. -/
structure ConformanceAuthorization where
  attendance : Attendance
  waiver : Option ConformanceWaiver
deriving DecidableEq, Repr

/-- Whether an explicit interactive waiver may cover a condition. -/
def isWaivable : Condition → Bool
  | .missing => true
  | .stale => true
  | .incomplete => true
  | .containmentFailure => false
  | .guardUnavailable => false

/-- Whether a text is a lower-case hyphenated UUID. -/
def uuid (value : String) : Bool :=
  (utf8 value).length == 36 && (utf8 value).zipIdx.all fun (byte, index) =>
    if index ∈ [8, 13, 18, 23] then byte == '-'.toUInt8
    else ('0'.toUInt8 ≤ byte && byte ≤ '9'.toUInt8) || ('a'.toUInt8 ≤ byte && byte ≤ 'f'.toUInt8)

/-- Structure and freshness of an observation, without authenticating its producer. -/
def Preparation.valid (preparation : Preparation) (nowMs : UInt64) : Bool :=
  preparation.schema == preparationSchema && (validateIdentifier preparation.sessionId).isOk &&
    (Digest.parse preparation.requestDigest).isOk &&
    (Digest.parse preparation.policyDigest).isOk && uuid preparation.bootId &&
    preparation.operatorUid != 0 && preparation.observedAtMs ≤ nowMs &&
    nowMs - preparation.observedAtMs < maxPreparationAgeMs && isWaivable preparation.condition

/-- The exact launch binding and current validity of a waiver. -/
def ConformanceAuthorization.validateFor (conformance : ConformanceAuthorization)
    (sessionId requestDigest : String) (controllerUid : UInt32) (nowMs : UInt64) :
    Except ProtocolError Unit :=
  forM conformance.waiver fun waiver => do
    validateDigest waiver.receiptDigest
    forM waiver.preparation fun preparation => do
      require (preparation.valid preparation.observedAtMs) (.new .malformedMessage none none)
      require (preparation.sessionId == sessionId && preparation.requestDigest == requestDigest &&
          preparation.operatorUid == controllerUid && preparation.condition == waiver.condition)
        (.new .malformedMessage none none)
    require (conformance.attendance == .interactive && waiver.sessionId == sessionId &&
        waiver.requestDigest == requestDigest && waiver.operatorUid != 0 &&
        waiver.operatorUid == controllerUid && nowMs < waiver.expiresAtMs &&
        isWaivable waiver.condition) (.new .malformedMessage none none)

/-! ### Authorizations -/

/-- One consumed authorization, as the supervisor receives it. -/
structure LaunchAuthorization where
  role : LaunchRole
  conformance : ConformanceAuthorization
  schema : String
  protocolVersion : UInt32
  authorizationId : String
  requestId : String
  requestDigest : String
  controllerUid : UInt32
  sessionId : String
  runId : String
  envelopeRevision : UInt64
  identitySlot : UInt32
  assignedUid : UInt32
  assignedGid : UInt32
  providerExpiresAtMs : Option UInt64
  expiresAtMs : UInt64
  brokerLossGraceMs : UInt32
deriving DecidableEq, Repr

/-- The authorization's own wire shape. -/
def LaunchAuthorization.validate (authorization : LaunchAuthorization) :
    Except ProtocolError Unit := do
  validateSchema authorization.schema launchAuthorizationSchema
  validateVersion authorization.protocolVersion
  validateIdentifier authorization.authorizationId
  validateIdentifier authorization.requestId
  validateDigest authorization.requestDigest
  validateIdentifier authorization.sessionId
  validateIdentifier authorization.runId
  authorization.conformance.validateFor authorization.sessionId authorization.requestDigest
    authorization.controllerUid 0
  require (authorization.controllerUid != 0 && authorization.assignedUid != 0 &&
      authorization.assignedGid != 0 && authorization.providerExpiresAtMs != some 0 &&
      !(authorization.role == .fixedVerifier && authorization.providerExpiresAtMs.isSome) &&
      authorization.expiresAtMs != 0 && authorization.brokerLossGraceMs ≤ maxBrokerLossGraceMs)
    (.new .invalidRequest none none)

end Louiselm.Launch.Protocol
