import Mathlib.Data.Finset.Basic
import Louiselm.Base.Numbered
import Louiselm.Launch.Authorization
import Louiselm.Launch.ReceiptHistory

/-!
# The broker's durable receipt chains

`skills-core/src/broker/receipts.rs` and `receipts/conformance.rs`: exact signed envelopes,
one file for each sequence of a Session, and the conformance report its launch binds. The
operations here are those of a filesystem that does what it is asked. The decoder of an
envelope and the reader of a report are parameters, and so is the signature verifier, which
answers the same question always in the same way.
-/

namespace Louiselm.Broker
open Base Canonical Launch
open Launch.Protocol (LaunchAuthorization ProtocolError ReceiptHead protocolVersion
  validateSchema validateVersion)

/-- Longest chain this build reads back for one Session. -/
def maxChainReceipts : Nat := 1024

/-- Largest durable broker record. -/
def maxRecordBytes : Nat := 64 * 1024

/-- `conformance.rs`: largest observation report. -/
def maxReportBytes : Nat := 128 * 1024

def receiptAckSchema : String := "louiselm.launch.receipt-ack/2"

/-- Failures of the broker's durable stores; the cause of a storage failure is dropped. -/
inductive BrokerError where
  | policy (error : ProtocolError)
  | storage
  | verification
  | receiptRefused (error : ReceiptError)
  | receiptUnauthorized
  | conformanceReport (reason : String)
  | invalidGrant
  | duplicateAuthorization
  | unknownAuthorization
  | expired
  | requestMismatch
  | controllerMismatch
  | identityExhausted
  | invalidPool
deriving DecidableEq, Repr

/-- Whether an identifier is safe to spell as a durable record name. -/
def isRecordIdentifier (identifier : String) : Bool :=
  Text.bounded 128 Text.isIdentifierChar identifier

/-! ### Trust, reports and acknowledgements -/

/-- Caller-supplied authority for new chains. -/
structure TrustedRelease where
  releaseId : String
  signingKeyId : String
deriving DecidableEq, Repr

/-- A fixed release, or the identities an installed launcher registered for each Session. -/
inductive ReceiptTrust where
  | fixed (release : TrustedRelease)
  | installed (receiptAnchor : String → Except BrokerError ChainAnchor)

/-- Environment in which a report's producer made its observations. -/
inductive Scope where
  | disposableGuest
  | installedHost
deriving DecidableEq, Repr

/-- Derived outcome of a report. -/
inductive ReportResult where
  | passed
  | incomplete
  | failed (checks : List String)
deriving DecidableEq, Repr

/-- What the store asks of a canonical report; contradictory rows have no result. -/
structure Report where
  scope : Scope
  result : Option ReportResult
deriving DecidableEq, Repr

/-- A receipt store: its trust, and its readers of envelopes and reports. -/
structure ReceiptStore where
  trust : ReceiptTrust
  decodeReceipt : Bytes → Except ReceiptError SignedReceipt
  parseReport : Bytes → Option Report

inductive ReceiptDisposition where
  | durablyStored
  | rejected
deriving DecidableEq, Repr

/-- Disposition of one exact signed receipt. -/
structure ReceiptAcknowledgement where
  schema : String
  protocolVersion : UInt32
  sessionId : String
  runId : String
  sequence : UInt64
  receiptDigest : String
  disposition : ReceiptDisposition
deriving DecidableEq, Repr

/-- Schema, version, subject and digest spelling of an acknowledgement. -/
def ReceiptAcknowledgement.validate (acknowledgement : ReceiptAcknowledgement) :
    Except ProtocolError Unit := do
  validateSchema acknowledgement.schema receiptAckSchema
  validateVersion acknowledgement.protocolVersion
  Protocol.validateIdentifier acknowledgement.sessionId
  Protocol.validateIdentifier acknowledgement.runId
  Protocol.validateDigest acknowledgement.receiptDigest

/-- The files of a receipt store. A Session without a directory has no receipts. -/
structure Files where
  receipts : String → Numbered Bytes
  reports : String → Option Bytes
  recoveries : Finset String

/-! ### What a receipt must answer -/

/-- Every binding the broker owns before a receipt reaches storage. -/
def checkAuthorized (receipt : SignedReceipt) (authorization : LaunchAuthorization) :
    Except BrokerError Unit := do
  let payload := receipt.payload
  require (payload.sessionId == authorization.sessionId && payload.runId == authorization.runId &&
      payload.envelopeRevision == authorization.envelopeRevision) .receiptUnauthorized
  match payload.outcome with
  | .launch claimed evidence => do
    require (claimed.authorizationId == authorization.authorizationId &&
        claimed.requestId == authorization.requestId &&
        claimed.requestDigest == authorization.requestDigest &&
        evidence.role == authorization.role &&
        evidence.launchRequestDigest == authorization.requestDigest &&
        evidence.brokerLossGraceMs == authorization.brokerLossGraceMs) .receiptUnauthorized
    match evidence.conformance with
    | .waived condition _ => do
      -- Historical admission remains readable after its waiver expires.
      (authorization.conformance.validateFor authorization.sessionId authorization.requestDigest
        authorization.controllerUid 0).mapError fun _ => .receiptUnauthorized
      require (authorization.conformance.waiver.any (·.condition == condition))
        .receiptUnauthorized
    | _ => .ok ()
  | .start _ evidence =>
    require (evidence.assignedUid == authorization.assignedUid &&
        evidence.assignedGid == authorization.assignedGid &&
        !(authorization.role == .fixedVerifier && evidence.senderGuardRequired))
      .receiptUnauthorized
  | _ => .ok ()

/-- The admission a report is held against; only a launch has one. -/
def admission (receipt : SignedReceipt) : ConformanceEvidence :=
  match receipt.payload.outcome with
  | .launch _ evidence => evidence.conformance
  | _ => .unevaluated

/-- The report digest an admission binds. -/
def reportDigest : ConformanceEvidence → Option String
  | .certified digest => some digest
  | .waived _ digest => digest
  | .unevaluated => none

/-- Whether a report's result contradicts the admission that binds it. -/
def contradicts (admission : ConformanceEvidence) (result : ReportResult) : Bool :=
  match admission, result with
  | _, .failed _ => true
  | .certified _, .incomplete => true
  | .waived .missing _, _ => true
  | _, _ => false

namespace ReceiptStore

variable (store : ReceiptStore) (sha256 : Sha256) (fmt : JsonFormat)

/-- Exact observations, present exactly where the admission binds a digest. -/
def validateReport (admission : ConformanceEvidence) (bytes : Option Bytes) :
    Except BrokerError Unit :=
  match admission with
  | .waived .guardUnavailable _ => .error (.conformanceReport "guard_unavailable_cannot_be_waived")
  | .waived .containmentFailure _ =>
    .error (.conformanceReport "containment_failure_cannot_be_waived")
  | admission =>
    match reportDigest admission, bytes with
    | none, none => .ok ()
    | none, some _ => .error (.conformanceReport "unexpected_report")
    | some _, none => .error (.conformanceReport "missing_report")
    | some expected, some bytes => do
      require (decide (bytes.length ≤ maxReportBytes)) (.conformanceReport "oversized_report")
      require ((Digest.of sha256 bytes).toString == expected)
        (.conformanceReport "report_digest_mismatch")
      match store.parseReport bytes with
      | none => .error (.conformanceReport "invalid_report")
      | some report => do
        require (report.scope == .installedHost)
          (.conformanceReport "report_is_not_installed_host_evidence")
        match report.result with
        | none => .error (.conformanceReport "invalid_report")
        | some result =>
          require (!contradicts admission result)
              (.conformanceReport "report_contradicts_admission")

/-- `SignedReceipt::parse_canonical`. -/
def parseCanonical (bytes : Bytes) : Except ReceiptError SignedReceipt := do
  checkSize bytes
  let receipt ← store.decodeReceipt bytes
  require (receipt.canonicalBytes fmt == bytes) .nonCanonical
  receipt.validate sha256 fmt
  return receipt

/-! ### Reading a chain back -/

def readReceipt (files : Numbered Bytes) (sequence : Nat) : Except BrokerError Bytes :=
  match files.lookup sequence with
  | none => .error .storage
  | some bytes => do
    require (decide (bytes.length ≤ maxRecordBytes)) .storage
    return bytes

/-- Each stored envelope's exact bytes, in sequence order. -/
def storedBytes (files : Files) (sessionId : String) : Except BrokerError (List Bytes) := do
  require (isRecordIdentifier sessionId) .invalidGrant
  let count := (files.receipts sessionId).keys.length
  require (decide (count ≤ maxChainReceipts)) .storage
  (List.range count).mapM (readReceipt (files.receipts sessionId))

/-- The retained report of a receipt that binds one. -/
def readConformanceReport (files : Files) (receipt : SignedReceipt) :
    Except BrokerError (Option Bytes) :=
  match reportDigest (admission receipt) with
  | none => do
    store.validateReport sha256 (admission receipt) none
    return none
  | some _ => do
    require (isRecordIdentifier receipt.payload.sessionId) .invalidGrant
    match files.reports receipt.payload.sessionId with
    | none => .error .storage
    | some kept => do
      let bytes := kept.take (maxReportBytes + 1)
      (store.validateReport sha256 (admission receipt) (some bytes)).mapError fun _ => .storage
      return some bytes

/-- One stored envelope; corrupted bytes are a storage failure, not a refusal. -/
def readBack (files : Files) (bytes : Bytes) : Except BrokerError SignedReceipt := do
  let receipt ← (store.parseCanonical sha256 fmt bytes).mapError fun _ => .storage
  let _ ← store.readConformanceReport sha256 files receipt
  return receipt

/-- The stored chain. -/
def chain (files : Files) (sessionId : String) : Except BrokerError (List SignedReceipt) := do
  let stored ← storedBytes files sessionId
  stored.mapM (store.readBack sha256 fmt files)

/-- The stored chain's current head. -/
def head (files : Files) (sessionId : String) : Except BrokerError (Option ReceiptHead) := do
  let stored ← store.chain sha256 fmt files sessionId
  return stored.getLast?.map fun receipt =>
    ⟨receipt.payload.sequence, (receipt.digest sha256 fmt).toString⟩

/-- The Session state the last durable receipt reached. -/
def state (files : Files) (sessionId : String) : Except BrokerError (Option SessionState) := do
  let stored ← store.chain sha256 fmt files sessionId
  return stored.getLast?.map (·.payload.resultingState)

/-! ### Verification against the trusted identity -/

/-- The trusted identity a chain for an authorization must match. -/
def anchor (authorization : LaunchAuthorization) (admitted : Option SignedReceipt) :
    Except BrokerError ChainAnchor :=
  match store.trust with
  | .installed receiptAnchor => receiptAnchor authorization.sessionId
  | .fixed release => .ok ⟨authorization.sessionId, authorization.runId,
      admitted.elim release.releaseId (·.payload.releaseId),
      admitted.elim release.signingKeyId (·.payload.signingKeyId)⟩

variable (verify : String → Bytes → String → Bool)

/-- A verifier that keeps no state. -/
def fixedVerifier : SignatureVerifier Unit := fun key bytes signature =>
  pure (verify key bytes signature)

/-- `verify_chain` under a verifier that keeps no state. -/
def verifyFrom (receipts : List SignedReceipt) (anchor : ChainAnchor) :
    Except ReceiptError VerifiedReceiptHead :=
  (Verify.from () (verifyChain sha256 fmt (fixedVerifier verify) receipts anchor)).1

/-- The stored chain re-verified, so that an append extends verified state only. -/
def verifiedHead (stored : List SignedReceipt) (authorization : LaunchAuthorization) :
    Except BrokerError (Option VerifiedReceiptHead) := do
  if stored = [] then return none
  let anchor ← store.anchor authorization stored.head?
  match verifyFrom sha256 fmt verify stored anchor with
  | .ok head => return some head
  | .error (.invalidSignature _) => .error .storage
  | .error other => .error (.receiptRefused other)

/-- The files that must still be there to be made durable again. -/
def syncChain (files : Files) (sessionId : String) (chain : List SignedReceipt) :
    Except BrokerError Unit := do
  chain.forM fun receipt =>
    require (decide (receipt.payload.sequence.toNat ∈ files.receipts sessionId)) .storage
  forM chain.head? fun first =>
    require ((reportDigest (admission first)).isNone ||
      (files.reports first.payload.sessionId).isSome) .storage

/-- Every stored binding and signature, revalidated. -/
def verifiedChain (files : Files) (authorization : LaunchAuthorization) :
    Except BrokerError (List SignedReceipt) := do
  authorization.validate.mapError .policy
  let chain ← store.chain sha256 fmt files authorization.sessionId
  chain.forM fun receipt => checkAuthorized receipt authorization
  let _ ← store.verifiedHead sha256 fmt verify chain authorization
  syncChain files authorization.sessionId chain
  return chain

/-! ### Appending a receipt -/

/-- What `append` checks before it touches any file. -/
def admitReceipt (files : Files) (authorization : LaunchAuthorization) (receiptBytes : Bytes) :
    Except BrokerError SignedReceipt := do
  authorization.validate.mapError fun _ => .receiptUnauthorized
  require (isRecordIdentifier authorization.sessionId) .invalidGrant
  let receipt ← (store.parseCanonical sha256 fmt receiptBytes).mapError .receiptRefused
  checkAuthorized receipt authorization
  require (isRecordIdentifier authorization.authorizationId) .invalidGrant
  require (decide (authorization.authorizationId ∉ files.recoveries)) .receiptUnauthorized
  let stored ← store.chain sha256 fmt files authorization.sessionId
  match ← store.verifiedHead sha256 fmt verify stored authorization with
  | some head => do
    let suffix := verifySuffix sha256 fmt (fixedVerifier verify) [receipt] head
    let _ ← (Verify.from () suffix).1.mapError .receiptRefused
    return receipt
  | none => do
    let anchor ← store.anchor authorization none
    let _ ← (verifyFrom sha256 fmt verify [receipt] anchor).mapError .receiptRefused
    return receipt

/-- Keep the report a launch binds; an earlier one may only be the same. -/
def retainConformanceReport (files : Files) (receipt : SignedReceipt) (report : Option Bytes) :
    Except BrokerError Files := do
  store.validateReport sha256 (admission receipt) report
  match report with
  | none => return files
  | some bytes => do
    let sessionId := receipt.payload.sessionId
    require (isRecordIdentifier sessionId) .invalidGrant
    match files.reports sessionId with
    | none => return { files with reports := Function.update files.reports sessionId (some bytes) }
    | some _ => do
      let kept ← store.readConformanceReport sha256 files receipt
      require (kept == some bytes) .storage
      return files

/-- Create the file of one sequence. -/
def writeReceipt (files : Files) (sessionId : String) (sequence : UInt64) (bytes : Bytes) :
    Except BrokerError Files := do
  require (decide (sequence.toNat ∉ files.receipts sessionId)) .duplicateAuthorization
  return { files with
    receipts := Function.update files.receipts sessionId
      ((files.receipts sessionId).insert sequence.toNat bytes) }

/-- Whether an installed launcher still gives the anchor, after any disk I/O. -/
def recheckAnchor (authorization : LaunchAuthorization) : Except BrokerError Unit :=
  match store.trust with
  | .installed receiptAnchor => (receiptAnchor authorization.sessionId).map fun _ => ()
  | .fixed _ => .ok ()

/-- What is said of a durably stored receipt. -/
def acknowledgement (receipt : SignedReceipt) : ReceiptAcknowledgement where
  schema := receiptAckSchema
  protocolVersion := protocolVersion
  sessionId := receipt.payload.sessionId
  runId := receipt.payload.runId
  sequence := receipt.payload.sequence
  receiptDigest := (receipt.digest sha256 fmt).toString
  disposition := .durablyStored

/-- The acknowledgement of a stored receipt, withheld where the anchor is no longer given. -/
def acknowledge (authorization : LaunchAuthorization) (receipt : SignedReceipt) :
    Except BrokerError ReceiptAcknowledgement := do
  store.recheckAnchor authorization
  (acknowledgement sha256 fmt receipt).validate.mapError fun _ => .receiptUnauthorized
  return acknowledgement sha256 fmt receipt

/-- Verify one exact signed envelope and store it. -/
def append (files : Files) (authorization : LaunchAuthorization) (receiptBytes : Bytes)
    (reportBytes : Option Bytes) : Except BrokerError ReceiptAcknowledgement × Files :=
  match store.admitReceipt sha256 fmt verify files authorization receiptBytes with
  | .error error => (.error error, files)
  | .ok receipt =>
    match store.retainConformanceReport sha256 files receipt reportBytes with
    | .error error => (.error error, files)
    | .ok retained =>
      match writeReceipt retained authorization.sessionId receipt.payload.sequence receiptBytes with
      | .error error => (.error error, retained)
      | .ok written => (store.acknowledge sha256 fmt authorization receipt, written)

end ReceiptStore
end Louiselm.Broker
