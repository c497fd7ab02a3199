import Mathlib.Data.Prod.Lex
import Louiselm.Base.Checks
import Louiselm.Base.Hex
import Louiselm.Base.Text

/-!
# Attention conditions

`capture-service/src/attention.rs` and `attention_withdrawal.rs`: the typed conditions that
need an operator, what must hold of each of them, and the order they are kept in. Parsing a
UUID is a parameter.
-/

namespace Louiselm.Attention
open Base

/-! ### Conditions -/

/-- What a condition is about. -/
inductive AttentionSubjectKind where
  | session
  | run
  | supply
deriving DecidableEq, Repr

/-- The closed taxonomy of conditions. -/
inductive AttentionKind where
  | turnReady
  | permissionRequired
  | runParked
  | sessionFailed
  | skillApprovalPending
  | skillUnverified
  | endorsementWithdrawn
deriving DecidableEq, Repr

/-- The display label of a kind. -/
def AttentionKind.reason : AttentionKind → String
  | .turnReady => "Agent turn is ready"
  | .permissionRequired => "Permission is required"
  | .runParked => "Run is Parked"
  | .sessionFailed => "Session failed"
  | .skillApprovalPending => "Skill approval is pending"
  | .skillUnverified => "Skill supply is unverified"
  | .endorsementWithdrawn => "Endorsement was withdrawn"

/-- Closed details of Skill conditions. -/
inductive AttentionCode where
  | admissionRequired
  | rootTrustFailed
  | signatureInvalid
  | witnessMissing
  | nativeSupplyUncertain
  | runtimeDrift
  | isolationFailed
  | brokerUnavailable
  | auditPersistenceUnavailable
  | providerDisclosureMissing
  | evidenceMissing
  | evidenceInvalidated
  | quarantined
  | unknownFailure
deriving DecidableEq, Repr

inductive WithdrawalUrgency where
  | reliedOn
  | subjectOnly
deriving DecidableEq, Repr

/-- Bounded evidence of a withdrawn Endorsement. -/
structure AttentionWithdrawal where
  packageDigest : String
  withdrawalDigest : String
  endorser : String
  urgency : WithdrawalUrgency
deriving DecidableEq, Repr

/-- The identity of a condition. -/
structure AttentionKey where
  subjectKind : AttentionSubjectKind
  subjectId : String
  kind : AttentionKind
  sourceOperationId : String
deriving DecidableEq, Repr

/-- A condition as it is reported. -/
structure AttentionDraft where
  subjectKind : AttentionSubjectKind
  subjectId : String
  kind : AttentionKind
  sourceOperationId : String
  createdAtMs : UInt64
  linkedRunId : Option String
  stage : Option String
  code : Option AttentionCode
  withdrawal : Option AttentionWithdrawal
deriving DecidableEq, Repr

/-- One unresolved condition. -/
structure AttentionItem where
  subjectKind : AttentionSubjectKind
  subjectId : String
  kind : AttentionKind
  sourceOperationId : String
  createdAtMs : UInt64
  eligible : Bool
  reason : String
  linkedRunId : Option String
  stage : Option String
  code : Option AttentionCode
  withdrawal : Option AttentionWithdrawal
deriving DecidableEq, Repr

def AttentionDraft.key (draft : AttentionDraft) : AttentionKey :=
  ⟨draft.subjectKind, draft.subjectId, draft.kind, draft.sourceOperationId⟩

def AttentionItem.key (item : AttentionItem) : AttentionKey :=
  ⟨item.subjectKind, item.subjectId, item.kind, item.sourceOperationId⟩

/-- The item of a reported condition. -/
def AttentionDraft.item (draft : AttentionDraft) (eligible : Bool) : AttentionItem where
  subjectKind := draft.subjectKind
  subjectId := draft.subjectId
  kind := draft.kind
  sourceOperationId := draft.sourceOperationId
  createdAtMs := draft.createdAtMs
  eligible := eligible
  reason := draft.kind.reason
  linkedRunId := draft.linkedRunId
  stage := draft.stage
  code := draft.code
  withdrawal := draft.withdrawal

/-- Why an operation was refused. -/
inductive AttentionError where
  | invalid (reason : String)
  | run (reason : String)
  | io
deriving DecidableEq, Repr

/-! ### Checks -/

/-- The decimal text of a nonzero operator UID, without leading zeros. -/
def canonicalUid (text : String) : Bool :=
  (Text.parseU32 text).any fun uid => uid != 0 && toString uid == text

/-- A non-empty text of at most 256 bytes without white space and control characters. -/
def validSubjectId (subjectId : String) : Bool :=
  subjectId != "" && subjectId.utf8ByteSize ≤ 256 &&
    !subjectId.toList.any fun c => Text.isControl c || Text.isWhitespace c

def validateSubjectId (subjectId : String) : Except AttentionError Unit :=
  require (validSubjectId subjectId)
    (.invalid "subject_id is empty, too long, or contains whitespace")

/-- Characters of a stage name. -/
def isStageChar (c : Char) : Bool := c.isAlphanum || c == '.' || c == '_' || c == '/' || c == '-'

def validateStage : Option String → Except AttentionError Unit
  | none => .ok ()
  | some stage => require (Text.bounded 64 isStageChar stage)
    (.invalid "stage is empty, too long, or contains unsupported characters")

/-- `sha256:` and 64 lowercase hex digits. -/
def canonicalDigest (text : String) : Bool :=
  (Base.stripPrefix "sha256:".toList text.toList).any fun hex =>
    hex.length == 64 && hex.all Hex.isDigit

def validateWithdrawal (kind : AttentionKind) :
    Option AttentionWithdrawal → Except AttentionError Unit
  | none => require (kind != .endorsementWithdrawn) (.invalid "withdrawal evidence is required")
  | some withdrawal => do
    require (kind == .endorsementWithdrawn) (.invalid "withdrawal evidence does not match kind")
    require (canonicalDigest withdrawal.packageDigest && canonicalDigest
        withdrawal.withdrawalDigest)
      (.invalid "withdrawal digests must be canonical sha256 text")
    require (!Text.isBlank withdrawal.endorser && withdrawal.endorser.utf8ByteSize ≤ 256 &&
        !withdrawal.endorser.toList.any Text.isControl)
      (.invalid "withdrawal endorser must be a nonempty printable line of at most 256 bytes")

/-- A Skill condition is about supply or posture and carries a code, and no stage. -/
def AttentionKind.isSkill (kind : AttentionKind) : Bool :=
  kind == .skillApprovalPending || kind == .skillUnverified

def validCode (kind : AttentionKind) (code : Option AttentionCode) : Bool :=
  match kind with
  | .skillApprovalPending => code == some .admissionRequired
  | .skillUnverified => code.any (· != .admissionRequired)
  | _ => code.isNone

def validateCode (kind : AttentionKind) (code : Option AttentionCode) (stage : Option String) :
    Except AttentionError Unit := do
  require (validCode kind code) (.invalid "Attention code does not match kind")
  require (!(kind.isSkill && stage.isSome))
    (.invalid "Skill Attention conditions cannot carry stage text")

section

variable (uuid : String → Option String)

/-- A canonical UUID: `uuid` parses a text and prints what it parsed. -/
def validateUuid (value field : String) : Except AttentionError Unit :=
  match uuid value with
  | none => .error (.invalid (field ++ " must be a UUID"))
  | some canonical =>
    require (canonical == value) (.invalid (field ++ " must use canonical UUID text"))

def validateKey (key : AttentionKey) : Except AttentionError Unit := do
  validateSubjectId key.subjectId
  if key.subjectKind = .run then validateUuid uuid key.subjectId "Run subject_id"
  if key.subjectKind = .supply then do
    require (canonicalUid key.subjectId)
      (.invalid "Supply subject_id must be a canonical nonzero operator UID")
    require (key.kind == .skillApprovalPending || key.kind == .endorsementWithdrawn) (.invalid
        "Supply condition kind must be skill_approval_pending or endorsement_withdrawn")
  require (!(key.kind == .endorsementWithdrawn && key.subjectKind != .supply))
    (.invalid "Endorsement withdrawal requires a Supply subject")
  validateUuid uuid key.sourceOperationId "source_operation_id"

def validateLinkedRun : Option String → Except AttentionError Unit
  | none => .ok ()
  | some value => validateUuid uuid value "linked_run_id"

def validateContext (subjectKind : AttentionSubjectKind) (linkedRun stage : Option String) :
    Except AttentionError Unit := do
  require (!(subjectKind == .supply && (linkedRun.isSome || stage.isSome)))
    (.invalid "Supply conditions cannot carry Run or stage context")
  validateLinkedRun uuid linkedRun
  validateStage stage

def validateDraft (draft : AttentionDraft) : Except AttentionError Unit := do
  validateKey uuid draft.key
  require (draft.createdAtMs != 0) (.invalid "created_at_ms must be positive")
  validateContext uuid draft.subjectKind draft.linkedRunId draft.stage
  validateCode draft.kind draft.code draft.stage
  validateWithdrawal draft.kind draft.withdrawal

def validateItem (item : AttentionItem) : Except AttentionError Unit := do
  validateKey uuid item.key
  require (item.createdAtMs != 0) (.invalid "created_at_ms must be positive")
  require (item.reason == item.kind.reason) (.invalid "Attention reason does not match kind")
  validateContext uuid item.subjectKind item.linkedRunId item.stage
  validateCode item.kind item.code item.stage
  validateWithdrawal item.kind item.withdrawal

end

/-! ### Order -/

/-- The items are kept by creation time, then by subject kind, subject, kind and operation. -/
def AttentionItem.sortKey (item : AttentionItem) : Nat ×ₗ Nat ×ₗ String ×ₗ Nat ×ₗ String :=
  toLex (item.createdAtMs.toNat, toLex (item.subjectKind.ctorIdx, toLex (item.subjectId,
    toLex (item.kind.ctorIdx, item.sourceOperationId))))

/-- One item is kept before another or they sort alike. -/
def AttentionItem.Upto (a b : AttentionItem) : Prop := a.sortKey ≤ b.sortKey

instance : DecidableRel AttentionItem.Upto := fun _ _ => inferInstanceAs (Decidable (_ ≤ _))

def sortItems (items : List AttentionItem) : List AttentionItem :=
  items.insertionSort AttentionItem.Upto

/-- What two items say, apart from their eligibility. -/
def sameContent (left right : AttentionItem) : Bool := { left with eligible := true } ==
  { right with eligible := true }

end Louiselm.Attention
