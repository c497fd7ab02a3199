import Louiselm.Endorsement.Imports

/-!
# Focus from stored Endorsements

`skills-core/src/endorsement/focus.rs`: how the stored records a machine trusts frame the review
of one package. The package store is a parameter: its Supply lineages, the packages it lists and
the diff between two of them.
-/

namespace Louiselm.Endorsement
open Base Canonical

/-- Everything focus needs, loaded once and reused across packages. -/
structure FocusContext where
  endorsers : EndorserSet
  records : List Record
  admitted : List Digest
  nowMs : UInt64

/-- One stored record about the reviewed package, with this machine's view. -/
structure Evidence where
  record : String
  kind : StatementKind
  endorser : Option String
  reviewDepth : Option String
  expiresAtMs : UInt64
  trust : TrustDecision
  withdrawn : Bool
deriving DecidableEq

/-- Why a base earns the focus label. -/
inductive Basis where
  | admitted
  | endorsed (endorser record : String)
deriving DecidableEq

/-- A trusted, unwithdrawn Endorsement of the exact reviewed bytes. -/
structure ExactEndorsement where
  endorser : String
  record : String
deriving DecidableEq

/-- A trusted earlier package the review is framed against. -/
structure FocusBase (Diff : Type) where
  packageDigest : String
  basis : Basis
  diff : Diff

/-- How trusted evidence frames the review of one package. -/
structure Focus (Diff : Type) where
  evidence : List Evidence
  exact : List ExactEndorsement
  base : Option (FocusBase Diff)
  reliedOn : List String

/-- One capture of a package. -/
structure LineageCapture where
  sourceRoot : String
  capturedAtMs : UInt64
deriving DecidableEq

/-- The package store: lineages, packages, and the diff from a base to a target. -/
structure Packages (ε Diff : Type) where
  lineage : Digest → Except ε (Option (List LineageCapture))
  list : Except ε (List Digest)
  between : Digest → Digest → Except ε Diff

/-- The latest of some times. -/
def latest : List UInt64 → Option UInt64
  | [] => none
  | time :: times =>
    match latest times with
    | none => some time
    | some later => some (if later < time then time else later)

namespace FocusContext

variable (sha256 : Sha256) (fmt : JsonFormat) (sshsig : SshsigVerify)

/-- Load the stored records of a directory. -/
def load (directory : Directory) (endorsers : EndorserSet) (admitted : List Digest)
    (nowMs : UInt64) : FocusContext where
  endorsers := endorsers
  records := (directory.records sha256 fmt).records
  admitted := admitted
  nowMs := nowMs

variable (context : FocusContext)

/-- Whether a signer has withdrawn a package. A withdrawal is checked for its proof and its
signature, never for expiry. -/
def withdrawn (signerKey : String) (package : Digest) : Bool :=
  context.records.any fun record =>
    record.withdraws && record.covers package && record.signing.signerKey == signerKey &&
      (record.verifySignature sha256 sshsig .none).isOk

/-- What this machine makes of every stored record about a package. -/
def evidence (package : Digest) : List Evidence :=
  (context.records.filter (·.covers package)).map fun record =>
    let decision := context.endorsers.decide sha256 sshsig record context.nowMs
    { record := (record.digest sha256).toString
      kind := record.kind
      endorser := match decision with
        | .trusted label => some label
        | .untrusted _ => none
      reviewDepth := match record.subject with
        | .endorsed stated => some stated.reviewDepth.name
        | .withdrawn _ => none
      expiresAtMs := record.signing.expiresAtMs
      trust := decision
      withdrawn := record.kind == .endorsement &&
        context.withdrawn sha256 sshsig record.signing.signerKey package }

/-- A record as a trusted, unwithdrawn Endorsement of a package, when it is one. -/
def exactEndorsement (package : Digest) (record : Record) : Option ExactEndorsement :=
  if record.kind == .endorsement && record.covers package &&
      !context.withdrawn sha256 sshsig record.signing.signerKey package then
    match context.endorsers.decide sha256 sshsig record context.nowMs with
    | .trusted label => some ⟨label, (record.digest sha256).toString⟩
    | .untrusted _ => none
  else none

def trustedEndorsements (package : Digest) : List ExactEndorsement :=
  context.records.filterMap (context.exactEndorsement sha256 sshsig package)

/-- Why a package may be the base of a review, when it may. -/
def basis (base : Digest) : Option Basis :=
  if base ∈ context.admitted then some .admitted
  else (context.trustedEndorsements sha256 sshsig base).head?.map fun endorsement =>
    .endorsed endorsement.endorser endorsement.record

variable {ε Diff : Type} (packages : Packages ε Diff)

/-- The other packages captured from one of the roots, with their latest capture. -/
def candidates (package : Digest) (roots : List String) : Except ε (List (UInt64 × Digest)) := do
  let others ← packages.list
  let found ← (others.filter (· ≠ package)).mapM fun other => do
    let history ← packages.lineage other
    return (latest (((history.getD []).filter (·.sourceRoot ∈ roots)).map
      (·.capturedAtMs))).map fun capturedAtMs => (capturedAtMs, other)
  return found.filterMap id

/-- Newest first; among captures of one time the later digest first. -/
def newerFirst (left right : UInt64 × Digest) : Bool :=
  decide (right.1 < left.1) || (left.1 == right.1 && decide (right.2.hex ≤ left.2.hex))

/-- The newest earlier capture from the same source that is trusted. -/
def lineageBase (package : Digest) : Except ε (Option (Digest × Basis)) := do
  match ← packages.lineage package with
  | none => return none
  | some captures => do
    let found ← candidates packages package (captures.map (·.sourceRoot))
    return (found.mergeSort newerFirst).findSome? fun candidate =>
      (context.basis sha256 sshsig candidate.2).map fun basis => (candidate.2, basis)

/-- The base of a review. With `against`, only that one is considered. -/
def chooseBase (package : Digest) : Option Digest → Except ε (Option (Digest × Basis))
  | some base => .ok ((context.basis sha256 sshsig base).map fun basis => (base, basis))
  | none => context.lineageBase sha256 sshsig packages package

/-- Focus for a package. -/
def evaluate (package : Digest) (against : Option Digest) : Except ε (Focus Diff) := do
  let exact := context.trustedEndorsements sha256 sshsig package
  let chosen ← context.chooseBase sha256 sshsig packages package against
  let base ← chosen.mapM fun (digest, basis) => do
    let diff ← packages.between digest package
    return { packageDigest := digest.toString, basis, diff : FocusBase Diff }
  let relied := match base.map (·.basis) with
    | some (.endorsed _ record) => [record]
    | _ => []
  return {
    evidence := context.evidence sha256 sshsig package
    exact, base
    reliedOn := Text.sortedSet (exact.map (·.record) ++ relied) }

/-! ### Focus after pruning -/

/-- The context without the records that pruning at `prunedMs` removes. -/
def prune (prunedMs : UInt64) : FocusContext :=
  { context with records := context.records.filter (!·.prunable prunedMs) }

variable {sha256 fmt sshsig context packages}

theorem load_pruneExpired (d : Directory) (e : EndorserSet) (a : List Digest)
    (ms prm : UInt64) : load sha256 fmt (d.pruneExpired sha256 fmt prm).2 e a ms =
      (load sha256 fmt d e a ms).prune prm := by
  rw [load, Directory.records_pruneExpired]
  rfl

theorem withdrawn_prune (prm : UInt64) (sk : String) (p : Digest) :
    (context.prune prm).withdrawn sha256 sshsig sk p =
      context.withdrawn sha256 sshsig sk p := by
  rw [withdrawn, prune, List.any_filter]
  refine congrArg context.records.any (funext fun r => ?_)
  cases hk : r.kind <;> simp [Record.withdraws, Record.prunable, hk]

variable {pm : UInt64}

/-- A record that pruning removes earns no focus from then on. -/
theorem exactEndorsement_of_prunable (h : pm ≤ context.nowMs) {r : Record}
    (hr : r.prunable pm = true) (p : Digest) :
    context.exactEndorsement sha256 sshsig p r = none := by
  rw [Record.prunable, Bool.and_eq_true, decide_eq_true_eq] at hr
  unfold exactEndorsement
  split
  · split
    · next ht =>
      have hl := EndorserSet.decide_trusted ht
      exact absurd (UInt64.lt_of_lt_of_le hl (UInt64.le_trans hr.2 h)) (UInt64.lt_irrefl _)
    · rfl
  · rfl

theorem trustedEndorsements_prune (h : pm ≤ context.nowMs) (p : Digest) :
    (context.prune pm).trustedEndorsements sha256 sshsig p =
      context.trustedEndorsements sha256 sshsig p := by
  have he : ∀ r, (context.prune pm).exactEndorsement sha256 sshsig p r =
      context.exactEndorsement sha256 sshsig p r := by
    intro r
    rw [exactEndorsement, withdrawn_prune]
    rfl
  rw [trustedEndorsements, trustedEndorsements, funext he, prune, List.filterMap_filter]
  refine List.filterMap_congr fun r _ => ?_
  cases hr : r.prunable pm with
  | true => simp [exactEndorsement_of_prunable h hr]
  | false => simp

theorem basis_prune (h : pm ≤ context.nowMs) (b : Digest) :
    (context.prune pm).basis sha256 sshsig b = context.basis sha256 sshsig b := by
  rw [basis, trustedEndorsements_prune h]
  rfl

theorem lineageBase_prune (h : pm ≤ context.nowMs) (p : Digest) :
    (context.prune pm).lineageBase sha256 sshsig packages p =
      context.lineageBase sha256 sshsig packages p := by
  simp only [lineageBase, basis_prune h]

theorem chooseBase_prune (h : pm ≤ context.nowMs) (p : Digest) (a : Option Digest) :
    (context.prune pm).chooseBase sha256 sshsig packages p a =
      context.chooseBase sha256 sshsig packages p a := by
  cases a with
  | none => exact lineageBase_prune h p
  | some b => simp only [chooseBase, basis_prune h]

/-- Pruning changes no focus but for the list of records that exist. -/
theorem evaluate_prune (h : pm ≤ context.nowMs) (p : Digest) (a : Option Digest) :
    ((context.prune pm).evaluate sha256 sshsig packages p a).map
        (fun f => (f.exact, f.base, f.reliedOn)) = (context.evaluate sha256 sshsig packages p a).map
        fun f => (f.exact, f.base, f.reliedOn) := by
  simp only [evaluate, trustedEndorsements_prune h, chooseBase_prune h]
  cases context.chooseBase sha256 sshsig packages p a with
  | error error => rfl
  | ok c =>
    cases c with
    | none => rfl
    | some c =>
      simp only [ok_bind, Option.mapM_some]
      cases packages.between c.1 p <;> rfl

theorem reliedOn_prune (h : pm ≤ context.nowMs) (p : Digest) (a : Option Digest) :
    ((context.prune pm).evaluate sha256 sshsig packages p a).map (·.reliedOn) =
      (context.evaluate sha256 sshsig packages p a).map (·.reliedOn) := by
  have hm : ∀ x : Except ε (Focus Diff), x.map (·.reliedOn) =
      (x.map fun f => (f.exact, f.base, f.reliedOn)).map (·.2.2) := by
    intro x
    cases x <;> rfl
  rw [hm, evaluate_prune h, ← hm]

end FocusContext
end Louiselm.Endorsement
