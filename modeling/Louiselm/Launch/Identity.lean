import Louiselm.Base.SyncedFile

/-!
# Identity leases

`skills-core/src/launcher_install/identity.rs`: the lock file of one identity slot, and every call
on it one operation at a time: `acquire_using` from the opening of the file on, `mark_active`,
`release` with `fail_release`, and `poison`. What `acquire_using` checks before touches no lock
file. A `flock` belongs to an open file description, which forked children may share.
-/

namespace Louiselm.Launch
open Base

/-- The marker of a slot that is not to be reused. -/
def poisonMarker : Bytes := utf8 "louiselm.identity.cleanup-unproven/1\n"

/-- Why a slot could not be leased. -/
inductive LeaseError where
  | occupied (slot : UInt32)
  | poisoned (slot : UInt32)
  | invalid (reason : String)
  | io (path source : String)
deriving DecidableEq, Repr

def LeaseError.message : LeaseError → String
  | .occupied slot => "identity slot " ++ toString slot ++ " is occupied"
  | .poisoned slot => "identity slot " ++ toString slot ++ " is poisoned by an unproven cleanup"
  | .invalid reason => reason
  | .io path source => "launcher I/O failed at '" ++ path ++ "': " ++ source

/-- Whether a lock file's content leaves the slot free. At most one byte more than the marker is
read. -/
def requireUnpoisoned (slot : UInt32) (content : Bytes) : Except LeaseError Unit :=
  let marker := content.take (poisonMarker.length + 1)
  if marker = [] then .ok ()
  else if marker = poisonMarker then .error (.poisoned slot)
  else .error (.invalid "identity lock contains an unknown persistent marker")

/-- One operation of a call on the lock file; a write stores one byte after the other. -/
inductive FileStep where
  | seek
  | change (change : Change)
  | sync
deriving DecidableEq

/-- The operations of `mark_active`. -/
def markActive : List FileStep :=
  .seek :: poisonMarker.zipIdx.map (fun item => .change (.put item.2 item.1)) ++
    [.change (.resize poisonMarker.length), .sync]

/-- The operations of `release` before it unlocks. -/
def clearMarker : List FileStep := [.change (.resize 0), .seek, .sync]

/-- How far one open file description has come. -/
inductive Phase where
  | opened (recovery : Bool)
  | locked (recovery : Bool)
  | marking (recovery : Bool) (remaining : List FileStep)
  | leased
  | releasing (remaining : List FileStep)
  | unlocking
  /-- `fail_release` marks the slot again. -/
  | remarking (remaining : List FileStep)
  | settled
  /-- `fail_release` could not, and has forgotten the lease with its lock. -/
  | retained
  /-- Only a forked child has the description open. -/
  | inherited
deriving DecidableEq

/-- A lease has been given out and is not given up. -/
def Phase.live : Phase → Bool
  | .leased | .releasing _ | .unlocking | .remarking _ | .settled | .retained => true
  | _ => false

/-- The description was locked and is not unlocked. -/
def Phase.holds : Phase → Bool
  | .locked _ | .marking _ _ => true
  | phase => phase.live

/-- What has happened to a slot. -/
inductive Mark where
  | leased (description : Nat)
  | wrote
  | truncated (description : Nat)
  /-- The machine stopped, and what was not synced may be lost. -/
  | lost
deriving DecidableEq

/-- One slot: its lock file, the open file descriptions of it, the one that is locked, those that
forked children share, and what has happened. -/
structure IdentitySlot where
  slot : UInt32
  file : SyncedFile
  phases : Nat → Option Phase
  holder : Option Nat
  shared : Nat → Bool
  log : List Mark

/-- What may happen next; an operation succeeds or fails. -/
inductive SlotEvent where
  | openFile (description : Nat) (recovery : Bool)
  | tryLock (description : Nat) (fails : Bool)
  | check (description : Nat) (fails : Bool)
  | advance (description : Nat) (fails : Bool)
  | release (description : Nat)
  | poison (description : Nat) (fails : Bool)
  | drop (description : Nat)
  | fork (description : Nat)
  | exec (description : Nat)
  | exit (description : Nat)
  | stop (kept : List Change)
deriving DecidableEq

namespace IdentitySlot

/-- A slot that was never leased. -/
def start (slot : UInt32) (file : SyncedFile) : IdentitySlot :=
  ⟨slot, file, fun _ => none, none, fun _ => false, []⟩

def become (slot : IdentitySlot) (description : Nat) (phase : Option Phase) : IdentitySlot :=
  { slot with phases := Function.update slot.phases description phase }

def unlock (slot : IdentitySlot) (description : Nat) : IdentitySlot :=
  { slot with holder := if slot.holder = some description then none else slot.holder }

/-- The process's descriptor is closed; the description goes with it unless a child shares it. -/
def close (slot : IdentitySlot) (description : Nat) : IdentitySlot :=
  if slot.shared description then slot.become description (some .inherited)
  else (slot.become description none).unlock description

/-- An operation on the lock file takes effect. -/
def perform (slot : IdentitySlot) (step : FileStep) (marks : List Mark) : IdentitySlot :=
  { slot with
    file := match step with
      | .seek => slot.file
      | .change change => slot.file.change change
      | .sync => slot.file.sync
    log := slot.log ++ marks }

/-- A byte of the marker is a write of it. -/
def marksOf : FileStep → List Mark
  | .change (.put _ _) => [.wrote]
  | _ => []

/-- The truncation of a release. -/
def clearsOf (description : Nat) : FileStep → List Mark
  | .change _ => [.truncated description]
  | _ => []

/-- The content is read under the lock. -/
def checked (slot : IdentitySlot) (description : Nat) (recovery : Bool) : IdentitySlot :=
  match requireUnpoisoned slot.slot slot.file.content with
  | .ok _ => slot.become description (some (.marking recovery markActive))
  | .error (.poisoned _) =>
    if recovery then slot.become description (some (.marking recovery markActive))
    else slot.close description
  | .error _ => slot.close description

/-- The next operation of the call that a description is in. -/
def advance (slot : IdentitySlot) (description : Nat) (fails : Bool) : IdentitySlot :=
  match slot.phases description with
  | some (.marking recovery (step :: rest)) =>
    if fails then slot.close description
    else if rest = [] then
      (slot.perform step (marksOf step ++ [.leased description])).become description (some .leased)
    else (slot.perform step (marksOf step)).become description (some (.marking recovery rest))
  | some (.releasing (step :: rest)) =>
    if fails then slot.become description (some (.remarking markActive))
    else (slot.perform step (clearsOf description step)).become description
      (some (if rest = [] then .unlocking else .releasing rest))
  | some .unlocking =>
    if fails then slot.become description (some (.remarking markActive))
    else (slot.unlock description).close description
  | some (.remarking (step :: rest)) =>
    if fails then slot.become description (some .retained)
    else (slot.perform step (marksOf step)).become description
      (some (if rest = [] then .settled else .remarking rest))
  | some .settled => (if fails then slot else slot.unlock description).close description
  | _ => slot

def step (slot : IdentitySlot) : SlotEvent → IdentitySlot
  | .openFile description recovery =>
    if slot.phases description = none then slot.become description (some (.opened recovery))
    else slot
  | .tryLock description fails =>
    match slot.phases description with
    | some (.opened recovery) =>
      if fails = true ∨ slot.holder ≠ none then slot.close description
      else { slot.become description (some (.locked recovery)) with holder := some description }
    | _ => slot
  | .check description fails =>
    match slot.phases description with
    | some (.locked recovery) =>
      if fails then slot.close description else slot.checked description recovery
    | _ => slot
  | .advance description fails => slot.advance description fails
  | .release description =>
    if slot.phases description = some .leased then
      slot.become description (some (.releasing clearMarker))
    else slot
  | .poison description fails =>
    if slot.phases description = some .leased then
      (if fails then slot else slot.unlock description).close description
    else slot
  | .drop description =>
    match slot.phases description with
    | some (.locked _) | some .leased => slot.close description
    | _ => slot
  | .fork description =>
    if slot.phases description = none then slot
    else { slot with shared := Function.update slot.shared description true }
  | .exec description =>
    let alone := { slot with shared := Function.update slot.shared description false }
    if slot.phases description = some .inherited then alone.close description else alone
  | .exit description =>
    match slot.phases description with
    | none | some .inherited => slot
    | some _ => slot.close description
  | .stop kept =>
    if kept.isSublist slot.file.unsynced then
      { slot with
        file := slot.file.lose kept
        phases := fun _ => none
        holder := none
        shared := fun _ => false
        log := slot.log ++ [.lost] }
    else slot

end IdentitySlot
end Louiselm.Launch
