import Mathlib.Data.List.DropRight
import Louiselm.Base.Checks
import Louiselm.Base.Program
import Louiselm.Base.Text
import Louiselm.Canonical.Digest

/-!
# The pairing registry

`capture-service/src/pairing.rs` and `notifications.rs`: one file of pending offers, paired
devices and their push registrations, replaced as a whole under the registry's lock. The
random tokens, credentials and device ids are arguments of the operations that draw them;
parsing a URL and SHA-256 are parameters. The file is kept as the value that is written and
read back.
-/

namespace Louiselm.Pairing
open Base Canonical Program

/-! ### The registry file -/

/-- One-time pairing material for a QR code. -/
structure PairingOffer where
  version : Nat
  receiverUrl : String
  receiverIdentitySha256 : String
  token : String
  expiresAtMs : UInt64
deriving DecidableEq, Repr

/-- The secret a newly paired device gets once. -/
structure DeviceCredential where
  deviceId : String
  deviceName : String
  credential : String
deriving DecidableEq, Repr

/-- What of a device is safe to display. -/
structure DeviceStatus where
  deviceId : String
  deviceName : String
  pairedAtMs : UInt64
  lastDeliveryAtMs : Option UInt64
deriving DecidableEq, Repr

structure PendingOffer where
  tokenSha256 : String
  expiresAtMs : UInt64
deriving DecidableEq, Repr

/-- The push registration of a device. Without a `fid` only its progress is kept. -/
structure NotificationRegistration where
  fid : Option String
  enabled : Bool
  submittedGeneration : Option UInt64
  retryAtMs : UInt64
  attempts : UInt32
deriving DecidableEq, Repr

structure DeviceRecord where
  status : DeviceStatus
  credentialSha256 : String
  notification : Option NotificationRegistration
deriving DecidableEq, Repr

/-- The condition of the sender. -/
inductive NotificationHealth where
  | unconfigured
  | ready
  | configurationError
  | authenticationError
deriving DecidableEq, Repr

structure RegistryState where
  schemaVersion : UInt8
  pending : List PendingOffer
  devices : List DeviceRecord
  health : NotificationHealth
deriving DecidableEq, Repr

/-- The file that opening an absent registry writes. -/
def RegistryState.initial : RegistryState := ⟨3, [], [], .unconfigured⟩

/-- Why an operation was refused. -/
inductive PairingError where
  | attention (reason : String)
  | unauthorized
  | rejected (reason : String)
  | io
deriving DecidableEq, Repr

/-- A URL as it is parsed; an absent part is `none` or empty. -/
structure ReceiverUrl where
  scheme : String
  host : Option String
  username : String
  password : Option String
  path : String
  query : Option String
  fragment : Option String

/-- A notification that was handed to the provider. -/
structure Submission where
  fid : String
  generation : UInt64
deriving DecidableEq, Repr

/-- The registry file, and the notifications handed to the provider so far. -/
structure World where
  file : RegistryState
  sent : List Submission
deriving DecidableEq, Repr

/-- A step of the service on its registry. -/
abbrev Action (α : Type) := Program World PairingError α

/-! ### Checks -/

/-- The random identifiers of installations: 22 characters of URL-safe base64. -/
def validFid (fid : String) : Bool :=
  fid.utf8ByteSize == 22 && fid.toList.all Text.isIdentifierChar

/-- What must hold of one registration by itself. -/
def NotificationRegistration.valid (registration : NotificationRegistration) : Bool :=
  registration.fid.all validFid && (registration.fid.isSome || !registration.enabled) &&
    registration.submittedGeneration != some 0 &&
    ((registration.attempts == 0) == (registration.retryAtMs == 0))

/-- The registrations of the paired devices. -/
def RegistryState.registrations (state : RegistryState) : List NotificationRegistration :=
  state.devices.filterMap (·.notification)

/-- Each registration is valid and no installation is registered twice. -/
def validateState (state : RegistryState) : Except PairingError Unit :=
  require (state.registrations.all (·.valid) &&
      decide (state.registrations.filterMap (·.fid)).Nodup)
    (.rejected "stored notification state is invalid")

/-- A clean HTTPS base URL. -/
def ReceiverUrl.clean (url : ReceiverUrl) : Bool :=
  url.scheme == "https" && url.host.isSome && url.username == "" && url.password.isNone &&
    (url.path == "" || url.path == "/") && url.query.isNone && url.fragment.isNone

/-- `trim` drops white space at both ends. -/
def trim (text : String) : String :=
  String.ofList ((text.toList.dropWhile Text.isWhitespace).rdropWhile Text.isWhitespace)

/-- A trimmed device name of at most 80 bytes without control characters. -/
def validDeviceName (name : String) : Bool :=
  name != "" && name.utf8ByteSize ≤ 80 && !name.toList.any Text.isControl

def isHexDigit (c : Char) : Bool :=
  c.isDigit || ('a' ≤ c && c ≤ 'f') || ('A' ≤ c && c ≤ 'F')

def saturatingAdd (a b : UInt64) : UInt64 := UInt64.ofNat (min (a.toNat + b.toNat) (2 ^ 64 - 1))

/-! ### Access under the lock -/

/-- Read the registry file. -/
def load : Action RegistryState := do
  let state ← query (fun world => .ok world.file) .io
  ofExcept (require (state.schemaVersion == 3)
    (.rejected "pairing registry version is unsupported"))
  ofExcept (validateState state)
  return state

/-- Replace the registry file durably. -/
def persist (state : RegistryState) : Action Unit :=
  write (fun world => { world with file := state }) .io

/-- Run an operation on the loaded registry under its lock. -/
def withState {α : Type} (save : Bool) (operation : RegistryState → Action (α × RegistryState)) :
    Action α := do
  probe .io
  let state ← load
  let (result, state) ← operation state
  if save then persist state
  probe .io
  return result

/-- An operation that decides without touching anything. -/
def decided {α : Type} (decide : RegistryState → Except PairingError (α × RegistryState))
    (state : RegistryState) : Action (α × RegistryState) := ofExcept (decide state)

/-! ### Pairing -/

section

variable (parseUrl : String → Option ReceiverUrl) (sha256 : Sha256)

/-- The lowercase SHA-256 of a secret. -/
def hash (value : String) : String := (Digest.of sha256 (utf8 value)).hex

def checkIssue (receiverUrl identity : String) (nowMs ttlMs : UInt64) :
    Except PairingError Unit := do
  require ((parseUrl receiverUrl).any (·.clean) && !receiverUrl.toList.any Text.isWhitespace)
    (.rejected "receiver URL must be a clean HTTPS base URL")
  require (identity.utf8ByteSize == 64 && identity.toList.all isHexDigit)
    (.rejected "receiver identity fingerprint must be hexadecimal")
  require (nowMs != 0 && ttlMs != 0) (.rejected "pairing timestamps must be positive")

/-- The offer of a token, after the offers that expired are dropped. -/
def issueOffer (receiverUrl identity : String) (nowMs ttlMs : UInt64) (token : String)
    (state : RegistryState) : Except PairingError (PairingOffer × RegistryState) :=
  let expiresAtMs := saturatingAdd nowMs ttlMs
  let pending := state.pending.filter fun offer => decide (offer.expiresAtMs > nowMs)
  .ok (⟨2, receiverUrl, identity.map Char.toLower, token, expiresAtMs⟩,
    { state with pending := pending ++ [⟨hash sha256 token, expiresAtMs⟩] })

/-- Issue one short-lived offer; `token` is the secret that is drawn. -/
def issue (receiverUrl identity : String) (nowMs ttlMs : UInt64) (token : String) :
    Action PairingOffer := do
  ofExcept (checkIssue parseUrl receiverUrl identity nowMs ttlMs)
  withState true (decided (issueOffer sha256 receiverUrl identity nowMs ttlMs token))

/-- An offer matches a token that has not expired. -/
def PendingOffer.accepts (tokenHash : String) (nowMs : UInt64) (offer : PendingOffer) : Bool :=
  offer.tokenSha256 == tokenHash && decide (offer.expiresAtMs ≥ nowMs)

/-- The first matching offer is used up, the expired ones are dropped and a device is added. -/
def consumeOffer (token deviceName : String) (nowMs : UInt64) (deviceId credential : String)
    (state : RegistryState) : Except PairingError (DeviceCredential × RegistryState) :=
  match state.pending.findIdx? (PendingOffer.accepts (hash sha256 token) nowMs) with
  | none => .error (.rejected "pairing token is invalid or expired")
  | some matched =>
    let pending := (state.pending.eraseIdx matched).filter fun offer =>
      decide (offer.expiresAtMs ≥ nowMs)
    .ok (⟨deviceId, deviceName, credential⟩, { state with
        pending
        devices := state.devices ++
          [⟨⟨deviceId, deviceName, nowMs, none⟩, hash sha256 credential, none⟩] })

/-- Consume one offer; `deviceId` and `credential` are drawn. -/
def consume (token deviceName : String) (nowMs : UInt64) (deviceId credential : String) :
    Action DeviceCredential := do
  ofExcept (require (validDeviceName (trim deviceName)) (.rejected "device name is invalid"))
  withState true (decided (consumeOffer sha256 token (trim deviceName) nowMs deviceId credential))

/-- The device a bearer belongs to. -/
def authenticateDevice (credential : String) : Action (Option String) :=
  withState false <| decided fun state =>
    .ok ((state.devices.find? (·.credentialSha256 == hash sha256 credential)).map
      (·.status.deviceId), state)

def setDelivery (nowMs : UInt64) (device : DeviceRecord) : DeviceRecord :=
  { device with status := { device.status with lastDeliveryAtMs := some nowMs } }

/-- Change the first device that meets a condition. -/
def modifyFirst {α : Type} (p : α → Bool) (f : α → α) : List α → List α
  | [] => []
  | a :: as => if p a then f a :: as else a :: modifyFirst p f as

/-- Persist a successful delivery for one device. -/
def recordDelivery (deviceId : String) (nowMs : UInt64) : Action Unit := do
  ofExcept (require (nowMs != 0) (.rejected "delivery timestamp must be positive"))
  withState true <| decided fun state => do
    require (state.devices.any (·.status.deviceId == deviceId)) (.rejected "device is unknown")
    return ((), { state with
      devices := modifyFirst (·.status.deviceId == deviceId) (setDelivery nowMs) state.devices })

/-- Revoke one device. -/
def revoke (deviceId : String) : Action Unit :=
  withState true <| decided fun state => do
    let devices := state.devices.filter (·.status.deviceId != deviceId)
    require (state.devices.length != devices.length) (.rejected "device is unknown")
    return ((), { state with devices })

/-- The paired devices in the order of their ids. -/
def status : Action (List DeviceStatus) :=
  withState false <| decided fun state =>
    .ok ((state.devices.map (·.status)).insertionSort (·.deviceId ≤ ·.deviceId), state)

end

/-! ### Push registrations -/

/-- The sanitized outcome of one submission. -/
inductive NotificationFailure where
  | transient (retryAfterMs : UInt64)
  | invalidInstallation
  | authentication
  | configuration
deriving DecidableEq, Repr

/-- The registration of the first device with an id. -/
def RegistryState.registrationOf (state : RegistryState) (deviceId : String) :
    Option NotificationRegistration :=
  (state.devices.find? (·.status.deviceId == deviceId)).bind (·.notification)

/-- Replace the registration of the first device with an id. -/
def RegistryState.setRegistration (state : RegistryState) (deviceId : String)
    (registration : NotificationRegistration) : RegistryState :=
  { state with
    devices := modifyFirst (·.status.deviceId == deviceId)
      (fun device => { device with notification := some registration }) state.devices }

/-- Whether a device other than the one at `index` has registered an installation. -/
def fidTaken (fid : String) (index : Nat) (devices : List DeviceRecord) : Bool :=
  (devices.eraseIdx index).any fun device =>
    device.notification.any fun registration => registration.fid == some fid

/-- Register or rotate the installation of the device that a bearer belongs to. -/
def registerInstallation (sha256 : Sha256) (credential fid : String) (state : RegistryState) :
    Except PairingError (Unit × RegistryState) :=
  match state.devices.findIdx? (·.credentialSha256 == hash sha256 credential) with
  | none => .error .unauthorized
  | some index =>
    if fidTaken fid index state.devices then
      .error (.rejected "notification fid is unavailable")
    else
      let current := (state.devices[index]?).bind (·.notification)
      if current.any fun registration => registration.fid == some fid && registration.enabled then
        .ok ((), state)
      else
        -- Rotation keeps the confirmed generation, so it is no reminder.
        let registration := ⟨some fid, true, current.bind (·.submittedGeneration), 0, 0⟩
        .ok ((), { state with
          devices := state.devices.modify index fun device =>
            { device with notification := some registration } })

def registerNotificationInstallation (sha256 : Sha256) (credential fid : String) :
    Action Unit := do
  ofExcept (require (validFid fid) (.rejected "notification fid is invalid"))
  withState true (decided (registerInstallation sha256 credential fid))

/-- Record the startup configuration; a permanent failure is not cleared by it. -/
def configureNotifications (health : NotificationHealth) : Action Unit :=
  withState false fun state => do
    if state.health ≠ health ∧ (health ≠ .ready ∨ state.health = .unconfigured) then do
      persist { state with health }
      return ((), { state with health })
    else return ((), state)

/-- Retry after the sender was corrected. -/
def retryNotifications : Action Unit :=
  withState true <| decided fun state => do
    require (state.health != .unconfigured) (.rejected "notifications are unconfigured")
    return ((), { state with health := .ready })

/-! ### Delivery -/

/-- The local delay before the next attempt: a minute, doubled up to six times. -/
def backoff (attempts : UInt32) : UInt64 := 60000 * UInt64.ofNat (2 ^ min (attempts.toNat - 1) 6)

/-- A registration with one more attempt, and the delay that follows it. -/
def NotificationRegistration.attempted (registration : NotificationRegistration)
    (nowMs : UInt64) : NotificationRegistration :=
  let attempts := UInt32.ofNat (min (registration.attempts.toNat + 1) (2 ^ 32 - 1))
  { registration with attempts, retryAtMs := saturatingAdd nowMs (backoff attempts) }

/-- A registration is due for a generation. -/
def NotificationRegistration.due (registration : NotificationRegistration) (nowMs : UInt64)
    (generation : UInt64) : Bool :=
  registration.enabled && !registration.submittedGeneration.any (· ≥ generation) &&
    decide (registration.retryAtMs ≤ nowMs)

/-- What the outcome of a submission changes. -/
def settle (deviceId : String) (registration : NotificationRegistration) (nowMs generation : UInt64)
    (state : RegistryState) : Except NotificationFailure Unit → Bool × RegistryState
  | .ok () => (true, state.setRegistration deviceId
      { registration with submittedGeneration := some generation, retryAtMs := 0, attempts := 0 })
  | .error (.transient retryAfterMs) => (false, state.setRegistration deviceId { registration with
        retryAtMs := max registration.retryAtMs (saturatingAdd nowMs retryAfterMs) })
  | .error .invalidInstallation =>
    (false, state.setRegistration deviceId { registration with enabled := false })
  | .error .authentication => (false, { state with health := .authenticationError })
  | .error .configuration => (false, { state with health := .configurationError })

/-- Submit the latest generation to one device. The attempt and its delay are durable before
the provider is called. -/
def deliverOne (latest : Except PairingError (Option UInt64)) (nowMs : UInt64)
    (send : String → UInt64 → Except NotificationFailure Unit) (deviceId : String) : Action Bool :=
  withState false fun state => do
    if state.health ≠ .ready then return (false, state)
    else
      match ← ofExcept latest with
      | none => return (false, state)
      | some generation => do
        ofExcept (require (generation != 0) (.rejected "notification generation must be positive"))
        match state.registrationOf deviceId with
        | none => return (false, state)
        | some registration =>
          if !registration.due nowMs generation then return (false, state)
          else
            let attempted := registration.attempted nowMs
            match attempted.fid with
            | none => return (false, state)
            | some fid => do
              let state := state.setRegistration deviceId attempted
              persist state
              effect fun world => { world with sent := world.sent ++ [⟨fid, generation⟩] }
              let (confirmed, state) :=
                settle deviceId attempted nowMs generation state (send fid generation)
              persist state
              return (confirmed, state)

/-- Submit to each device of a listing in turn; `latest` and `send` answer for each place. -/
def deliverAll (latest : Nat → Except PairingError (Option UInt64)) (nowMs : UInt64)
    (send : Nat → String → UInt64 → Except NotificationFailure Unit) :
    Nat → List DeviceStatus → Nat → Action Nat
  | _, [], submitted => return submitted
  | place, device :: devices, submitted => do
    let confirmed ← deliverOne (latest place) nowMs (send place) device.deviceId
    deliverAll latest nowMs send (place + 1) devices (submitted + confirmed.toNat)

/-- Submit the latest generation to each paired device. -/
def deliverNotifications (latest : Nat → Except PairingError (Option UInt64)) (nowMs : UInt64)
    (send : Nat → String → UInt64 → Except NotificationFailure Unit) : Action Nat := do
  ofExcept (require (nowMs != 0) (.rejected "notification timestamp must be positive"))
  let devices ← status
  deliverAll latest nowMs send 0 devices 0

end Louiselm.Pairing
