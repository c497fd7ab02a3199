import Louiselm.Provider.Disclosure

/-!
# Bounded HTTP/1.1 framing

`skills-core/src/provider_request/framing.rs`. The header parser is a parameter: what it
says of a head is a function of the head's bytes, and nothing else is assumed of it.
-/

namespace Louiselm.Provider
open Base List Option

def maxHeader : Nat := 32 * 1024

def maxBody : Nat := 32 * 1024 * 1024

def maxBuffer : Nat := maxHeader + maxBody

def maxHeaders : Nat := 32

/-- Reviewed headers relayed upstream unchanged. -/
def forwardedNames : List String :=
  ["accept", "content-type", "originator", "user-agent", "session-id", "thread-id",
    "x-client-request-id", "x-client-feature-id", "x-codex-beta-features", "x-codex-window-id",
    "x-codex-turn-metadata"]

/-- Reviewed headers consumed locally and never relayed. -/
def localNames : List String :=
  ["host", "content-length", "x-openai-internal-codex-responses-lite"]

/-- Reviewed top-level request fields. -/
def fieldNames : List String :=
  ["model", "input", "tool_choice", "parallel_tool_calls", "reasoning", "store", "stream",
    "include", "prompt_cache_key", "text", "client_metadata"]

def invalid : ProtocolError := .new .invalidRequest

/-- One complete, reviewed request. -/
structure ProviderRequest where
  model : String
  effort : Option String
  headers : List (String × String)
  body : Bytes
deriving DecidableEq

/-- A complete head as the HTTP library reports it, with the bytes it consumed. -/
structure RequestHead where
  consumed : Nat
  method : Option String
  path : Option String
  version : Option Nat
  headers : List (String × Bytes)

/-- The HTTP library under a limit of headers; no result for an error or an incomplete head. -/
abbrev Httparse := Nat → Bytes → Option RequestHead

/-- Incremental parser for one local connection. -/
structure Frames where
  host : String
  buffer : Bytes
  poisoned : Bool
deriving DecidableEq

/-- A parser of requests addressed to exactly `host`. -/
def Frames.new (host : String) : Frames := ⟨host, [], false⟩

/-- Append received bytes. -/
def Frames.feed (frames : Frames) (bytes : Bytes) : Except ProtocolError Unit × Frames :=
  if frames.poisoned then (.error invalid, frames)
  else if bytes.length > maxBuffer - frames.buffer.length then
    (.error (.new .messageTooLarge), { frames with poisoned := true })
  else (.ok (), { frames with buffer := frames.buffer ++ bytes })

/-! ### The head -/

/-- The end of a head. -/
def terminator : Bytes := [13, 10, 13, 10]

/-- The first window of a buffer that equals a pattern. -/
def position (pattern : Bytes) : Bytes → Option Nat
  | [] => none
  | byte :: rest =>
    if pattern.isPrefixOf (byte :: rest) then some 0 else (position pattern rest).map (· + 1)

/-- Whether a line feed follows anything but a carriage return. -/
def bareLineFeed : Bytes → Bool
  | first :: second :: rest => (second == 10 && first != 13) || bareLineFeed (second :: rest)
  | _ => false

/-- What the loop over the header fields collects. -/
structure HeadFields where
  seen : List String
  forwarded : List (String × String)
  length : Option String

/-- The values that three of the headers must have. -/
def requiredValue (host name : String) : Option String :=
  match name with
  | "host" => some host
  | "content-type" => some "application/json"
  | "accept" => some "text/event-stream"
  | _ => none

/-- One turn of the loop over the header fields. -/
def readField (host : String) (fields : HeadFields) (field : String × Bytes) :
    Except ProtocolError HeadFields := do
  let name := field.1.toLower
  match String.fromUTF8? ⟨field.2.toArray⟩ with
  | none => .error invalid
  | some value => do
    require (decide (name ∉ fields.seen) &&
      (forwardedNames.contains name || localNames.contains name)) invalid
    require ((requiredValue host name).all (· == value)) invalid
    return {
      seen := fields.seen ++ [name]
      forwarded :=
        if forwardedNames.contains name then fields.forwarded ++ [(name, value)]
        else fields.forwarded
      length := if name = "content-length" then some value else fields.length }

/-- The stated length of the body, which is neither empty nor beyond the bound. -/
def contentLength (length : Option String) : Except ProtocolError Nat :=
  match length with
  | none => .error invalid
  | some text => do
    require (text != "" && text.toList.all Char.isDigit) invalid
    match text.toNat? with
    | none => .error invalid
    | some length => do
      require (decide (length < 2 ^ 64)) invalid
      require (decide (length ≠ 0 ∧ length ≤ maxBody)) invalid
      return length

section

variable (fmt : JsonFormat) (httparse : Httparse)

/-- All that `parse` reads from the head alone: the headers to forward and the body length. -/
def readHead (host : String) (header : Bytes) :
    Except ProtocolError (List (String × String) × Nat) := do
  require (!bareLineFeed header) invalid
  match httparse maxHeaders header with
  | none => .error invalid
  | some head => do
    require (head.consumed == header.length && head.method == some "POST" &&
      head.path == some "/v1/responses" && head.version == some 1) invalid
    let fields ← head.headers.foldlM (readField host) ⟨[], [], none⟩
    require (["host", "content-type", "accept"].all (fields.seen.contains ·)) invalid
    let length ← contentLength fields.length
    return (fields.forwarded, length)

/-- The reasoning effort a body states. -/
def effortField (object : Json) : Except ProtocolError (Option String) :=
  match object.get "reasoning" with
  | none => .ok none
  | some (.obj reasoning) =>
    match (Json.obj reasoning).get "effort" with
    | none => .ok none
    | some (.str effort) => if effort.utf8ByteSize ≤ 32 then .ok (some effort) else .error invalid
    | some _ => .error invalid
  | some _ => .error invalid

/-- The fields of a body that policy reads. -/
def policyFields (body : Bytes) : Except ProtocolError (String × Option String) :=
  match fmt.readBytes body with
  | some (.obj members) => do
    let object := (Json.obj members).normalize
    require (members.all fun member => fieldNames.contains member.1) invalid
    require (decide (members.map Prod.fst).Nodup) invalid
    match object.get "stream" with
    | some (.bool true) =>
      match object.get "model" with
      | some (.str model) => do
        require (model != "" && model.utf8ByteSize ≤ 128) invalid
        let effort ← effortField object
        return (model, effort)
      | _ => .error invalid
    | _ => .error invalid
  | _ => .error invalid

/-- A request from its headers and complete body. -/
def readBody (forwarded : List (String × String)) (body : Bytes) :
    Except ProtocolError ProviderRequest := do
  let (model, effort) ← policyFields fmt body
  Disclosure.validate fmt body forwarded
  return ⟨model, effort, forwarded, body⟩

/-- What `parse` decides before it needs the body: nothing while the head is open, else a
refusal or the headers to forward, the length of the head and that of the body. -/
def parseHead (host : String) (buffer : Bytes) :
    Option (Except ProtocolError (List (String × String) × Nat × Nat)) :=
  match position terminator buffer with
  | none => if buffer.length > maxHeader then some (.error invalid) else none
  | some start =>
    if start + 4 > maxHeader then some (.error invalid)
    else some do
      let (forwarded, length) ← readHead httparse host (buffer.take (start + 4))
      return (forwarded, start + 4, length)

/-- The next request of a buffer and the bytes it takes, if it is complete. -/
def parse (host : String) (buffer : Bytes) :
    Except ProtocolError (Option (ProviderRequest × Nat)) :=
  match parseHead httparse host buffer with
  | none => .ok none
  | some (.error error) => .error error
  | some (.ok (forwarded, headLength, length)) =>
    if buffer.length - headLength < length then .ok none
    else do
      let request ← readBody fmt forwarded ((buffer.drop headLength).take length)
      return some (request, headLength + length)

/-- The next complete request; a refusal poisons the connection and drops its buffer. -/
def Frames.nextRequest (frames : Frames) : Except ProtocolError (Option ProviderRequest) × Frames :=
  if frames.poisoned then (.error invalid, frames)
  else
    match parse fmt httparse frames.host frames.buffer with
    | .error error => (.error error, { frames with poisoned := true, buffer := [] })
    | .ok none => (.ok none, frames)
    | .ok (some (request, length)) =>
      (.ok (some request), { frames with buffer := frames.buffer.drop length })

end

/-! ### The verdict on a buffer survives more bytes -/

variable {p b : Bytes}

/-- A pattern in front of a longer buffer is in front of any part that can hold it. -/
private theorem isPrefixOf_append {m : Bytes} (hl : p.length ≤ b.length) :
    p.isPrefixOf (b ++ m) = p.isPrefixOf b := by
  rw [Bool.eq_iff_iff, isPrefixOf_iff_prefix, isPrefixOf_iff_prefix]
  constructor
  · intro h
    exact prefix_of_prefix_length_le h (prefix_append _ _) hl
  · intro h
    exact h.trans (prefix_append _ _)

variable {st : Nat}

/-- A found window lies inside the buffer. -/
theorem position_bound (h : position p b = some st) : st + p.length ≤ b.length := by
  induction b generalizing st with
  | nil => simp [position] at h
  | cons byte xs ih =>
    rw [position] at h
    split at h
    · next hp =>
      rw [← Option.some.inj h, Nat.zero_add]
      exact (List.isPrefixOf_iff_prefix.mp hp).length_le
    · obtain ⟨n, hn, rfl⟩ := map_eq_some_iff.mp h
      have := ih hn
      rw [length_cons]
      omega

/-- A found window is found again. -/
theorem position_append (h : position p b = some st) (m : Bytes) :
    position p (b ++ m) = some st := by
  induction b generalizing st with
  | nil => simp [position] at h
  | cons byte xs ih =>
    have hb := position_bound h
    rw [length_cons] at hb
    rw [position] at h
    rw [cons_append, position, ← cons_append, isPrefixOf_append (by simp; omega)]
    split at h
    · next hp => rw [if_pos hp, h]
    · next hp =>
      obtain ⟨n, hn, rfl⟩ := map_eq_some_iff.mp h
      rw [if_neg hp, ih hn, map_some]

/-- A window that more bytes complete ends among them. -/
theorem position_none_append {m : Bytes} (he : 0 < p.length) (h : position p b = none)
    (h' : position p (b ++ m) = some st) : b.length < st + p.length := by
  induction b generalizing st with
  | nil =>
    rw [length_nil]
    omega
  | cons byte xs ih =>
    rw [position] at h
    split at h
    · simp at h
    · next hp =>
      rw [map_eq_none_iff] at h
      by_cases hl : p.length ≤ (byte :: xs).length
      · rw [cons_append, position, ← cons_append, isPrefixOf_append hl, if_neg hp] at h'
        obtain ⟨n, hn, rfl⟩ := map_eq_some_iff.mp h'
        have := ih h hn
        rw [length_cons]
        omega
      · omega

section

variable {fmt : JsonFormat} {ht : Httparse} {host : String}

variable {fo : List (String × String)}

/-- A stated body has at least one byte. -/
theorem readHead_length_pos {he : Bytes} {n : Nat}
    (h : readHead ht host he = .ok (fo, n)) : 0 < n := by
  unfold readHead at h
  rw [check_ok] at h
  obtain ⟨_, h⟩ := h
  split at h
  · simp at h
  · rw [check_ok] at h
    obtain ⟨fs, _, h⟩ := bind_ok.mp h.2
    rw [check_ok] at h
    obtain ⟨s, hs, h⟩ := bind_ok.mp h.2
    obtain ⟨-, rfl⟩ := Prod.mk.inj (Except.ok.inj h)
    unfold contentLength at hs
    split at hs
    · simp at hs
    · rw [check_ok] at hs
      replace hs := hs.2
      split at hs
      · simp at hs
      · simp only [check_ok, require_ok, decide_eq_true_eq] at hs
        have hl : _ = s := Except.ok.inj hs.2.2
        omega

variable {b : Bytes}

/-- A decision about the head stands whatever follows. -/
theorem parseHead_append {d : Except ProtocolError (List (String × String) × Nat × Nat)}
    (h : parseHead ht host b = some d) (m : Bytes) : parseHead ht host (b ++ m) = some d := by
  unfold parseHead at h ⊢
  cases hp : position terminator b with
  | none =>
    rw [hp] at h
    dsimp only at h
    split at h
    · next hl =>
      cases hp' : position terminator (b ++ m) with
      | none =>
        dsimp only
        rw [if_pos (by rw [length_append]; omega)]
        exact h
      | some st =>
        -- The head can only end behind the bytes that already exceed its bound.
        have ho := position_none_append (by decide) hp hp'
        simp only [terminator, length_cons, length_nil] at ho
        dsimp only
        rw [if_pos (by omega)]
        exact h
    · simp at h
  | some st =>
    rw [hp] at h
    rw [position_append hp m]
    have hb : st + 4 ≤ b.length := position_bound hp
    dsimp only at h ⊢
    rw [take_append_of_le_length hb]
    exact h

/-- A decided head lies in the buffer and states a body. -/
theorem parseHead_bounds {hl n : Nat} (h : parseHead ht host b = some (.ok (fo, hl, n))) :
    hl ≤ b.length ∧ 0 < n := by
  unfold parseHead at h
  split at h
  · split at h <;> simp at h
  · next st hp =>
    split at h
    · simp at h
    · obtain ⟨⟨f, l⟩, hr, h⟩ := bind_ok.mp (Option.some.inj h)
      obtain ⟨rfl, rfl, rfl⟩ : f = fo ∧ st + 4 = hl ∧ l = n := by
        simpa using Except.ok.inj h
      exact ⟨position_bound hp, readHead_length_pos hr⟩

/-- A refusal or a request of a buffer is that of every longer one. -/
theorem parse_append {v : Except ProtocolError (Option (ProviderRequest × Nat))}
    (h : parse fmt ht host b = v) (hn : v ≠ .ok none) (m : Bytes) :
    parse fmt ht host (b ++ m) = v := by
  unfold parse at h ⊢
  cases hh : parseHead ht host b with
  | none =>
    rw [hh] at h
    exact absurd h.symm hn
  | some d =>
    rw [hh] at h
    rw [parseHead_append hh m]
    match d, hh with
    | .error e, _ => exact h
    | .ok (fo, hl, n), hh =>
      have he := (parseHead_bounds hh).1
      dsimp only at h ⊢
      split at h
      · exact absurd h.symm hn
      · next hlen =>
        rw [if_neg (by rw [length_append]; omega), drop_append_of_le_length he,
          take_append_of_le_length (by rw [length_drop]; omega)]
        exact h

/-- A request takes at least one byte, and none that is not there. -/
theorem parse_bounds {req : ProviderRequest} {t : Nat}
    (h : parse fmt ht host b = .ok (some (req, t))) : 0 < t ∧ t ≤ b.length := by
  unfold parse at h
  split at h
  · simp at h
  · simp at h
  · next fo hl length hh =>
    have hb := parseHead_bounds hh
    split at h
    · simp at h
    · obtain ⟨bo, _, h⟩ := bind_ok.mp h
      obtain ⟨-, rfl⟩ : bo = req ∧ hl + length = t := by
        simpa using Except.ok.inj h
      omega

end
end Louiselm.Provider
