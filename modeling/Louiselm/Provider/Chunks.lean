import Louiselm.Base.JsonCompact
import Louiselm.Base.PrefixParser
import Louiselm.Provider.Framing
import Mathlib.Data.List.Induction

/-!
# Framing does not depend on chunking

`Frames` of `skills-core/src/provider_request/framing.rs` driven as its callers drive it: a
chunk is fed and `next_request` is called until it returns none or an error. The verdict of
`parse` survives every extension of the buffer, so the frames served are those of the
stream. A refusal drops the buffer by design, so what is buffered is only accounted for
until then.
-/

namespace Louiselm.Provider
open Base List Frames PrefixParser

section

variable (fmt : JsonFormat) (httparse : Httparse)

/-- The requests taken with their bytes, the first refusal and the connection afterwards. -/
structure Served where
  requests : List (ProviderRequest × Bytes)
  error : Option ProtocolError
  frames : Frames

variable {frames : Frames}

/-- A returned request has left the buffer. -/
theorem nextRequest_shrinks {next : Frames} {req : ProviderRequest}
    (h : frames.nextRequest fmt httparse = (.ok (some req), next)) :
    next.buffer.length < frames.buffer.length := by
  unfold nextRequest at h
  split at h
  · simp at h
  · split at h
    · simp at h
    · simp at h
    · next req t hp =>
      have hb := parse_bounds hp
      rw [← (Prod.mk.inj h).2, length_drop]
      omega

/-- Call `nextRequest` until it returns none or an error. -/
def drain (frames : Frames) : Served :=
  match _h : frames.nextRequest fmt httparse with
  | (.error error, next) => ⟨[], some error, next⟩
  | (.ok none, next) => ⟨[], none, next⟩
  | (.ok (some request), next) =>
    let rest := drain next
    let raw := frames.buffer.take (frames.buffer.length - next.buffer.length)
    ⟨(request, raw) :: rest.requests, rest.error, rest.frames⟩
termination_by frames.buffer.length
decreasing_by exact nextRequest_shrinks fmt httparse _h

/-- Feed one chunk and drain. -/
def serveChunk (served : Served) (chunk : Bytes) : Served :=
  match served.frames.feed chunk with
  | (.error error, next) =>
    { served with error := served.error.or (some error), frames := next }
  | (.ok (), next) =>
    let drained := drain fmt httparse next
    ⟨served.requests ++ drained.requests, served.error.or drained.error, drained.frames⟩

/-- Serve chunks on a new connection. -/
def serve (host : String) (chunks : List Bytes) : Served :=
  chunks.foldl (serveChunk fmt httparse) ⟨[], none, new host⟩

/-! ### The drained buffer -/

/-- The verdict of `parse`, as that of an incremental parser. -/
def verdict (host : String) (buffer : Bytes) :
    Verdict ProtocolError ProviderRequest :=
  match parse fmt httparse host buffer with
  | .error error => .refused error
  | .ok none => .more
  | .ok (some (request, taken)) => .accepted request taken

/-- The verdict of `parse` survives every extension of the buffer. -/
theorem verdict_stable (host : String) : Stable (verdict fmt httparse host) where
  nil := rfl
  refused := by
    intro b e m h
    unfold verdict at h ⊢
    split at h
    · next hp =>
      rw [parse_append hp (by simp) m]
      exact h
    · simp at h
    · simp at h
  accepted := by
    intro b req t m h
    unfold verdict at h ⊢
    split at h
    · simp at h
    · simp at h
    · next hp =>
      rw [parse_append hp (by simp) m]
      exact h
  bounds := by
    intro b req t h
    unfold verdict at h
    split at h
    · simp at h
    · simp at h
    · next hp =>
      obtain ⟨-, rfl⟩ := Verdict.accepted.inj h
      exact parse_bounds hp

/-- The first refusal, or what is still buffered. -/
def Served.result (served : Served) : Except ProtocolError Bytes :=
  match served.error with
  | some error => .error error
  | none => .ok served.frames.buffer

/-- A connection keeps its host, and its first refusal poisons it and drops its buffer. -/
structure Served.Consistent (host : String) (served : Served) : Prop where
  host : served.frames.host = host
  poisoned : served.frames.poisoned = served.error.isSome
  dropped : served.error.isSome → served.frames.buffer = []

/-- Draining a sound connection takes the frames of its buffer. -/
theorem drain_drains (frames : Frames) (hp : frames.poisoned = false) :
    Drains (verdict fmt httparse frames.host) frames.buffer
        (drain fmt httparse frames).requests (drain fmt httparse frames).result ∧
      (drain fmt httparse frames).Consistent frames.host := by
  fun_induction drain fmt httparse frames with
  | case1 frames er next h =>
    unfold nextRequest at h
    rw [if_neg (by simp [hp])] at h
    split at h
    · next e ha =>
      obtain ⟨he, rfl⟩ := Prod.mk.inj h
      refine ⟨.refused ?_, rfl, rfl, fun _ => rfl⟩
      rw [verdict, ha, Except.error.inj he]
    · simp at h
    · simp at h
  | case2 frames next h =>
    unfold nextRequest at h
    rw [if_neg (by simp [hp])] at h
    split at h
    · simp at h
    · next ha =>
      obtain ⟨-, rfl⟩ := Prod.mk.inj h
      refine ⟨.more ?_, rfl, hp, nofun⟩
      rw [verdict, ha]
    · simp at h
  | case3 frames req next h rest raw ih =>
    unfold nextRequest at h
    rw [if_neg (by simp [hp])] at h
    split at h
    · simp at h
    · simp at h
    · next req' t ha =>
      obtain ⟨hr, rfl⟩ := Prod.mk.inj h
      obtain rfl : req' = req := by simpa using hr
      have hb := parse_bounds ha
      have hw : raw = frames.buffer.take t := by
        simp only [raw, length_drop]
        congr 1
        omega
      obtain ⟨hd, hc⟩ := ih hp
      refine ⟨?_, hc.host, hc.poisoned, hc.dropped⟩
      rw [hw]
      exact .accepted (by rw [verdict, ha]) hd

/-! ### Chunks -/

/-- Within the bound, serving chunks serves the stream they were cut from. -/
theorem serve_served (host : String) (c : List Bytes) (hb : c.flatten.length ≤ maxBuffer) :
    PrefixParser.Served (verdict fmt httparse host) c
        (serve fmt httparse host c).requests (serve fmt httparse host c).result ∧
      (serve fmt httparse host c).Consistent host := by
  induction c using List.reverseRecOn with
  | nil => exact ⟨.nil, rfl, rfl, nofun⟩
  | append_singleton c ch ih =>
    rw [flatten_append, flatten_singleton, length_append] at hb
    obtain ⟨hs, hc⟩ := ih (by omega)
    have hse : serve fmt httparse host (c ++ [ch]) =
        serveChunk fmt httparse (serve fmt httparse host c) ch := by
      rw [serve, foldl_append]
      rfl
    rw [hse]
    generalize hsr : serve fmt httparse host c = served at hs hc
    cases he : served.error with
    | some e =>
      have hp : served.frames.poisoned = true := by rw [hc.poisoned, he]; rfl
      have hf : served.frames.feed ch = (.error invalid, served.frames) := by
        rw [feed, if_pos hp]
      rw [serveChunk, hf]
      simp only [Served.result, he] at hs ⊢
      exact ⟨.refused hs, hc.host, hp, fun _ => hc.dropped (by simp [he])⟩
    | none =>
      have hp : served.frames.poisoned = false := by rw [hc.poisoned, he]; rfl
      have hr : served.frames.buffer.length ≤ c.flatten.length := by
        simp only [Served.result, he] at hs
        have hd := (hs.drains (verdict_stable fmt httparse host)).flatten_append
        rw [← hd, length_append]
        omega
      have hf : served.frames.feed ch =
          (.ok (), { served.frames with buffer := served.frames.buffer ++ ch }) := by
        rw [feed, if_neg (by simp [hp]), if_neg (by omega)]
      obtain ⟨hd, hcd⟩ := drain_drains fmt httparse
        { served.frames with buffer := served.frames.buffer ++ ch } hp
      have hh : served.frames.host = host := hc.host
      simp only [Served.result, he] at hs
      rw [serveChunk, hf]
      simp only [he, Option.none_or]
      refine ⟨.feed hs ?_, ?_, ?_, ?_⟩
      · rw [← hh]
        exact hd
      · rw [hcd.host, hh]
      · exact hcd.poisoned
      · exact hcd.dropped

/-! ### After the first refusal -/

/-- A call on a connection. -/
inductive Call where
  | feed (bytes : Bytes)
  | nextRequest

/-- The answer to one call; a feed returns no request. -/
def Frames.call (frames : Frames) : Call → Except ProtocolError (Option ProviderRequest) × Frames
  | .feed bytes =>
    let (answer, next) := frames.feed bytes
    (answer.map fun _ => none, next)
  | .nextRequest => frames.nextRequest fmt httparse

/-- The answers to one call after another. -/
def Frames.answers (frames : Frames) :
    List Call → List (Except ProtocolError (Option ProviderRequest))
  | [] => []
  | call :: calls =>
    let (answer, next) := frames.call fmt httparse call
    answer :: next.answers calls

/-- A poisoned connection refuses a call and stays as it is. -/
theorem call_of_poisoned (hp : frames.poisoned = true) (c : Call) :
    frames.call fmt httparse c = (.error invalid, frames) := by
  cases c with
  | feed b => rw [call, feed, if_pos hp]; rfl
  | nextRequest => rw [call, nextRequest, if_pos hp]

/-- A poisoned connection refuses every later call. -/
theorem answers_of_poisoned (hp : frames.poisoned = true) (c : List Call) :
    ∀ a ∈ frames.answers fmt httparse c, a = .error invalid := by
  induction c with
  | nil => simp [answers]
  | cons ca c ih =>
    rw [answers, call_of_poisoned fmt httparse hp]
    simpa using ih

/-! ### Two ways of cutting one stream -/

/-- The result and the host are all that serving leaves behind. -/
theorem Served.Consistent.eq {host : String} {s s' : Served} (h : s.Consistent host)
    (h' : s'.Consistent host) (he : s.requests = s'.requests) (hr : s.result = s'.result) :
    s = s' := by
  obtain ⟨requests, e, frames⟩ := s
  obtain ⟨r', e', f'⟩ := s'
  obtain ⟨ho, b, p⟩ := frames
  obtain ⟨hs, b', p'⟩ := f'
  obtain ⟨hh, hp, hd⟩ := h
  obtain ⟨hh', hp', hd'⟩ := h'
  cases e with
  | none =>
    cases e' with
    | none => simp_all [Served.result]
    | some _ => simp [Served.result] at hr
  | some _ =>
    cases e' with
    | none => simp [Served.result] at hr
    | some _ => simp_all [Served.result]

/-- However one stream within the bound is cut, the same is served: the same requests with
the same bytes, the same refusal or none. Until a refusal the frames taken and the buffer are
the stream; a refusal drops what the frames do not account for and answers every later call. -/
theorem serve_chunking (host : String) (chunks chunks' : List Bytes)
    (hstream : chunks.flatten = chunks'.flatten) (hbound : chunks.flatten.length ≤ maxBuffer) :
    let served := serve fmt httparse host chunks
    served = serve fmt httparse host chunks' ∧ served.frames.poisoned = served.error.isSome ∧
      (served.requests.map Prod.snd).flatten <+: chunks.flatten ∧ (served.error = none →
        (served.requests.map Prod.snd).flatten ++ served.frames.buffer = chunks.flatten) ∧
      (served.error.isSome → ∀ c,
        ∀ a ∈ served.frames.answers fmt httparse c, a = .error invalid) := by
  have ht := verdict_stable fmt httparse host
  obtain ⟨hs, hc⟩ := serve_served fmt httparse host chunks hbound
  obtain ⟨hs', hc'⟩ := serve_served fmt httparse host chunks' (hstream ▸ hbound)
  obtain ⟨hr, he⟩ := hs.unique ht hs' hstream
  have hd := hs.drains ht
  refine ⟨hc.eq hc' hr he, hc.poisoned, hd.flatten_prefix, ?_, ?_⟩
  · intro hn
    rw [Served.result, hn] at hd
    exact hd.flatten_append
  · intro ho
    exact answers_of_poisoned fmt httparse (hc.poisoned.trans ho)

end

/-- A head with a bare line feed, whole and cut inside its terminator. -/
theorem serve_chunking_terminator :
    serve Compact.format (fun _ _ => none) "127.0.0.1:8080" [[120, 10, 13, 10, 13, 10]] =
      serve Compact.format (fun _ _ => none) "127.0.0.1:8080" [[120, 10, 13], [10], [13, 10]] :=
  (serve_chunking Compact.format (fun _ _ => none) "127.0.0.1:8080" [[120, 10, 13, 10, 13, 10]]
    [[120, 10, 13], [10], [13, 10]] rfl (by decide)).1

/-- A refused head is no frame and is buffered no more. -/
theorem serve_refused_dropped :
    let stream : Bytes := [120, 10, 13, 10, 13, 10]
    let s := serve Compact.format (fun _ _ => none) "127.0.0.1:8080" [stream]
    stream.length ≤ maxBuffer ∧ (s.requests.map Prod.snd).flatten ++ s.frames.buffer ≠ stream := by
  have hs : serve Compact.format (fun _ _ => none) "127.0.0.1:8080"
      [[120, 10, 13, 10, 13, 10]] = ⟨[], some invalid, "127.0.0.1:8080", [], true⟩ := by
    simp only [serve, foldl_cons, foldl_nil]
    rw [serveChunk, new, feed, if_neg (by decide), if_neg (by decide)]
    dsimp only
    rw [drain]
    rfl
  intro stream s
  exact ⟨by decide, by simp [s, stream, hs]⟩

end Louiselm.Provider
