import Louiselm.Base.Runs
import Louiselm.Transcription.Store

/-!
# What becomes of captures after a crash

A pass of the worker can be cut at every operation, also between two bytes of a transcript.
What is on disk is never rewritten; a transcript file that was cut keeps its capture, and a
pass that comes to it, from ever completing.
-/

namespace Louiselm.Transcription
open Base List Option
open Base.Program World

/-! ### Directories -/

/-- The bytes of a capture's transcript file. -/
def World.transcriptBytes (world : World) (id : String) : Option Bytes :=
  (world.captures.lookup id).bind (·.transcript)

theorem lookup_modify_self {world : World} {id : String} {c : Capture → Capture} :
    (world.modify id c).captures.lookup id = (world.captures.lookup id).map c := by
  unfold World.modify
  split
  · next hn => simp [hn]
  · next cap hs => simp [hs]

theorem lookup_modify_ne {world : World} {id o : String} {c : Capture → Capture}
    (h : o ≠ id) : (world.modify id c).captures.lookup o =
      world.captures.lookup o := by
  unfold World.modify
  split
  · rfl
  · exact AList.lookup_insert_ne h

theorem asked_modify {world : World} {id : String} {c : Capture → Capture} :
    (world.modify id c).asked = world.asked := by
  unfold World.modify
  split <;> rfl

section

variable (uuid : String → Option String)

/-- Every capture is under its id, with the audio file its record asks for. -/
def Intact (world : World) : Prop :=
  ∀ id capture, world.captures.lookup id = some capture →
    capture.record.id = id ∧ validateId uuid id = .ok () ∧
      ∃ extension, extensionForMime capture.record.mimeType = some extension ∧
        capture.audio = "audio." ++ extension

/-- What an operation on one capture leaves alone: the other captures, the record and the
audio of this one, its transcript file once there is one, and the provider. -/
structure Extends (id : String) (before after : World) : Prop where
  others : ∀ other, other ≠ id → after.captures.lookup other = before.captures.lookup other
  identity : (after.captures.lookup id).map (fun capture => (capture.record, capture.audio)) =
    (before.captures.lookup id).map fun capture => (capture.record, capture.audio)
  transcript : ∀ bytes, before.transcriptBytes id = some bytes →
    after.transcriptBytes id = some bytes
  asked : after.asked = before.asked

variable {uuid} {world before mi after : World} {id : String}

theorem Extends.refl (id : String) (world : World) : Extends id world world :=
  ⟨fun _ _ => rfl, rfl, fun _ h => h, rfl⟩

theorem Extends.trans (h : Extends id before mi) (h' : Extends id mi after) :
    Extends id before after :=
  ⟨fun o hn => (h'.others o hn).trans (h.others o hn), h'.identity.trans h.identity,
    fun b hb => h'.transcript b (h.transcript b hb), h'.asked.trans h.asked⟩

theorem Extends.intact (h : Extends id before after) (hb : Intact uuid before) :
    Intact uuid after := by
  intro o c hc
  by_cases ho : o = id
  · subst ho
    have hi := h.identity
    rw [hc, map_some] at hi
    obtain ⟨f, hf, heq⟩ := map_eq_some_iff.mp hi.symm
    obtain ⟨hr, ha⟩ := Prod.mk.inj heq
    rw [← hr, ← ha]
    exact hb o f hf
  · exact hb o c ((h.others o ho).symm.trans hc)

/-- A change that keeps the record, the audio and a transcript file that is there. -/
theorem extends_modify {ch : Capture → Capture} (h : ∀ c, (ch c).record = c.record ∧
      (ch c).audio = c.audio) (ht : ∀ b, world.transcriptBytes id = some b → ∀ c,
      (ch c).transcript = c.transcript) : Extends id world (world.modify id ch) := by
  refine ⟨fun o hn => lookup_modify_ne hn, ?_, ?_, asked_modify⟩
  · rw [lookup_modify_self, Option.map_map]
    congr 1
    funext c
    exact Prod.ext (h c).1 (h c).2
  · intro b hb
    rw [transcriptBytes, lookup_modify_self, Option.bind_map, ← hb, transcriptBytes]
    congr 1
    funext c
    exact ht b hb c

theorem Intact.capture (h : Intact uuid world) {c : Capture}
    (hc : world.captures.lookup id = some c) : world.capture uuid id = .ok c := by
  obtain ⟨-, hv, e, he, ha⟩ := h id c hc
  simp [World.capture, hv, hc, he, ha, require, Except.mapError, bind,
    Except.bind, pure, Except.pure]

theorem capture_ok {c : Capture} (h : world.capture uuid id = .ok c) :
    world.captures.lookup id = some c := by
  simp only [World.capture, check_ok] at h
  obtain ⟨-, h⟩ := h
  split at h
  · simp at h
  next f hf =>
  split at h
  · simp at h
  rw [check_ok] at h
  obtain rfl := Except.ok.inj h.2
  exact hf

theorem reads_capture (id : String) : Reads (Transcription.capture uuid id) world fun c =>
    world.captures.lookup id = some c :=
  reads_query fun _ h => capture_ok h

/-! ### What operations leave alone -/

variable {parse : Bytes → Option Transcript} {print : Transcript → Bytes}

/-- However an operation ends, it stays within one capture. -/
abbrev Within (id : String) (p : Action Unit) (world : World) : Prop :=
  Program.Wp p ⟨fun _ => Extends id world, fun _ => Extends id world, Extends id world⟩ world

theorem within_writeState (s : TranscriptionState) : Within id (writeState id s) world := by
  have hr := Extends.refl id world
  have hd : Extends id world (world.modify id fun capture =>
      { capture with transcription := s }) :=
    extends_modify (fun _ => ⟨rfl, rfl⟩) (fun _ _ _ => rfl)
  exact wp_write hd hr hd hr

theorem within_markCompleted : Within id (markCompleted uuid id) world := by
  have hr := Extends.refl id world
  exact (reads_capture id).wp_bind (fun _ _ => within_writeState _) (fun _ => hr) hr

theorem within_recordFailure {nm : UInt64} {m : String} {r : Bool} :
    Within id (recordFailure uuid id nm m r) world := by
  have hr := Extends.refl id world
  exact (reads_capture id).wp_bind (fun _ _ => within_writeState _) (fun _ => hr) hr

/-- Where no transcript file was at first, appending stays within the capture. -/
theorem wp_appendBytes {x : World} (ho : x.transcriptBytes id = none) {b : Bytes}
    (h : Extends id x world) : Wp (appendBytes id b)
      (.ends (Extends id x)) world := by
  induction b generalizing world with
  | nil => exact wp_pure.mpr h
  | cons byte b ih =>
    rw [appendBytes]
    have hn : Extends id x (world.modify id fun capture =>
        { capture with transcript := capture.transcript.map (· ++ [byte]) }) := by
      refine ⟨fun o he => (lookup_modify_ne he).trans (h.others o he), ?_, ?_,
        asked_modify.trans h.asked⟩
      · rw [lookup_modify_self, Option.map_map]
        exact h.identity
      · intro _ hb
        rw [ho] at hb
        exact nomatch hb
    apply wp_bind
    exact wp_write (ih hn) h hn h

theorem within_writeTranscript (hn : world.transcriptBytes id = none) (b : Bytes) :
    Within id (writeTranscript id b) world := by
  have hr := Extends.refl id world
  have hc : Extends id world (world.modify id fun capture =>
      { capture with transcript := some [] }) := by
    refine extends_modify (fun _ => ⟨rfl, rfl⟩) ?_
    intro _ hb
    rw [hn] at hb
    exact nomatch hb
  unfold writeTranscript
  apply wp_bind
  refine wp_write ?_ hr hc hr
  apply wp_bind
  refine wp_probe ?_ hc hc
  apply wp_bind
  refine (wp_appendBytes hn hc).mono ?_ (fun _ _ hs => hs) (fun _ hs => hs)
  exact fun _ s hs => wp_probe hs hs hs

theorem within_completeTranscription (t : Transcript) :
    Within id (completeTranscription uuid parse print id t) world := by
  have hr := Extends.refl id world
  unfold completeTranscription
  refine (reads_capture id).wp_bind ?_ (fun _ => hr) hr
  intro c hc
  apply wp_bind
  refine wp_ofExcept (fun _ _ => ?_) (fun _ _ => hr)
  split
  · refine (reads_query fun _ h => h).wp_bind ?_ (fun _ => hr) hr
    intro st _
    split
    · exact within_markCompleted
    · exact wp_fail.mpr hr
  · next hn =>
    have hb : world.transcriptBytes id = none := by
      rw [transcriptBytes, hc]
      simpa using hn
    apply wp_bind
    refine (within_writeTranscript hb _).mono ?_ (fun _ _ hs => hs) (fun _ hs => hs)
    intro _ s hs
    exact within_markCompleted.mono (fun _ _ hs' => hs.trans hs') (fun _ _ hs' => hs.trans hs')
      (fun _ hs' => hs.trans hs')

/-! ### What passes leave alone -/

variable (uuid parse) in
/-- A transcript is stored and can be read. -/
def Readable (world : World) (id : String) : Prop :=
  ∃ transcript, world.transcript uuid parse id = .ok transcript

variable (uuid parse) in
/-- What every pass keeps: the captures, each transcript file, and the provider's ignorance of
the captures whose transcript can be read. -/
structure Keeps (before after : World) : Prop where
  intact : Intact uuid before → Intact uuid after
  transcript : ∀ id bytes, before.transcriptBytes id = some bytes →
    after.transcriptBytes id = some bytes
  asked : ∀ id, Readable uuid parse before id → after.asked.count id = before.asked.count id

theorem readable_of_bytes {c : World} (h : Readable uuid parse before id)
    (hb : ∀ b, before.transcriptBytes id = some b →
      c.transcriptBytes id = some b) : Readable uuid parse c id := by
  obtain ⟨t, h⟩ := h
  refine ⟨t, ?_⟩
  unfold transcript at h ⊢
  obtain ⟨_, hv, h⟩ := bind_ok.mp h
  rw [hv]
  cases hf : (before.captures.lookup id).bind (·.transcript) with
  | none => simp [hf] at h
  | some b =>
    have hl := hb b hf
    rw [transcriptBytes] at hl
    rw [hf] at h
    rw [hl]
    exact h

theorem Keeps.refl (world : World) : Keeps uuid parse world world :=
  ⟨fun h => h, fun _ _ h => h, fun _ _ => rfl⟩

theorem Keeps.trans (h : Keeps uuid parse before mi) (h' : Keeps uuid parse mi after) :
    Keeps uuid parse before after := by
  refine ⟨h'.intact ∘ h.intact, fun id b hb => h'.transcript id b
    (h.transcript id b hb), fun id hr => ?_⟩
  exact (h'.asked id (readable_of_bytes hr (h.transcript id))).trans (h.asked id hr)

theorem Extends.keeps (h : Extends id before after) : Keeps uuid parse before after := by
  refine ⟨h.intact, fun o b hb => ?_, fun o _ => by rw [h.asked]⟩
  by_cases ho : o = id
  · subst ho
    exact h.transcript b hb
  · rw [transcriptBytes, h.others o ho]
    exact hb

/-- Asking the provider for a capture that has no readable transcript. -/
theorem keeps_asked (h : ¬ Readable uuid parse world id) :
    Keeps uuid parse world { world with asked := world.asked ++ [id] } := by
  refine ⟨fun hi => hi, fun _ _ hb => hb, fun o hr => ?_⟩
  have hn : id ≠ o := by
    rintro rfl
    exact h hr
  simp [count_append, hn]

section

variable {provider : Transcriber} {ms : UInt64}

theorem wp_transcribe_keeps {c : Capture} (h : ¬ Readable uuid parse world c.record.id) :
    Wp (transcribe uuid parse print provider ms c)
      (.ends (Keeps uuid parse world)) world := by
  have ha := keeps_asked h
  unfold transcribe
  apply wp_bind
  refine wp_effect ?_ (.refl world)
  dsimp only
  split
  · split
    · exact within_recordFailure.mono (fun _ _ hs => ha.trans hs.keeps)
        (fun _ _ hs => ha.trans hs.keeps) (fun _ hs => ha.trans hs.keeps)
    · exact (within_completeTranscription _).mono (fun _ _ hs => ha.trans hs.keeps)
        (fun _ _ hs => ha.trans hs.keeps) (fun _ hs => ha.trans hs.keeps)
  · exact within_recordFailure.mono (fun _ _ hs => ha.trans hs.keeps)
      (fun _ _ hs => ha.trans hs.keeps) (fun _ hs => ha.trans hs.keeps)

theorem isOk_iff_readable :
    (world.transcript uuid parse id).isOk = true ↔ Readable uuid parse world id := by
  rw [Readable]
  cases world.transcript uuid parse id <;> simp [Except.isOk, Except.toBool]

theorem wp_processCapture_keeps {c : Capture} : Wp (processCapture uuid parse print provider ms c)
      (.ends (Keeps uuid parse world)) world := by
  unfold processCapture
  split
  · exact wp_pure.mpr (.refl world)
  apply wp_bind
  refine wp_observe.mpr ?_
  dsimp only
  split
  · apply wp_bind
    exact within_markCompleted.mono (fun _ _ hs => wp_pure.mpr hs.keeps)
      (fun _ _ hs => hs.keeps) (fun _ hs => hs.keeps)
  · next hr =>
    rw [isOk_iff_readable] at hr
    apply wp_bind
    exact (wp_transcribe_keeps hr).mono (fun _ _ hs => wp_pure.mpr hs)
      (fun _ _ hs => hs) (fun _ hs => hs)

theorem wp_processCaptures_keeps {c : List Capture} {p : Nat} :
    Wp (processCaptures uuid parse print provider ms c p)
      (.ends (Keeps uuid parse world)) world := by
  induction c generalizing world p with
  | nil => exact wp_pure.mpr (.refl world)
  | cons cap xs ih =>
    rw [processCaptures]
    apply wp_bind
    refine wp_processCapture_keeps.mono ?_ (fun _ _ hs => hs) (fun _ hs => hs)
    intro a s hs
    exact ih.mono (fun _ _ hs' => hs.trans hs') (fun _ _ hs' => hs.trans hs')
      (fun _ hs' => hs.trans hs')

theorem reads_captures (ids : List String) : Reads (captures uuid ids) world fun f =>
      ∀ c ∈ f, ∃ id, world.captures.lookup id = some c := by
  induction ids with
  | nil => exact reads_pure (by simp)
  | cons id ids ih =>
    rw [captures]
    refine (reads_capture id).bind fun c hc => ?_
    refine ih.bind fun xs hr => ?_
    refine reads_pure ?_
    intro o ho
    rcases mem_cons.mp ho with rfl | ho
    · exact ⟨id, hc⟩
    · exact hr o ho

theorem reads_list : Reads (list uuid) world fun f =>
      ∀ c ∈ f, ∃ id, world.captures.lookup id = some c := by
  unfold list
  refine reads_look.bind fun ids _ => ?_
  refine (reads_captures ids).bind fun f hf => ?_
  refine reads_pure ?_
  intro c hc
  exact hf c (mem_insertionSort _ |>.mp hc)

theorem wp_processReady_keeps : Wp (processReady uuid parse print provider ms)
      (.ends (Keeps uuid parse world)) world := by
  have hr : Keeps uuid parse world world := .refl world
  exact reads_list.wp_bind (fun _ _ => wp_processCaptures_keeps) (fun _ => hr) hr

/-! ### A transcript file that was cut -/

variable (parse) in
/-- A capture's transcript file is there and cannot be read. -/
def Torn (capture : Capture) : Prop :=
  ∃ bytes, capture.transcript = some bytes ∧ parse bytes = none

/-- The provider has names and returns a text for every capture. -/
structure Transcriber.Succeeds (provider : Transcriber) : Prop where
  name : provider.name ≠ ""
  model : provider.model ≠ ""
  text : ∀ request, ∃ text, provider.transcribe request = .ok text ∧ Text.isBlank text = false

/-- However an operation ends, a capture stays as it is. -/
abbrev Stuck (id : String) (capture : Capture) {α : Type} (p : Action α) (world : World) : Prop :=
  Program.Wp p ⟨fun _ s => s.captures.lookup id = some capture,
    fun _ s => s.captures.lookup id = some capture,
    fun s => s.captures.lookup id = some capture⟩ world

theorem not_readable_of_torn {torn : Capture} (hl : world.captures.lookup id = some torn)
    (h : Torn parse torn) : ¬ Readable uuid parse world id := by
  rintro ⟨t, ht⟩
  obtain ⟨b, hb, hp⟩ := h
  unfold transcript at ht
  obtain ⟨_, -, ht⟩ := bind_ok.mp ht
  simp [hl, hb, hp] at ht

theorem stuck_completeTranscription {torn : Capture} (h : Torn parse torn)
    (hl : world.captures.lookup id = some torn) (t : Transcript) :
    Stuck id torn (completeTranscription uuid parse print id t) world := by
  have hr : ¬ Readable uuid parse world id := not_readable_of_torn hl h
  unfold completeTranscription
  refine (reads_capture id).wp_bind ?_ (fun _ => hl) hl
  intro c hc
  obtain rfl := some.inj (hl.symm.trans hc)
  apply wp_bind
  refine wp_ofExcept (fun _ _ => ?_) (fun _ _ => hl)
  obtain ⟨b, hb, -⟩ := h
  rw [hb, isSome_some, if_pos rfl]
  apply wp_bind
  refine wp_query ?_ (fun _ _ => hl) hl hl
  exact fun s hs => absurd ⟨s, hs⟩ hr

theorem stuck_processCapture (hu : provider.Succeeds) {t : Capture}
    (h : Torn parse t) (hl : world.captures.lookup id = some t) {c : Capture} :
    Stuck id t (processCapture uuid parse print provider ms c) world := by
  by_cases hi : id = c.record.id
  · subst hi
    unfold processCapture
    split
    · exact wp_pure.mpr hl
    apply wp_bind
    refine wp_observe.mpr ?_
    dsimp only
    rw [if_neg (fun hk => not_readable_of_torn hl h (isOk_iff_readable.mp hk))]
    apply wp_bind
    unfold transcribe
    apply wp_bind
    refine wp_effect ?_ hl
    obtain ⟨te, ht, hb⟩ :=
      hu.text ⟨c.record.id, c.audio, c.record.mimeType⟩
    dsimp only
    rw [ht]
    dsimp only
    rw [hb, if_neg Bool.false_ne_true]
    have ha : ({ world with asked := world.asked ++ [c.record.id] } : World).captures.lookup
        c.record.id = some t := hl
    refine (stuck_completeTranscription h ha _).mono ?_ (fun _ _ hs => hs) (fun _ hs => hs)
    exact fun _ _ hs => wp_pure.mpr hs
  · -- An operation on another capture leaves this one alone.
    have ho : ∀ s, Extends c.record.id world s → s.captures.lookup id = some t :=
      fun s hs => (hs.others id hi).trans hl
    unfold processCapture
    split
    · exact wp_pure.mpr hl
    apply wp_bind
    refine wp_observe.mpr ?_
    dsimp only
    split
    · apply wp_bind
      exact within_markCompleted.mono (fun _ s hs => wp_pure.mpr (ho s hs))
        (fun _ s hs => ho s hs) (fun s hs => ho s hs)
    · apply wp_bind
      unfold transcribe
      apply wp_bind
      refine wp_effect ?_ hl
      obtain ⟨te, ht, hb⟩ :=
        hu.text ⟨c.record.id, c.audio, c.record.mimeType⟩
      dsimp only
      rw [ht]
      dsimp only
      rw [hb, if_neg Bool.false_ne_true]
      have hla : ∀ s, Extends c.record.id { world with asked := world.asked ++ [c.record.id] } s →
          s.captures.lookup id = some t :=
        fun s hs => (hs.others id hi).trans hl
      exact (within_completeTranscription _).mono (fun _ s hs => wp_pure.mpr (hla s hs))
        (fun _ s hs => hla s hs) (fun s hs => hla s hs)

theorem stuck_processCaptures (hu : provider.Succeeds) {t : Capture} (h : Torn parse t)
    (hl : world.captures.lookup id = some t) {c : List Capture} {p : Nat} :
    Stuck id t (processCaptures uuid parse print provider ms c p) world := by
  induction c generalizing world p with
  | nil => exact wp_pure.mpr hl
  | cons cap xs ih =>
    rw [processCaptures]
    apply wp_bind
    refine (stuck_processCapture hu h hl).mono ?_ (fun _ _ hs => hs) (fun _ hs => hs)
    exact fun _ _ hs => ih hs

/-- No pass with a provider that succeeds changes a capture whose transcript file was cut. -/
theorem stuck_processReady (hs : provider.Succeeds) {t : Capture}
    (h : Torn parse t) (hl : world.captures.lookup id = some t) :
    Stuck id t (processReady uuid parse print provider ms) world :=
  reads_list.wp_bind (fun _ _ => stuck_processCaptures hs h hl) (fun _ => hl)
    hl

/-! ### Passes that nothing interrupts -/

/-- A capture is completed. -/
def Completed (world : World) (id : String) : Prop :=
  ∃ capture, world.captures.lookup id = some capture ∧ capture.transcription.status = "completed"

theorem Extends.lookup (h : Extends id before after) {c : Capture}
    (hl : before.captures.lookup id = some c) : ∃ l, after.captures.lookup id = some l := by
  have hi := h.identity
  rw [hl, map_some] at hi
  obtain ⟨l, ha, -⟩ := map_eq_some_iff.mp hi
  exact ⟨l, ha⟩

theorem returns_markCompleted (h : Intact uuid world) {c : Capture}
    (hl : world.captures.lookup id = some c) :
    ∃ after, Returns (markCompleted uuid id) world () after ∧ Completed after id := by
  have hc : Returns (Transcription.capture uuid id) world c world :=
    returns_query _ _ (h.capture hl)
  refine ⟨_, returns_bind hc (returns_write _ _ _), ?_⟩
  exact ⟨_, by rw [lookup_modify_self, hl]; rfl, rfl⟩

theorem returns_appendBytes (b : Bytes) (world : World) :
    ∃ after, Returns (appendBytes id b) world () after := by
  induction b generalizing world with
  | nil => exact ⟨world, returns_pure _ _⟩
  | cons byte b ih =>
    obtain ⟨after, ha⟩ := ih (world.modify id fun capture =>
      { capture with transcript := capture.transcript.map (· ++ [byte]) })
    exact ⟨after, returns_bind (returns_write _ _ _) ha⟩

theorem returns_writeTranscript (id : String) (b : Bytes) (world : World) :
    ∃ after, Returns (writeTranscript id b) world () after := by
  obtain ⟨after, ha⟩ := returns_appendBytes b (world.modify id fun capture =>
    { capture with transcript := some [] })
  refine ⟨after, returns_bind (returns_write _ _ _) ?_⟩
  refine returns_bind (returns_probe _ _) ?_
  exact returns_bind ha (returns_probe _ _)

variable (parse print) in
theorem returns_completeTranscription (h : Intact uuid world) {c : Capture}
    (hl : world.captures.lookup id = some c) (hn : c.transcript = none) (hs : provider.Succeeds)
    (ho : ms ≠ 0) {t : String} (ht : Text.isBlank t = false) :
    ∃ after, Returns (completeTranscription uuid parse print id
      (provider.transcript id ms t)) world () after ∧ Completed after id := by
  have hb : world.transcriptBytes id = none := by
    rw [transcriptBytes, hl]
    exact hn
  obtain ⟨w, hw⟩ := returns_writeTranscript id
    (print (provider.transcript id ms t) ++ utf8 "\n") world
  have he := Wp.returns (within_writeTranscript hb _) hw
  obtain ⟨l, hla⟩ := he.lookup hl
  obtain ⟨after, ha, hd⟩ := returns_markCompleted (he.intact h) hla
  refine ⟨after, ?_, hd⟩
  unfold completeTranscription
  refine returns_bind (returns_query _ _ (h.capture hl)) ?_
  refine returns_bind (returns_ofExcept (a := ()) (require_ok.mpr ?_) _) ?_
  · simp [Transcriber.transcript, hs.name, hs.model, ht, ho]
  · rw [hn, isSome_none, if_neg Bool.false_ne_true]
    exact returns_bind hw ha

/-- An uninterrupted attempt at a capture that is ready and not torn completes it. -/
theorem returns_processCapture (h : Intact uuid world) {c : Capture}
    (hl : world.captures.lookup c.record.id = some c) (ht : ¬ Torn parse c)
    (hre : c.transcription.ready ms = true) (hs : provider.Succeeds) (ho : ms ≠ 0) :
    ∃ after, Returns (processCapture uuid parse print provider ms c) world 1
        after ∧ Completed after c.record.id ∧ Intact uuid after ∧ ∀ o, o ≠ c.record.id →
        after.captures.lookup o = world.captures.lookup o := by
  unfold processCapture
  rw [hre, Bool.not_true, if_neg Bool.false_ne_true]
  by_cases hr : Readable uuid parse world c.record.id
  · obtain ⟨after, hf, hd⟩ := returns_markCompleted h hl
    have he := Wp.returns within_markCompleted hf
    refine ⟨after, ?_, hd, he.intact h, he.others⟩
    refine returns_bind (returns_observe _ _) ?_
    rw [if_pos (isOk_iff_readable.mpr hr)]
    exact returns_bind hf (returns_pure _ _)
  · have hn : c.transcript = none := by
      cases hb : c.transcript with
      | none => rfl
      | some bs =>
        cases hp : parse bs with
        | none => exact absurd ⟨bs, hb, hp⟩ ht
        | some t =>
          refine absurd ⟨t, ?_⟩ hr
          obtain ⟨-, hv, -⟩ := h _ c hl
          simp [transcript, hv, hl, hb, hp, Except.mapError, bind, Except.bind, pure, Except.pure]
    obtain ⟨te, hte, hbl⟩ :=
      hs.text ⟨c.record.id, c.audio, c.record.mimeType⟩
    let asked : World := { world with asked := world.asked ++ [c.record.id] }
    have ha : Intact uuid asked := h
    obtain ⟨after, hf, hd⟩ := returns_completeTranscription parse print ha hl hn hs ho hbl
    have he := Wp.returns (within_completeTranscription _) hf
    refine ⟨after, ?_, hd, he.intact ha, he.others⟩
    refine returns_bind (returns_observe _ _) ?_
    rw [if_neg (fun hk => hr (isOk_iff_readable.mp hk))]
    refine returns_bind (b := ()) ?_ (returns_pure _ _)
    unfold transcribe
    refine returns_bind (returns_effect _ _) ?_
    rw [hte]
    dsimp only
    rw [hbl, if_neg Bool.false_ne_true]
    exact hf

/-- An uninterrupted pass over listed captures completes those that are ready. -/
theorem returns_processCaptures (hs : provider.Succeeds) (hw : ms ≠ 0) {ca : List Capture}
    (h : Intact uuid world) (hl : ∀ c ∈ ca, world.captures.lookup c.record.id = some c)
    (hdi : (ca.map (·.record.id)).Nodup) (ht : ∀ c ∈ ca, c.transcription.ready ms = true →
      ¬ Torn parse c) (p : Nat) : ∃ a after, Returns
        (processCaptures uuid parse print provider ms ca p) world a after ∧
      (∀ c ∈ ca, c.transcription.ready ms = true → Completed after c.record.id) ∧
      ∀ id ∉ ca.map (·.record.id), after.captures.lookup id = world.captures.lookup id := by
  induction ca generalizing world p with
  | nil => exact ⟨p, world, returns_pure _ _, by simp, fun _ _ => rfl⟩
  | cons c xs ih =>
    rw [map_cons, nodup_cons] at hdi
    obtain ⟨hn, he⟩ := hdi
    have hst : ∃ a mi, Returns (processCapture uuid parse print provider ms c) world a mi ∧
        (c.transcription.ready ms = true → Completed mi c.record.id) ∧
        Intact uuid mi ∧ ∀ o, o ≠ c.record.id → mi.captures.lookup o = world.captures.lookup o := by
      by_cases hr : c.transcription.ready ms = true
      · obtain ⟨mi, hm, hd, hi, hot⟩ := returns_processCapture h (hl c mem_cons_self)
          (ht c mem_cons_self hr) hr hs hw
        exact ⟨1, mi, hm, fun _ => hd, hi, hot⟩
      · refine ⟨0, world, ?_, fun h => absurd h hr, h, fun _ _ => rfl⟩
        rw [Bool.not_eq_true] at hr
        rw [processCapture, hr]
        exact returns_pure _ _
    obtain ⟨a, mi, hm, hd, hi, hot⟩ := hst
    have hla : ∀ o ∈ xs, mi.captures.lookup o.record.id = some o := by
      intro o ho
      have hne : o.record.id ≠ c.record.id :=
        fun heq => hn (mem_map.mpr ⟨o, ho, heq⟩)
      exact (hot _ hne).trans (hl o (mem_cons_of_mem _ ho))
    obtain ⟨t, after, ha, hc, hk⟩ := ih hi hla he (fun o ho => ht o (mem_cons_of_mem _ ho)) (p + a)
    refine ⟨t, after, returns_bind hm ha, ?_, ?_⟩
    · intro o ho hr
      rcases mem_cons.mp ho with rfl | ho
      · obtain ⟨f, hf, hsta⟩ := hd hr
        exact ⟨f, (hk _ hn).trans hf, hsta⟩
      · exact hc o ho hr
    · intro id hid
      rw [map_cons, mem_cons, not_or] at hid
      exact (hk id hid.2).trans (hot id hid.1)

theorem returns_captures (h : Intact uuid world) {ids : List String}
    (hi : ∀ id ∈ ids, id ∈ world.captures) : ∃ f, Returns (captures uuid ids) world f world ∧
      f.map (·.record.id) = ids ∧ ∀ c ∈ f, world.captures.lookup c.record.id = some c := by
  induction ids with
  | nil => exact ⟨[], returns_pure _ _, rfl, by simp⟩
  | cons id ids ih =>
    obtain ⟨c, hc⟩ := isSome_iff_exists.mp (AList.lookup_isSome.mpr (hi id mem_cons_self))
    obtain ⟨xs, hr, hm, hl⟩ := ih fun o ho =>
      hi o (mem_cons_of_mem _ ho)
    obtain ⟨hd, -⟩ := h id c hc
    refine ⟨c :: xs, ?_, by rw [map_cons, hd, hm], ?_⟩
    · refine returns_bind (returns_query _ _ (h.capture hc)) ?_
      exact returns_bind hr (returns_pure _ _)
    · intro o ho
      rcases mem_cons.mp ho with rfl | ho
      · rw [hd]
        exact hc
      · exact hl o ho

/-- An uninterrupted listing has every capture once. -/
theorem returns_list (h : Intact uuid world) : ∃ f, Returns (list uuid) world f world ∧
      (f.map (·.record.id)).Nodup ∧ (∀ c ∈ f, world.captures.lookup c.record.id = some c) ∧
      ∀ id c, world.captures.lookup id = some c → c ∈ f := by
  have hk : ∀ id ∈ world.captures.keys.filter fun id => (validateId uuid id).isOk,
      id ∈ world.captures := fun id hi => AList.mem_keys.mpr (mem_of_mem_filter hi)
  obtain ⟨f, hf, hm, hl⟩ := returns_captures h hk
  have hp := perm_insertionSort (·.record.Upto ·.record) f
  refine ⟨f.insertionSort (·.record.Upto ·.record), ?_, ?_, ?_, ?_⟩
  · refine returns_bind (returns_query _ _ rfl) ?_
    exact returns_bind hf (returns_pure _ _)
  · rw [(hp.map _).nodup_iff, hm]
    exact world.captures.nodupKeys.filter _
  · exact fun c hc => hl c (hp.mem_iff.mp hc)
  · intro id c hc
    rw [hp.mem_iff]
    obtain ⟨hi, hv, -⟩ := h id c hc
    have he : c.record.id ∈ f.map (·.record.id) := by
      rw [hm, hi, mem_filter, hv]
      refine ⟨?_, rfl⟩
      rw [← AList.mem_keys, ← AList.lookup_isSome, hc]
      rfl
    obtain ⟨o, ho, heq⟩ := mem_map.mp he
    have hs := hl o ho
    rw [heq, hi, hc] at hs
    rw [some.inj hs]
    exact ho

/-- An uninterrupted pass completes every capture that is ready, unless one of them has a
transcript file that was cut. -/
theorem returns_processReady (h : Intact uuid world) (hs : provider.Succeeds) (hn : ms ≠ 0)
    (ht : ∀ id c, world.captures.lookup id = some c →
      c.transcription.ready ms = true → ¬ Torn parse c) :
    ∃ a after, Returns (processReady uuid parse print provider ms) world a after ∧
      ∀ id c, world.captures.lookup id = some c →
        c.transcription.ready ms = true → Completed after id := by
  obtain ⟨f, hf, hi, hl, ha⟩ := returns_list h
  obtain ⟨a, after, haft, hd, -⟩ := returns_processCaptures hs hn h hl
    hi (fun c hc => ht _ c (hl c hc)) 0
  refine ⟨a, after, returns_bind hf haft, ?_⟩
  intro id c hc hr
  obtain ⟨hid, -⟩ := h id c hc
  rw [← hid]
  exact hd c (ha id c hc) hr

end

/-! ### Runs -/

section

variable (uuid parse print)

/-- One pass, with the provider and the time it has and what befalls it. -/
def pass (world : World) (event : (Transcriber × UInt64) × List Fault) : World :=
  (processReady uuid parse print event.1.1 event.1.2).leaves event.2 world

/-- Some uninterrupted passes with a provider bring the captures that are ready to completed. -/
def Recovers (provider : Transcriber) (nowMs : UInt64) (world : World) : Prop :=
  ∃ times : List UInt64, ∀ id capture, world.captures.lookup id = some capture →
    capture.transcription.ready nowMs = true →
    Completed (times.foldl (fun world time => pass uuid parse print world ((provider, time), []))
      world) id

variable {uuid parse print}

theorem pass_keeps (e : (Transcriber × UInt64) × List Fault) (world : World) :
    Keeps uuid parse world (pass uuid parse print world e) :=
  wp_processReady_keeps.leaves e.2

theorem passes_keep (es : List ((Transcriber × UInt64) × List Fault)) (world : World) :
    Keeps uuid parse world (es.foldl (pass uuid parse print) world) := by
  induction es generalizing world with
  | nil => exact .refl world
  | cons e es ih => exact (pass_keeps e world).trans (ih _)

/-- However many passes follow, a capture whose transcript file was cut stays as it is. -/
theorem torn_stays {provider : Transcriber} (hs : provider.Succeeds) {torn : Capture}
    (h : Torn parse torn) (t : List UInt64) (hl : world.captures.lookup id = some torn) :
    (t.foldl (fun world ti => pass uuid parse print world ((provider, ti), []))
      world).captures.lookup id = some torn := by
  induction t generalizing world with
  | nil => exact hl
  | cons ti t ih => exact ih ((stuck_processReady hs h hl).leaves [])

theorem status_of_ready {s : TranscriptionState} {nm : UInt64}
    (h : s.ready nm = true) : s.status ≠ "completed" := by
  intro hs
  simp [TranscriptionState.ready, hs] at h

/-- A ready capture whose transcript file was cut never completes. -/
theorem not_recovers_of_torn {provider : Transcriber} (hs : provider.Succeeds)
    {nm : UInt64} {torn : Capture} (hl : world.captures.lookup id = some torn)
    (hr : torn.transcription.ready nm = true) (h : Torn parse torn) :
    ¬ Recovers uuid parse print provider nm world := by
  rintro ⟨t, ht⟩
  obtain ⟨f, hf, hst⟩ := ht id torn hl hr
  rw [torn_stays hs h t hl] at hf
  obtain rfl := some.inj hf
  exact status_of_ready hr hst

variable (uuid parse print) in
/-- After any passes, cut anywhere, later passes with a provider that succeeds bring every
ready capture to completed exactly when none of them has a transcript file that cannot be
read. No transcript file is ever rewritten, and the provider is not asked again for a capture
whose transcript can be read. -/
theorem transcription_survives (world : World) (h : Intact uuid world)
    (earlier later : List ((Transcriber × UInt64) × List Fault)) :
    (∀ provider : Transcriber, provider.Succeeds → ∀ nowMs, nowMs ≠ 0 →
      (Recovers uuid parse print provider nowMs (earlier.foldl (pass uuid parse print) world) ↔
        ∀ id capture,
          (earlier.foldl (pass uuid parse print) world).captures.lookup id = some capture →
          capture.transcription.ready nowMs = true → ¬ Torn parse capture)) ∧ (∀ id bytes,
      (earlier.foldl (pass uuid parse print) world).transcriptBytes id = some bytes →
      ((earlier ++ later).foldl (pass uuid parse print) world).transcriptBytes id = some bytes) ∧
    (∀ id, Readable uuid parse (earlier.foldl (pass uuid parse print) world) id →
      ((earlier ++ later).foldl (pass uuid parse print) world).asked.count id =
        (earlier.foldl (pass uuid parse print) world).asked.count id) := by
  have hi : Intact uuid (earlier.foldl (pass uuid parse print) world) :=
    (passes_keep earlier world : Keeps uuid parse world _).intact h
  have hk : Keeps uuid parse (earlier.foldl (pass uuid parse print) world)
      ((earlier ++ later).foldl (pass uuid parse print) world) := by
    rw [foldl_append]
    exact passes_keep later _
  refine ⟨?_, hk.transcript, hk.asked⟩
  intro provider hs nowMs hn
  constructor
  · intro he id capture hl hr ht
    exact not_recovers_of_torn hs hl hr ht he
  · intro ht
    obtain ⟨a, after, ha, hd⟩ :=
      returns_processReady hi hs hn ht
    refine ⟨[nowMs], fun id capture hl hr => ?_⟩
    rw [foldl_cons, foldl_nil, pass, ha.leaves]
    exact hd id capture hl hr

end

end

/-! ### A pass that is cut inside a transcript -/

def sampleId : String := "00000000-0000-4000-8000-000000000001"

/-- A provider that hears the same in every capture. -/
def sampleProvider : Transcriber := ⟨"provider", "model", fun _ => .ok "hello"⟩

/-- The JSON of the only transcript of the sample. -/
def sampleJson : Bytes :=
  utf8 "\x7b\n  \"schema_version\": 1,\n  \"capture_id\": \"00000000-0000-4000-8000-000000000001\"," ++
  utf8 "\n  \"provider\": \"provider\",\n  \"model\": \"model\",\n  \"created_at_ms\": 1," ++
  utf8 "\n  \"text\": \"hello\"\n\x7d"

/-- The JSON of the sample with or without its line end, and nothing else, can be read. -/
def sampleParse (bytes : Bytes) : Option Transcript :=
  if bytes = sampleJson ∨ bytes = sampleJson ++ utf8 "\n" then
    some (sampleProvider.transcript sampleId 1 "hello")
  else none

/-- One pending capture. -/
def sampleWorld : World :=
  ⟨AList.insert sampleId
    ⟨⟨sampleId, 1, "audio/ogg"⟩, ⟨"pending", 0, none, none⟩, "audio.ogg", none⟩ ∅, []⟩

/-- The process stops after the first byte of the transcript. -/
def cutPass : (Transcriber × UInt64) × List Fault :=
  ((sampleProvider, 1), List.replicate 7 .none ++ [.crash])

private theorem intact_sampleWorld : Intact some sampleWorld := by
  intro id c hl
  by_cases hi : id = sampleId
  · subst hi
    obtain rfl := some.inj ((AList.lookup_insert _).symm.trans hl)
    exact ⟨rfl, by decide +kernel, "ogg", rfl, rfl⟩
  · rw [sampleWorld, AList.lookup_insert_ne hi] at hl
    simp at hl

private theorem sampleProvider_succeeds : sampleProvider.Succeeds :=
  ⟨by decide, by decide, fun _ => ⟨"hello", rfl, by decide +kernel⟩⟩

/-- A pass that is not cut completes the capture. -/
theorem transcription_survives_uncut :
    Recovers some sampleParse (fun _ => sampleJson) sampleProvider 1 sampleWorld := by
  refine ((transcription_survives some sampleParse (fun _ => sampleJson) sampleWorld
    intact_sampleWorld [] []).1 sampleProvider sampleProvider_succeeds 1 (by decide)).mpr ?_
  intro id c hl _ ht
  by_cases hi : id = sampleId
  · subst hi
    obtain rfl := some.inj ((AList.lookup_insert _).symm.trans hl)
    obtain ⟨b, hb, -⟩ := ht
    simp at hb
  · rw [foldl_nil, sampleWorld, AList.lookup_insert_ne hi] at hl
    simp at hl

/-- After a crash inside the transcript no later pass completes the capture. -/
theorem cut_transcript_blocks :
    (pass some sampleParse (fun _ => sampleJson) sampleWorld cutPass).transcriptBytes sampleId =
        some (utf8 "\x7b") ∧ ¬ Recovers some sampleParse (fun _ => sampleJson) sampleProvider 1
        (pass some sampleParse (fun _ => sampleJson) sampleWorld cutPass) := by
  have hc : ((pass some sampleParse (fun _ => sampleJson) sampleWorld cutPass).captures.lookup
      sampleId) = some ⟨⟨sampleId, 1, "audio/ogg"⟩, ⟨"pending", 0, none, none⟩, "audio.ogg",
        some (utf8 "\x7b")⟩ := by decide +kernel
  constructor
  · rw [transcriptBytes, hc]
    rfl
  · exact not_recovers_of_torn sampleProvider_succeeds hc (by decide) ⟨_, rfl, by decide +kernel⟩

end Louiselm.Transcription
