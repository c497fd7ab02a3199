import Louiselm.Workflow.BeadSteps

/-!
# Only verified and accepted Beads count

`lua/louiselm/workflow/beads.lua`: what holds in every state of any run. A Bead can be accepted
without a completed verification only by way of a reply that says that the commands passed and
nothing about how the verification stands.
-/

namespace Louiselm.Workflow.Beads
open Base Base.Lua List
open Routing.Qualification (under)
open Session (object)
open Options Controller

variable {rt : Runtime} {options : Options} {c : Controller} {job : Job} {req : Option Value}

namespace Controller

/-! ### Runs -/

/-- What any callback does keeps what holds between events. -/
theorem handle_inv {co : Cont} {a : Args} (ha : c.status = .active)
    (h : Poised rt options (co, req) c) (hl : ⟨co, req, a, c.head⟩ ∈ c.log) :
    Inv rt options (c.handle rt options co a) := by
  cases co with
  | authorizedRun => exact h.authorized "run" a (onAuthorizedRun_inv h)
  | admitted => exact onAdmitted_inv ha h
  | prepared => exact onPrepared_inv h hl
  | staged job b => exact onStaged_inv h rfl (fun hf => hf) _
  | authorizedWorker => exact h.authorized "session" a (onAuthorizedWorker_inv h)
  | ready job completed => exact onReady_inv h.inv completed a
  | attached job completed => exact onAttached_inv h.inv completed a
  | completed => exact onCompleted_inv h hl
  | endedStatus job ind =>
    have hv : Poised rt options (.verifying job ind, none) c :=
      h.next rfl fun hf => hf
    exact h.authorized "provider_status" a fun _ => hv.advance
  | verifying job ind =>
    show Inv rt options (if _ then _ else _)
    split
    · exact stop_inv h.1 _
    · exact verifyWorker_inv ind h
  | polled =>
    refine h.authorized "provider_status" a fun _ => ?_
    split
    · exact h.inv.unseen _ _ _ _ _
    · exact h.inv
  | inspected job ind => exact onInspected_inv h rfl ind _
  | parked job ind => exact onParked_inv h rfl ind _
  | exported => exact onExported_inv h rfl _
  | authorizedVerifier job exported =>
    exact h.authorized "session" a fun r => onAuthorizedVerifier_inv exported r h
  | verifierReady job exported => exact onVerifierReady_inv exported a h
  | verifierInspected job exported => exact onVerifierInspected_inv h rfl exported _
  | executed => exact onExecuted_inv h rfl
  | status => exact onStatus_inv h hl
  | decided => exact onDecided_inv ha h hl
  | previewed => exact onPreviewed_inv h hl
  | approved => exact onApproved_inv h _
  | committed => exact onCommitted_inv h hl
  | promoted => exact onPromoted_inv ha h _
  | commented => exact h.authorized "bead_failure" a (onCommented_inv ha h)
  | advanced => exact onAdvanced_inv ha h

theorem run_inv (h : Inv rt options c) (id : Nat) : Inv rt options (c.run rt options id) := by
  unfold run
  split
  next b co req o a hf =>
    have ht : Poised rt options (co, req)
        { c with boundaries := c.boundaries.filter (·.id != id) } :=
      ⟨h.1, fun ha => (h.2 ha).take hf⟩
    dsimp only
    split
    · exact ht.inv
    next ha =>
    split
    · exact fail_inv ht.1 _
    · exact handle_inv (by simpa using ha) (ht.later ⟨co, req, a, c.head⟩) mem_cons_self
  · exact h

/-- A started controller keeps what holds between events. -/
theorem step_inv (h : Inv rt options c) (event : Event) :
    Inv rt options (c.step rt options event) := by
  cases event with
  | start api answers =>
    have hs : (c.step rt options (.start api answers)) = { c with answers } := by
      show start rt options api { c with answers } = _
      rw [start, if_pos h.1.begun]
    rw [hs]
    exact h.unseen _ _ _ _ _
  | call id args =>
    show Inv rt options (c.callBack (id, args))
    unfold callBack
    split
    · exact h.call _ _
    · exact h
  | run id answers =>
    exact run_inv (h.unseen c.runStatus c.envelopeDigest c.watches c.poll answers) id
  | timer watch answers =>
    have hn := h.unseen c.runStatus c.envelopeDigest c.watches c.poll answers
    show Inv rt options (expire rt options watch { c with answers })
    unfold expire
    split
    · dsimp only
      have hf : ∀ watches, Inv rt options { c with answers, watches } := fun watches =>
        h.unseen c.runStatus c.envelopeDigest watches c.poll answers
      split
      · exact Poised.providerStatus fun _ => (hf _).poised rfl
      · exact hf _
    · exact hn
  | deliver =>
    show Inv rt options c.deliver
    unfold deliver
    split
    · exact h
    next ok error hc =>
      have ho := h.1.once
      refine ⟨{ h.1 with
          once := ?_
          told := fun _ ht => absurd ht (by simp)
          reported := fun report hr => ?_ }, fun ha =>
        { single := (h.2 ha).single
          fits := (h.2 ha).fits
          blank := (h.2 ha).blank }⟩
      · rw [hc] at ho
        simp only [Option.toList_some, length_singleton] at ho
        show c.callback.toNat + 0 + (c.reports.length + 1) ≤ 1
        omega
      · rcases mem_cons.mp hr with rfl | hr
        · exact ⟨rfl, rfl, fun hk => h.1.told error (by
            have hk : ok = true := hk
            rw [hc, hk])⟩
        · exact h.1.reported report hr
  | runStatus status => exact h.unseen _ _ _ _ _
  | dispose => exact dispose_inv h

/-- A controller to which nothing has happened yet. -/
def Fresh (options : Options) (c : Controller) : Prop :=
  ∃ runStatus answers, c = { options.controller with runStatus, answers }

theorem Fresh.core (h : Fresh options c) (status : Status) (callback : Bool) (hn : status ≠ .new)
    (ha : status = .active → callback = true) : Core rt options { c with status, callback } := by
  obtain ⟨runStatus, answers, rfl⟩ := h
  exact
    { begun := hn
      settled := Settled.nil _
      warranted := fun id hi => absurd hi (by simp [controller])
      order := by simp [controller]
      ahead := by simp [controller]
      once := by cases callback <;> simp [controller]
      waiting := ha
      told := fun error ht => absurd ht (by simp [controller])
      reported := fun report hr => absurd hr (by simp [controller]) }

theorem start_inv (h : Fresh options c) (api : Except String Unit) :
    Inv rt options (c.start rt options api) := by
  have hc : Core rt options { c with status := .active, callback := true } :=
    h.core .active true (by simp) fun _ => rfl
  obtain ⟨runStatus, answers, rfl⟩ := h
  unfold start
  rw [if_neg (by simp [controller])]
  dsimp only
  split
  · exact fail_inv hc _
  · have ha : ∀ req, Poised rt options (.authorizedRun, some req)
        { options.controller with runStatus, answers, status := .active, callback := true } :=
      fun req => ⟨hc, fun _ =>
        { main := fun _ => ⟨fun item hi => absurd hi (by simp [waiting, controller]),
            rfl, rfl, rfl⟩
          side := fun hs => absurd hs (by simp [isMain])
          blank := fun _ _ => ⟨rfl, rfl⟩ }⟩
    exact (ha _).authorize

theorem fresh_step (h : Fresh options c) (event : Event) :
    Fresh options (c.step rt options event) ∨ Inv rt options (c.step rt options event) := by
  obtain ⟨runStatus, answers, rfl⟩ := h
  cases event with
  | start api answers => exact .inr (start_inv ⟨runStatus, answers, rfl⟩ api)
  | call | deliver => exact .inl ⟨runStatus, answers, rfl⟩
  | run id answers => exact .inl ⟨runStatus, answers, rfl⟩
  | timer watch answers => exact .inl ⟨runStatus, answers, rfl⟩
  | runStatus status => exact .inl ⟨status, answers, rfl⟩
  | dispose =>
    refine .inr ?_
    show Inv rt options (dispose _)
    rw [dispose, if_neg (by simp [controller])]
    have hd : Fresh options
        { options.controller with runStatus := .disposed, answers } := ⟨_, _, rfl⟩
    exact fail_inv (hd.core .disposed false (by simp) (by simp)) _

/-- Every controller that a run leads to is fresh, or keeps what holds between events. -/
theorem after_inv (rt : Runtime) (options : Options) (es : List Event) :
    Fresh options (options.controller.after rt options es) ∨
    Inv rt options (options.controller.after rt options es) := by
  have hr : ∀ (es : List Event) (c : Controller), Fresh options c ∨ Inv rt options c →
      Fresh options (c.after rt options es) ∨ Inv rt options (c.after rt options es) := by
    intro es
    induction es with
    | nil => exact fun c h => h
    | cons e es ih =>
      intro c h
      exact ih _ (h.elim (fun h => fresh_step h e) fun h => .inr (step_inv h e))
  exact hr es _ (.inl ⟨.active, [], rfl⟩)

/-! ### After the end -/

theorem kept_response (co : Cont) (req : Option Value) (o : Bool) : Kept c (c.response co req o) :=
  ⟨rfl, rfl, rfl, fun hr => hr⟩

theorem kept_authorize (req : Value) (co : Cont) : Kept c (c.authorize rt req co) := by
  unfold authorize
  split
  · exact kept_finish _ _
  · dsimp only
    split
    · exact (kept_response _ _ _).trans kept_external
    · exact ((kept_response _ _ _).trans kept_external).trans (kept_finish _ _)

/-- A controller that has ended settles no more Beads, and does not start again. -/
theorem ended_step (rt : Runtime) (options : Options) (hn : c.status ≠ .new)
    (ha : c.status ≠ .active) (event : Event) :
    (c.step rt options event).summary = c.summary ∧ (c.step rt options event).status ≠ .new ∧
      (c.step rt options event).status ≠ .active := by
  cases event with
  | start api answers =>
    show (start rt options api { c with answers }).summary = _ ∧ _
    rw [step, start, if_pos hn]
    exact ⟨rfl, hn, ha⟩
  | call id args =>
    obtain ⟨boundaries, hc, -⟩ := callBack_eq (c := c) (id, args)
    show (c.callBack (id, args)).summary = _ ∧ (c.callBack (id, args)).status ≠ _ ∧
      (c.callBack (id, args)).status ≠ _
    rw [hc]
    exact ⟨rfl, hn, ha⟩
  | run id answers =>
    simp only [step, run]
    split
    · rw [if_pos ha]
      exact ⟨rfl, hn, ha⟩
    · exact ⟨rfl, hn, ha⟩
  | timer watch answers =>
    simp only [step, expire]
    split
    · rw [if_neg fun h => ha h.2]
      exact ⟨rfl, hn, ha⟩
    · exact ⟨rfl, hn, ha⟩
  | deliver =>
    simp only [step, deliver]
    split <;> exact ⟨rfl, hn, ha⟩
  | runStatus status => exact ⟨rfl, hn, ha⟩
  | dispose =>
    have hd : c.dispose.status = .disposed := by
      unfold dispose
      split
      · assumption
      · obtain ⟨watches, poll, hca⟩ := cancelHoldPoll_eq
          (c := { c with status := .disposed, runStatus := .disposed })
        simp [fail, finish, hca]
    refine ⟨kept_dispose.summary, ?_, ?_⟩
    · show c.dispose.status ≠ _
      simp [hd]
    · show c.dispose.status ≠ _
      simp [hd]

/-- A controller whose Run is not active settles no more Beads. -/
theorem stopped_step (rt : Runtime) (options : Options) (hu : c.runStatus ≠ .active)
    {event : Event} (hr : event.resumes = false) : (c.step rt options event).summary = c.summary ∧
      (c.step rt options event).runStatus ≠ .active := by
  have hk : ∀ {c' : Controller}, Kept c c' → c'.summary = c.summary ∧ c'.runStatus ≠ .active :=
    fun h => ⟨h.summary, h.runStatus hu⟩
  cases event with
  | start api answers =>
    refine hk ?_
    simp only [step, start]
    split
    · exact ⟨rfl, rfl, rfl, fun hu => hu⟩
    · have hb : Kept c { c with answers, status := .active, callback := true } :=
        ⟨rfl, rfl, rfl, fun hu => hu⟩
      split
      · exact hb.trans (kept_finish _ _)
      · exact hb.trans (kept_authorize _ _)
  | call id args =>
    obtain ⟨boundaries, hc, -⟩ := callBack_eq (c := c) (id, args)
    refine hk ?_
    show Kept c (c.callBack (id, args))
    rw [hc]
    exact ⟨rfl, rfl, rfl, fun hu => hu⟩
  | run id answers =>
    refine hk ?_
    simp only [step, run]
    split
    · split
      · exact ⟨rfl, rfl, rfl, fun hu => hu⟩
      · have ht : Kept c { c with
            answers, boundaries := c.boundaries.filter (·.id != id) } :=
          ⟨rfl, rfl, rfl, fun hu => hu⟩
        exact ht.trans (kept_finish _ _)
    · exact ⟨rfl, rfl, rfl, fun hu => hu⟩
  | timer watch answers =>
    refine hk ?_
    simp only [step, expire]
    split
    · split
      · have hf : ∀ watches, Kept c { c with answers, watches } :=
          fun _ => ⟨rfl, rfl, rfl, fun hu => hu⟩
        exact (hf _).trans (kept_authorize _ _)
      · exact ⟨rfl, rfl, rfl, fun hu => hu⟩
    · exact ⟨rfl, rfl, rfl, fun hu => hu⟩
  | deliver =>
    refine hk ?_
    simp only [step, deliver]
    split <;> exact ⟨rfl, rfl, rfl, fun hu => hu⟩
  | runStatus status =>
    refine ⟨rfl, fun ha => ?_⟩
    have ha : status = .active := ha
    subst ha
    exact absurd hr (by simp [Event.resumes])
  | dispose => exact hk kept_dispose

end Controller

/-! ### What the summary says -/

/-- What holds of a controller in any run: accepted Beads are warranted, the first Beads of the
list are settled once each and in its order, the next one starts when those before it are settled,
and completion is reported once, as a success only with all Beads settled. -/
structure Accounted (rt : Runtime) (options : Options) (c : Controller) : Prop where
  warranted : ∀ id ∈ c.summary.accepted, Warranted rt options c.log id
  settled : Settled options.beadIds c.summary.accepted c.failedIds
  distinct : (c.summary.accepted ++ c.failedIds).Nodup
  started : c.started = options.beadIds.take c.started.length
  ahead : c.started.length ≤ c.summary.accepted.length + c.failedIds.length + 1
  once : c.reports.length ≤ 1
  reported : ∀ report ∈ c.reports, report.summary.accepted = c.summary.accepted ∧
    report.summary.failed.map (·.beadId) = c.failedIds ∧
    (report.ok = true → ∀ id ∈ options.beadIds, id ∈ c.summary.accepted ∨ id ∈ c.failedIds)
  ended : c.reports ≠ [] → c.status ≠ .new ∧ c.status ≠ .active

/-- A controller settles nothing in a run that begins with it ended, or with its Run not active
and not made active again. -/
def Closed (rt : Runtime) (options : Options) (c : Controller) (events : List Event) : Prop :=
  (c.status ≠ .new ∧ c.status ≠ .active ∨
      c.runStatus ≠ .active ∧ ∀ event ∈ events, event.resumes = false) →
    (c.after rt options events).summary.accepted = c.summary.accepted ∧
      (c.after rt options events).failedIds = c.failedIds

theorem closed (es : List Event) : Closed rt options c es := by
  have hsu : (c.status ≠ .new ∧ c.status ≠ .active ∨
      c.runStatus ≠ .active ∧ ∀ e ∈ es, e.resumes = false) →
        (c.after rt options es).summary = c.summary := by
    induction es generalizing c with
    | nil => exact fun _ => rfl
    | cons e es ih =>
      rintro (⟨hn, ha⟩ | ⟨hu, hr⟩)
      · obtain ⟨hs, hn', ha'⟩ :=
          ended_step rt options hn ha e
        exact (ih (.inl ⟨hn', ha'⟩)).trans hs
      · obtain ⟨hs, hr'⟩ :=
          stopped_step rt options hu (hr e mem_cons_self)
        exact (ih (.inr ⟨hr', fun o ho =>
          hr o (mem_cons_of_mem _ ho)⟩)).trans hs
  intro h
  rw [failedIds, hsu h]
  exact ⟨rfl, rfl⟩

/-- Without a reply that says nothing, what the acceptance lets through is completed. -/
theorem Accepts.warranted {log : List Handled} (h : Accepts rt options log job LetThrough)
    (hs : ∀ x ∈ log, x.saysNothing rt = false) : Warranted rt options log job.id := by
  refine ⟨job, rfl, { h with viewed := ?_ }⟩
  obtain ⟨x, hi, hc, hr, v, hv, hp, ht⟩ := h.viewed
  refine ⟨x, hi, hc, hr, v, hv, hp, ht ?_⟩
  have ha := hs x hi
  simpa [Handled.saysNothing, Handled.passes, hc, hv, hp] using ha

theorem Controller.Inv.accounted (h : Inv rt options c)
    (hs : ∀ x ∈ c.log, x.saysNothing rt = false) : Accounted rt options c where
  warranted id hi := by
    obtain ⟨job, rfl, ha⟩ := h.1.warranted id hi
    exact ha.warranted hs
  settled := h.1.settled
  distinct := h.1.settled.disjoint options.distinct
  started := h.1.order
  ahead := h.1.ahead
  once := (Nat.le_add_left _ _).trans h.1.once
  reported report he := by
    obtain ⟨hc, hf, ho⟩ := h.1.reported report he
    exact ⟨hc, hf, fun ht id hi => h.1.settled.mem_of_length (ho ht) hi⟩
  ended hr := ⟨h.1.begun, fun hac =>
    hr (Core.unreported h.1 hac).2⟩

/-- In a run in which no reply says that the commands passed without saying how the verification
stands, only verified and accepted Beads count, and nothing counts after the end. -/
theorem only_verified_accepted (rt : Runtime) (options : Options) (events more : List Event)
    (hspoken : ∀ item ∈ (options.controller.after rt options events).log,
      item.saysNothing rt = false) :
    Accounted rt options (options.controller.after rt options events) ∧
      Closed rt options (options.controller.after rt options events) more := by
  refine ⟨?_, closed more⟩
  rcases after_inv rt options events with hf | hi
  · obtain ⟨rs, a, heq⟩ := hf
    rw [heq]
    constructor <;> simp [controller, failedIds, Settled.nil]
  · exact hi.accounted hspoken

/-! ### A verification without a status -/

namespace Sample

def digestText : String := "sha256:aaaaaaaaaaaaaaaaaaaaaaaaaaaaaaaaaaaaaaaaaaaaaaaaaaaaaaaaaaaaaaaa"

mutual

/-- The JSON of values whose texts need no escapes and whose numbers are whole. -/
def printed : Value → String
  | .bool value => if value then "true" else "false"
  | .num (.finite q) => toString q.num
  | .num _ => "null"
  | .str text => "\"" ++ text ++ "\""
  | .table fields =>
    if fields.any fun field => field.1 == .num (.ofNat 1) then
      "[" ++ ",".intercalate (printedFields fields) ++ "]"
    else joined (printedFields fields)
  | .other _ => "null"

def printedFields : List (Key × Value) → List String
  | [] => []
  | field :: fields => printedField field :: printedFields fields

def printedField : Key × Value → String
  | (.str name, value) => member name (printed value)
  | (_, value) => printed value

end

def text (value : String) : Option Value := some (.str value)
def whole (value : Nat) : Option Value := some (.num (.ofNat value))
def tableOf (fields : List (String × Option Value)) : Option Value := some (object fields)

/-- A launch request of the Run, for a worker or a verifier. -/
def launch (name : String) : Value :=
  object [("schema", text "louiselm.launch.request/3"), ("protocol_version", whole 1),
    ("request_id", text (name ++ "-request")),
    ("authorization_id", text (name ++ "-authorization")), ("session_id", text (name ++ "-1")),
    ("run_id", text "run-1"), ("agent_id", text "codex"), ("envelope_id", text "env"),
    ("envelope_revision", whole 1),
    ("skills", tableOf [("mode", text "off"), ("view_digest", text digestText)]),
    ("session_input_manifest_id", text digestText)]

def workerDigest : String := "0c217165cd37eb3feb35ceb2c02258cb58edf072d8d0a682587da210f058aa28"
def verifierDigest : String := "3e0f5a9d1af95c2bb28f357e512ed68ea6eec4c2a25bab25f75e61f92f6fb6d3"

def authorizedRun : Value :=
  object [("kind", text "run"), ("receipt", tableOf
    [("schema", text "louiselm.broker.run-authorization/1"), ("run_id", text "run-1"),
      ("envelope_revision", whole 1), ("envelope_digest", text digestText)])]

def staged : Value := object [("kind", text "staged"), ("input_digest", text digestText)]

def authorizedWorker : Value :=
  object [("kind", text "session"), ("receipt", tableOf
    [("schema", text "louiselm.broker.child-authorization/1"), ("run_id", text "run-1"),
      ("session_id", text "worker-1"), ("authorization_id", text "worker-authorization"),
      ("envelope_revision", whole 1), ("envelope_digest", text digestText),
      ("request_digest", text ("sha256:" ++ workerDigest))])]

def providerStatus : Value :=
  object [("kind", text "provider_status"), ("run_id", text "run-1"),
    ("envelope_digest", text digestText), ("hold", some (.other .userdata))]

def running : Value :=
  object [("state", text "running"), ("broker_head", tableOf [("sequence", whole 1)])]

def parked : Value := object [("kind", text "parked"), ("head", tableOf [("sequence", whole 2)])]

def exported : Value :=
  object [("kind", text "exported"), ("export_digest", text digestText),
    ("evidence", tableOf [("job", tableOf [("job_digest", text digestText)])])]

def authorizedVerifier : Value :=
  object [("kind", text "session"),
    ("receipt", tableOf [("request_digest", text ("sha256:" ++ verifierDigest))])]

def executed : Value := object [("kind", text "executed"), ("commands_passed", some (.bool true))]

/-- A status that says that the commands passed, and nothing else. -/
def silent : Value := object [("kind", text "status"), ("commands_passed", some (.bool true))]

def completed : Value :=
  object [("kind", text "status"), ("status", tableOf [("state", text "completed")]),
    ("commands_passed", some (.bool true))]

def replies : List Value :=
  [authorizedRun, staged, authorizedWorker, providerStatus, running, parked, exported,
    authorizedVerifier, executed, silent, completed]

/-- The hashes of what is hashed in this run. -/
def hashes : List (String × String) :=
  [(printed (launch "worker"), workerDigest), (printed (launch "verifier"), verifierDigest),
    ("worker-1", "13029f9e83d15b3d437c2a7568fc1ca7990ecf3ff79bef6da08f13ff5ae12af8"),
    ("verifier-1", "c5361104b4c3b75812dfeaf0ff714155a7d9d22360f5b65805b1bc7d13ef904b")]

/-- Reading, printing and hashing of what this run sends and gets. -/
def runtime : Runtime where
  decode text := replies.find? fun value => printed value == text
  encode value := .ok (printed value)
  scalar value := (value.map printed).getD "null"
  sha256 text := (hashes.lookup text).getD ""
  tostring value := (value.map printed).getD "nil"
  keyText key := printedField (key, .str "")

def oneBead : Options where
  envelope := object [("run_id", text "run-1"), ("envelope_id", text "env"),
    ("envelope_revision", whole 1), ("verification_plan_digest", text digestText)]
  runId := "run-1"
  beadIds := ["b-1"]
  agentId := "codex"
  worktree := none
  distinct := by decide

def prepared : Value :=
  object [("grant", tableOf [("request", some (launch "worker")),
      ("beads_mutations", tableOf [("issue_ids", some (Value.array [.str "b-1"])),
        ("role", text "worker")])]), ("prompt", text "Work on b-1"),
    ("verification", tableOf [("snapshot", text "/fixture/snapshot"),
      ("snapshot_digest", text digestText), ("plan", text "/fixture/plan"),
      ("plan_digest", text digestText),
      ("verifier_grant", tableOf [("request", some (launch "verifier"))])])]

/-- A command succeeds with a reply. -/
def reply (value : Value) : Args :=
  ⟨tableOf [("code", whole 0), ("stdout", text (printed value))], none⟩

def said (value : Value) : Args := ⟨some value, none⟩

/-- A callback is called, and acts. -/
def answered (id : Nat) (args : Args) : List Event := [.call id args, .run id []]

/-- A Bead is worked on, verified with this status and accepted. -/
def events (status : Value) : List Event :=
  .start (.ok ()) [] :: answered 0 (reply authorizedRun) ++ answered 1 (said (.str "token")) ++
    answered 2 (said prepared) ++ answered 3 (reply staged) ++
    answered 4 (reply authorizedWorker) ++ answered 6 (said (object [])) ++
    [.call 7 (said (.bool true)), .run 7 [⟨.ok (text "turn-1"), [], false⟩]] ++
    answered 5 ⟨none, none⟩ ++ answered 8 (reply providerStatus) ++
    answered 9 (said (.bool true)) ++ answered 10 (reply running) ++ answered 11 (reply parked) ++
    answered 12 (reply exported) ++ answered 13 (reply authorizedVerifier) ++
    answered 14 (said (object [])) ++ answered 15 (reply running) ++
    answered 16 (reply executed) ++ answered 17 (reply status) ++
    answered 18 (said (.bool true)) ++ answered 19 (said (.bool true)) ++ [.deliver]

def last (status : Value) : Controller := oneBead.controller.after runtime oneBead (events status)

end Sample

/-- With a completed verification, the Bead of the run above is accounted for. -/
theorem only_verified_accepted_sample : (Sample.last Sample.completed).summary.accepted = ["b-1"] ∧
      Accounted Sample.runtime Sample.oneBead (Sample.last Sample.completed) ∧
      Closed Sample.runtime Sample.oneBead (Sample.last Sample.completed) [.dispose] := by
  have hr : ((Sample.last Sample.completed).summary.accepted == ["b-1"] &&
      (Sample.last Sample.completed).log.all fun x => !x.saysNothing Sample.runtime) =
        true := by decide +kernel
  obtain ⟨ha, hs⟩ := Bool.and_eq_true_iff.mp hr
  exact ⟨beq_iff_eq.mp ha, only_verified_accepted Sample.runtime Sample.oneBead
    (Sample.events Sample.completed) [.dispose] fun x hi => by
      simpa using all_eq_true.mp hs x hi⟩

/-- A reply without a status has a Bead accepted whose verification nothing says completed. -/
theorem silent_status_accepted : ∃ id ∈ (Sample.last Sample.silent).summary.accepted,
      ¬Warranted Sample.runtime Sample.oneBead (Sample.last Sample.silent).log id := by
  have hr : ((Sample.last Sample.silent).summary.accepted == ["b-1"] &&
      (Sample.last Sample.silent).log.all fun x => !x.passes Sample.runtime fun s =>
        isText (under s "state") "completed") = true := by decide +kernel
  obtain ⟨hacc, hn⟩ := Bool.and_eq_true_iff.mp hr
  refine ⟨"b-1", by simp [beq_iff_eq.mp hacc], ?_⟩
  rintro ⟨job, -, ha⟩
  obtain ⟨x, hi, ho, -, v, hv, hp, hc⟩ := ha.viewed
  have hc : isText (under (v.field "status") "state") "completed" = true := hc
  have hs := all_eq_true.mp hn x hi
  simp [Handled.passes, ho, hv, hp, hc] at hs

end Louiselm.Workflow.Beads
