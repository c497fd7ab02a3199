import Louiselm.Provider.BudgetRuns

/-!
# Which holds a Run deserves

`admit_provider_request` and `settle_provider_hold` of
`skills-core/src/broker/provider_service.rs`: each Session works through locked sections of
the Run's ledger, and other Sessions and the operator act between them. What was seen in one
section may no longer hold in the next.
-/

namespace Louiselm.Provider.Budget
open Base

/-! ### Sessions -/

/-- What a Session's worker is doing: admitting a request, or settling on its idle tick. -/
inductive Work where
  | request
  | settle
deriving DecidableEq, Repr

/-- Where a Session's worker stands between two locked sections. `extensions` counts the
extensions when it read what it acts on. -/
inductive Phase where
  | idle
  | permitted (work : Work) (extensions : Nat) (expiresAtMs : UInt64)
  | checked (extensions : Nat) (expiresAtMs : UInt64)
  | spent (extensions : Nat) (expiresAtMs : UInt64)
  | exhausted (extensions : Nat)
  | expired (extensions : Nat) (atMs : UInt64)
deriving DecidableEq, Repr

/-- One section of a worker's work. A refusal that this budget takes no part in is a stop. -/
inductive Section where
  | read (work : Work)
  | check (nowMs : UInt64)
  | reserve (nowMs : UInt64)
  | lapse (nowMs : UInt64)
  | hold (nowMs : UInt64)
  | stop
deriving DecidableEq, Repr

/-- Go on, or record an expiry once the permission has lapsed. -/
def lapsed (extensions : Nat) (expiresAtMs nowMs : UInt64) (otherwise : Phase) : Phase :=
  if expiresAtMs ≤ nowMs then .expired extensions nowMs else otherwise

/-- One section of the worker of a Session whose permission expires as granted, on the ledger
of its Run; a worker that cannot go on is idle. -/
def act (runId : String) (granted : Permission) (sessionId : String) (grantedExpiry : UInt64)
    (faults : List Fault) (phase : Phase) (ledger : Ledger) : Section → Phase × Ledger
  | .read work =>
    match (readExtensions runId faults ledger).1 with
    | .value extensions =>
      (.permitted work extensions.length (extendedExpiry grantedExpiry extensions), ledger)
    | _ => (.idle, ledger)
  | .check nowMs =>
    match phase, (heldLocked runId faults ledger).1 with
    | .permitted .request extensions expiresAtMs, .value none =>
      (lapsed extensions expiresAtMs nowMs (.checked extensions expiresAtMs), ledger)
    | .permitted .settle extensions expiresAtMs, .value none =>
      (lapsed extensions expiresAtMs nowMs .idle, ledger)
    | _, _ => (.idle, ledger)
  | .reserve nowMs =>
    match phase with
    | .checked extensions expiresAtMs =>
      let reserving := reserve runId sessionId granted.maxRunRequests nowMs
      let after := reserving.leaves faults ledger
      match (reserving faults ledger).1 with
      | .value _ => (.spent extensions expiresAtMs, after)
      | .error .providerBudgetExhausted => (.exhausted after.extensions.keys.length, after)
      | _ => (.idle, after)
    | _ => (.idle, ledger)
  -- The permission or the channel is found lost before or after the unit is spent.
  | .lapse nowMs =>
    match phase with
    | .checked extensions expiresAtMs | .spent extensions expiresAtMs =>
      (lapsed extensions expiresAtMs nowMs .idle, ledger)
    | _ => (.idle, ledger)
  | .hold nowMs =>
    match phase with
    | .exhausted _ => (.idle, (hold runId .exhausted nowMs).leaves faults ledger)
    | .expired _ atMs => (.idle, (hold runId .expired atMs).leaves faults ledger)
    | _ => (.idle, ledger)
  | .stop => (.idle, ledger)

/-! ### The system -/

/-- The Run's ledger and where each Session's worker stands. -/
structure System where
  ledger : Ledger
  phases : String → Phase

/-- A section of one Session, an operator extension through a Session, or a restart. -/
inductive Event where
  | session (sessionId : String) (work : Section)
  | extend (sessionId : String) (request : ExtensionRequest) (operatorUid : UInt32)
    (nowMs launchExpiry : UInt64)
  | restart

/-- No Session at work on an empty ledger. -/
def System.start : System := ⟨.empty, fun _ => .idle⟩

section

variable (runId : String) (granted : Permission) (expiries : String → UInt64)

/-- One step of the system, with the faults that befall it. -/
def advance (system : System) : Event × List Fault → System
  | (.session sessionId work, faults) =>
    let (phase, ledger) := act runId granted sessionId (expiries sessionId) faults
      (system.phases sessionId) system.ledger work
    ⟨ledger, Function.update system.phases sessionId phase⟩
  | (.extend sessionId request operatorUid nowMs launchExpiry, faults) =>
    { system with ledger := (extend runId request operatorUid nowMs (extensionCheck granted
        (expiries sessionId) launchExpiry request nowMs)).leaves faults system.ledger }
  | (.restart, _) => { system with phases := fun _ => .idle }

/-- At a time, every unit of a ledger's extended total is spent or its effective expiry has
passed. -/
def Justified (grantedExpiry : UInt64) (ledger : Ledger) (atMs : UInt64) : Prop :=
  ∃ spent recorded, ledger.runs.Upto spent ∧
    (∀ number, ledger.extensions.lookup number = recorded[number]?) ∧
    (spent = granted.maxRunRequests + unitsOf recorded ∨
      extendedExpiry grantedExpiry recorded ≤ atMs)

/-- A hold that a section writes follows the extensions in force, and is justified by the
ledger it is written to. -/
def Deserved (grantedExpiry : UInt64) (before after : Ledger) : Prop :=
  ∀ number hold, before.holds.lookup number = none → after.holds.lookup number = some hold →
    before.extensions.Upto number ∧ Justified granted grantedExpiry before hold.heldAtMs

/-- Every hold that a step writes is one that the Session deserves; nobody else writes one. -/
def NoSpuriousHold (system : System) (event : Event × List Fault) : Prop :=
  let after := advance runId granted expiries system event
  match event.1 with
  | .session sessionId _ => Deserved granted (expiries sessionId) system.ledger after.ledger
  | _ => after.ledger.holds = system.ledger.holds

/-- What a worker is about to hold the Run for was seen under the extensions in force, or a
hold already stands. -/
def Phase.UpToDate (ledger : Ledger) : Phase → Prop
  | .exhausted extensions | .expired extensions _ => ledger.extensions.Upto extensions ∨
      ∃ number, ledger.extensions.Upto number ∧ number ∈ ledger.holds
  | _ => True

/-- Nobody holds the Run on what an extension has overtaken. -/
def UpToDate (system : System) (event : Event × List Fault) : Prop :=
  match event.1 with
  | .session sessionId (.hold _) => (system.phases sessionId).UpToDate system.ledger
  | _ => True

end

/-! ### What workers have seen -/

section

variable {runId : String} {granted : Permission} {grantedExpiry : UInt64} {ledger : Ledger}
  {spent holdCount : Nat} {recorded : List Extension} {p : Phase}

variable (granted grantedExpiry) in
/-- What a worker has seen was so, and still is unless an extension was recorded since. -/
def Seen (spent : Nat) (recorded : List Extension) : Phase → Prop
  | .idle => True
  | .permitted _ extensions expiresAtMs | .checked extensions expiresAtMs
  | .spent extensions expiresAtMs => extensions ≤ recorded.length ∧
      (recorded.length = extensions → extendedExpiry grantedExpiry recorded = expiresAtMs)
  | .exhausted extensions => extensions ≤ recorded.length ∧
      (recorded.length = extensions → spent = granted.maxRunRequests + unitsOf recorded)
  | .expired extensions atMs => extensions ≤ recorded.length ∧
      (recorded.length = extensions → extendedExpiry grantedExpiry recorded ≤ atMs)

/-- What was seen of a ledger counts for the ledgers that follow it. -/
theorem Seen.grows (h : Seen granted grantedExpiry spent recorded p) {spent' : Nat}
    {recorded' : List Extension} (hp : spent ≤ spent') (he : recorded <+: recorded')
    (hw : spent' ≤ granted.maxRunRequests + unitsOf recorded') :
    Seen granted grantedExpiry spent' recorded' p := by
  have hle := he.length_le
  have hs : ∀ extensions, extensions ≤ recorded.length → recorded'.length = extensions →
      recorded = recorded' ∧ recorded.length = extensions := fun extensions hr hl =>
    ⟨he.eq_of_length (by omega), by omega⟩
  cases p with
  | idle => trivial
  | permitted _ extensions expiresAtMs | checked extensions expiresAtMs
  | spent extensions expiresAtMs | expired extensions expiresAtMs =>
    refine ⟨h.1.trans hle, fun hl => ?_⟩
    obtain ⟨rfl, hn⟩ := hs _ h.1 hl
    exact h.2 hn
  | exhausted extensions =>
    refine ⟨h.1.trans hle, fun hl => ?_⟩
    obtain ⟨rfl, hn⟩ := hs _ h.1 hl
    have := h.2 hn
    omega

theorem seen_lapsed {e : Nat} {eam : UInt64} {ms : UInt64} {o : Phase} (h : e ≤ recorded.length ∧
      (recorded.length = e → extendedExpiry grantedExpiry recorded = eam))
    (ho : Seen granted grantedExpiry spent recorded o) :
    Seen granted grantedExpiry spent recorded (lapsed e eam ms o) := by
  unfold lapsed
  split
  · next hp => exact ⟨h.1, fun hl => (h.2 hl).trans_le hp⟩
  · exact ho

variable (runId granted grantedExpiry) in
/-- A sound ledger that keeps the records of an earlier one, and what a worker has seen. -/
def Observes (ledger : Ledger) (result : Phase × Ledger) : Prop :=
  Keeps ledger result.2 ∧ ∃ spent holdCount recorded,
    Balanced runId granted result.2 spent holdCount recorded ∧
      Seen granted grantedExpiry spent recorded result.1

theorem observes_idle {l : Ledger} (h : Follows runId granted ledger l) :
    Observes runId granted grantedExpiry ledger (.idle, l) := by
  obtain ⟨spent, holdCount, recorded, ha⟩ := h.sound
  exact ⟨h.keeps, spent, holdCount, recorded, ha, trivial⟩

theorem observes_same (h : Balanced runId granted ledger spent holdCount recorded)
    (hs : Seen granted grantedExpiry spent recorded p) :
    Observes runId granted grantedExpiry ledger (p, ledger) :=
  ⟨.refl ledger, spent, holdCount, recorded, h, hs⟩

/-- A locked section keeps what its worker has seen. -/
theorem act_observes (h : Balanced runId granted ledger spent holdCount recorded)
    (hs : Seen granted grantedExpiry spent recorded p) (si : String) (fs : List Fault)
    (w : Section) : Observes runId granted grantedExpiry ledger
      (act runId granted si grantedExpiry fs p ledger w) := by
  have hi : Observes runId granted grantedExpiry ledger (.idle, ledger) :=
    observes_same h trivial
  have ho : Sound runId granted ledger := ⟨spent, holdCount, recorded, h⟩
  cases w with
  | read w =>
    simp only [act]
    split
    · next hr =>
      obtain ⟨-, rfl⟩ := (reads_readExtensions h).value_of hr
      exact observes_same h ⟨le_rfl, fun _ => rfl⟩
    · exact hi
  | check ms =>
    simp only [act]
    split
    · exact observes_same h (seen_lapsed hs hs)
    · exact observes_same h (seen_lapsed hs trivial)
    · exact hi
  | reserve ms =>
    simp only [act]
    split
    · next e eam =>
      split
      · next he =>
        obtain ⟨-, hsp⟩ := (wp_reserve h si ms).value_of he
        obtain ⟨⟨hk, s', ho', r', ha⟩, -, -⟩ := hsp.follows h
        obtain ⟨hp, hc⟩ := h.grows ha hk
        exact ⟨hk, s', ho', r', ha, hs.grows hp hc ha.within⟩
      · next he =>
        obtain ⟨hsa, hl⟩ := (wp_reserve_exhausted h si ms).error_of he rfl
        rw [hsa, h.extensions.length_keys]
        exact observes_same h ⟨le_rfl, fun _ => hl⟩
      · exact observes_idle (step_follows ho (.reserve si ms, fs))
    · exact hi
  | lapse ms =>
    simp only [act]
    split
    · exact observes_same h (seen_lapsed hs trivial)
    · exact observes_same h (seen_lapsed hs trivial)
    · exact hi
  | hold ms =>
    simp only [act]
    split
    · exact observes_idle (step_follows ho (.hold .exhausted ms, fs))
    · next am => exact observes_idle (step_follows ho (.hold .expired am, fs))
    · exact hi
  | stop => exact hi

theorem reserve_holds (h : Balanced runId granted ledger spent holdCount recorded)
    (si : String) (ms : UInt64) (fs : List Fault) :
    ((reserve runId si granted.maxRunRequests ms).leaves fs ledger).holds =
      ledger.holds := by
  have hp : ∀ l, l = ledger ∨ Spends runId granted ledger spent recorded si ms l →
      l.holds = ledger.holds := by
    rintro l (rfl | hs)
    · rfl
    · exact (hs.follows h).2.2
  exact Program.Wp.leaves (Q := (·.holds = ledger.holds))
    ((wp_reserve h si ms).mono (fun _ s hs => hp s (.inr hs.2)) (fun _ => hp) hp) fs

theorem deserved_of_holds_eq {l : Ledger} (h : l.holds = ledger.holds) :
    Deserved granted grantedExpiry ledger l := by
  intro n hold hn hh
  rw [h, hn] at hh
  simp at hh

/-- A hold is deserved when what it is written on was seen under the extensions in force. -/
theorem hold_deserved (h : Balanced runId granted ledger spent holdCount recorded) {e : Nat}
    {r : HoldReason} {am : UInt64} (hc : ledger.extensions.Upto e ∨
      ∃ n, ledger.extensions.Upto n ∧ n ∈ ledger.holds) (hj : recorded.length = e →
      spent = granted.maxRunRequests + unitsOf recorded ∨
        extendedExpiry grantedExpiry recorded ≤ am) (fs : List Fault) :
    Deserved granted grantedExpiry ledger ((hold runId r am).leaves fs ledger) := by
  intro n hold hn hh
  obtain ha | ⟨-, ha⟩ := (wp_hold h r am).leaves fs
  · rw [ha, hn] at hh
    simp at hh
  rw [ha, Ledger.withHold_holds] at hh
  by_cases hu : n = recorded.length
  · subst hu
    rw [AList.lookup_insert] at hh
    obtain rfl := Option.some.inj hh
    refine ⟨h.extensions, spent, recorded, h.runs, h.complete, hj ?_⟩
    obtain he | ⟨o, ho, hm⟩ := hc
    · exact h.extensions.unique he
    · obtain rfl := ho.unique h.extensions
      exact absurd hm (AList.lookup_eq_none.mp hn)
  · rw [AList.lookup_insert_ne hu, hn] at hh
    simp at hh

/-- A locked section writes no hold but one that its worker still sees deserved. -/
theorem act_deserved (h : Balanced runId granted ledger spent holdCount recorded)
    (hs : Seen granted grantedExpiry spent recorded p) (sessionId : String) (faults : List Fault)
    (work : Section) (hc : ∀ nowMs, work = .hold nowMs → p.UpToDate ledger) :
    Deserved granted grantedExpiry ledger
      (act runId granted sessionId grantedExpiry faults p ledger work).2 := by
  cases work with
  | reserve nowMs =>
    have hr := reserve_holds h sessionId nowMs faults
    simp only [act]
    split
    · split <;> exact deserved_of_holds_eq hr
    · exact deserved_of_holds_eq rfl
  | hold nowMs =>
    replace hc := hc nowMs rfl
    simp only [act]
    split
    · exact hold_deserved h hc (fun hl => .inl (hs.2 hl)) faults
    · exact hold_deserved h hc (fun hl => .inr (hs.2 hl)) faults
    · exact deserved_of_holds_eq rfl
  | read _ | check _ | lapse _ =>
    simp only [act]
    split <;> exact deserved_of_holds_eq rfl
  | stop => exact deserved_of_holds_eq rfl

end

/-! ### Runs -/

section

variable {runId : String} {granted : Permission} {expiries : String → UInt64}

variable (runId granted expiries) in
/-- The records add up, and each worker has seen what it acts on. -/
def Watched (system : System) : Prop :=
  ∃ spent holdCount recorded, Balanced runId granted system.ledger spent holdCount recorded ∧
    ∀ sessionId, Seen granted (expiries sessionId) spent recorded (system.phases sessionId)

theorem watched_start : Watched runId granted expiries .start :=
  ⟨0, 0, [], balanced_empty runId granted, fun _ => trivial⟩

theorem advance_watched {s : System} (h : Watched runId granted expiries s)
    (e : Event × List Fault) :
    Watched runId granted expiries (advance runId granted expiries s e) := by
  obtain ⟨spent, holdCount, recorded, h, he⟩ := h
  obtain ⟨e, fs⟩ := e
  cases e with
  | session si w =>
    obtain ⟨hk, s', ho', r', ha, hp⟩ :=
      act_observes h (he si) si fs w
    obtain ⟨hs, hr⟩ := h.grows ha hk
    refine ⟨s', ho', r', ha, fun o => ?_⟩
    by_cases ho : o = si
    · subst ho
      simpa [advance] using hp
    · simpa [advance, ho] using (he o).grows hs hr ha.within
  | extend si req ou ms lae =>
    have hf := ((wp_extend h req ou ms (expiries si) lae).leaves fs).1
    obtain ⟨hk, s', ho', r', ha⟩ := hf
    obtain ⟨hs, hr⟩ := h.grows ha hk
    exact ⟨s', ho', r', ha, fun o =>
      (he o).grows hs hr ha.within⟩
  | restart => exact ⟨spent, holdCount, recorded, h, fun _ => trivial⟩

theorem noSpuriousHold {s : System} (h : Watched runId granted expiries s)
    {e : Event × List Fault} (hc : UpToDate s e) :
    NoSpuriousHold runId granted expiries s e := by
  obtain ⟨spent, holdCount, recorded, h, hs⟩ := h
  obtain ⟨e, fs⟩ := e
  cases e with
  | session si w =>
    refine act_deserved h (hs si) si fs w ?_
    rintro ms rfl
    exact hc
  | extend si req ou ms lae =>
    exact ((wp_extend h req ou ms (expiries si) lae).leaves fs).2
  | restart => rfl

/-- In a run in which no worker holds the Run on what an extension has overtaken, every hold
is deserved at the moment it is written: it follows the extensions in force, and under them
every unit is spent or the effective expiry has passed. -/
theorem holds_deserved {events : List (Event × List Fault)}
    (h : Throughout (advance runId granted expiries) UpToDate .start events) :
    Throughout (advance runId granted expiries) (NoSpuriousHold runId granted expiries) .start
      events :=
  Throughout.imp (P := Watched runId granted expiries) (fun _ e hs => advance_watched hs e)
    (fun _ _ hs hc => noSpuriousHold hs hc) watched_start h

/-- A permission expires, and the Session that settles holds its Run. -/
theorem holds_deserved_settled :
    let events : List (Event × List Fault) := [.session "a" (.read .settle),
      .session "a" (.check 100), .session "a" (.hold 0)].map (·, [])
    Throughout (advance "run" ⟨1, Nat.le_refl 1, Nat.le_of_ble_eq_true rfl⟩ fun _ => 100)
      (NoSpuriousHold "run" ⟨1, Nat.le_refl 1, Nat.le_of_ble_eq_true rfl⟩ fun _ => 100) .start
          events :=
  holds_deserved ⟨trivial, trivial, .inl Numbered.upto_empty, trivial⟩

end

/-! ### A hold that an extension has overtaken -/

/-- A Run of one request. -/
def raceGrant : Permission := ⟨1, Nat.le_refl 1, Nat.le_of_ble_eq_true rfl⟩

/-- Two Sessions find the only unit spent. The first holds the Run, and the operator adds a
unit. -/
def race : List (Event × List Fault) :=
  [.session "a" (.read .request), .session "a" (.check 1), .session "a" (.reserve 1),
    .session "a" .stop,
    .session "a" (.read .request), .session "a" (.check 2), .session "a" (.reserve 2),
    .session "b" (.read .request), .session "b" (.check 2), .session "b" (.reserve 2),
    .session "a" (.hold 3), .extend "a" ⟨"more", 1, none⟩ 1000 4 100].map (·, [])

private def raced : System := race.foldl (advance "run" raceGrant fun _ => 100) .start

private def overtakingExtension : Extension :=
  ⟨"run", ⟨"more", 1, none⟩, 1000, 4, ⟨"run", .exhausted, 3⟩⟩

/-- The raced ledger leaves a unit, and its permission has not expired. -/
private theorem raced_unjustified : ¬ Justified raceGrant 100 raced.ledger 5 := by
  rintro ⟨spent, recorded, hp, hr, hj⟩
  have ho : raced.ledger.runs.Upto 1 := Numbered.contiguous_eq_some.mp (by decide)
  obtain rfl := hp.unique ho
  have hf : recorded[0]? = some overtakingExtension := (hr 0).symm.trans (by decide)
  have hs : recorded[1]? = none := (hr 1).symm.trans (by decide)
  obtain ⟨e, rfl⟩ : ∃ e, recorded = [e] := by
    cases recorded with
    | nil => simp at hf
    | cons e xs =>
      cases xs with
      | nil => exact ⟨e, rfl⟩
      | cons _ _ => simp at hs
  obtain rfl : e = overtakingExtension := by simpa using hf
  revert hj
  decide

/-- The second Session, refused before the extension, holds the Run after it: one unit of two
is left and nothing has expired. -/
theorem hold_after_extension :
    let events := race ++ [(.session "b" (.hold 5), [])]
    (events.foldl (advance "run" raceGrant fun _ => 100) .start).ledger.holds.lookup 1 =
        some ⟨"run", .exhausted, 5⟩ ∧ ¬ Throughout (advance "run" raceGrant fun _ => 100)
        (NoSpuriousHold "run" raceGrant fun _ => 100) .start events := by
  intro events
  have hw : (events.foldl (advance "run" raceGrant fun _ => 100)
      .start).ledger.holds.lookup 1 = some ⟨"run", .exhausted, 5⟩ := by decide
  refine ⟨hw, fun h => raced_unjustified ?_⟩
  have hl : NoSpuriousHold "run" raceGrant (fun _ => 100) raced (.session "b" (.hold 5), []) := h.at
  exact (hl 1 ⟨"run", .exhausted, 5⟩ (by decide) (by decide)).2

end Louiselm.Provider.Budget
