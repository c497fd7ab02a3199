import Mathlib.Data.List.Infix
import Louiselm.Session.Database

/-!
# The writer as a barrier

Runs of `Session/Recording`: the database holds the effect of the first calls, applied once in
their order, the queue holds all that is not known to be there, and a callback without an error
comes after everything that was called before it.
-/

namespace Louiselm.Session
open Base Base.Lua List Recorder Database

/-! ### Calls and their writes -/

/-- The write of a numbered call. -/
structure Entry where
  call : Nat
  sql : Statement
  error : Option RecordingErrorCode

/-- What a call puts into the queue; an invalid preference puts nothing. -/
def entryOf (codec : Codec) (call : Nat) : RecordingCall → Option Entry
  | .append record _ => some (((recordSql codec record).map fun sql => Entry.mk call sql none).getD
      ⟨call, .nothing, some .invalid⟩)
  | .flush => some ⟨call, .nothing, none⟩
  | .savePreference agent acpSessionId preference =>
    if nonempty agent && nonempty acpSessionId && validPreference preference then
      (preferenceSql codec agent acpSessionId preference).map fun sql => ⟨call, sql, none⟩
    else none

/-- The writes of calls, the first of which has a given number. -/
def entriesFrom (codec : Codec) (first : Nat) (calls : List RecordingCall) : List Entry :=
  (calls.zipIdx first).filterMap fun item => entryOf codec item.2 item.1

/-- The transaction that calls amount to. -/
def effectOf (codec : Codec) (calls : List RecordingCall) : List Statement :=
  (entriesFrom codec 0 calls).map (·.sql)

section

variable {co : Codec}

theorem entriesFrom_append (x : Nat) (c l : List RecordingCall) : entriesFrom co x (c ++ l) =
      entriesFrom co x c ++ entriesFrom co (x + c.length) l := by
  rw [entriesFrom, zipIdx_append, filterMap_append]
  rfl

theorem entriesFrom_singleton (x : Nat) (made : RecordingCall) :
    entriesFrom co x [made] = (entryOf co x made).toList := by
  cases h : entryOf co x made <;> simp [entriesFrom, h]

theorem entryOf_call {x : Nat} {made : RecordingCall} {e : Entry}
    (h : entryOf co x made = some e) : e.call = x := by
  cases made with
  | append r c =>
    obtain rfl := Option.some.inj h
    cases recordSql co r <;> rfl
  | flush =>
    obtain rfl := Option.some.inj h
    rfl
  | savePreference a asi p =>
    simp only [entryOf] at h
    split at h
    · obtain ⟨sql, -, rfl⟩ := Option.map_eq_some_iff.mp h
      rfl
    · cases h

theorem call_lt_of_mem {x : Nat} {c : List RecordingCall} {e : Entry}
    (h : e ∈ entriesFrom co x c) : e.call < x + c.length := by
  obtain ⟨⟨made, n⟩, hm, he⟩ := mem_filterMap.mp h
  obtain ⟨-, hl, -⟩ := mem_zipIdx hm
  rw [entryOf_call he]
  exact hl

end

/-- A queued write is that of an entry, and acknowledges its call if any. -/
structure Writes (write : RecordingWrite) (entry : Entry) : Prop where
  sql : write.sql = entry.sql
  error : write.error = entry.error
  callback : ∀ call, write.callback = some call → call = entry.call

/-- The call that a task calls back. -/
def Task.call? : Task → Option Nat
  | .callback call _ => some call
  | _ => none

/-- The calls that have a callback which was called or still may be. -/
def Recorder.awaited (recorder : Recorder) : List Nat :=
  recorder.queue.filterMap (·.callback) ++ recorder.tasks.filterMap Task.call? ++
    recorder.refusals.map Prod.fst ++ recorder.called.map Prod.fst

/-- A call was acknowledged without an error, or is about to be. -/
def Recorder.Acknowledged (recorder : Recorder) (call : Nat) : Prop :=
  .callback call none ∈ recorder.tasks ∨ (call, none) ∈ recorder.called

/-- The calls are those whose writes are gone and those whose writes are held. The database has
the effect of the first of them: all that are gone, and maybe some that are held. -/
structure Ordered (codec : Codec) (initial : Database) (recorder : Recorder)
    (gone there held : List RecordingCall) : Prop where
  calls : recorder.calls = gone ++ held
  queue : List.Forall₂ Writes recorder.queue (entriesFrom codec gone.length held)
  ahead : there <+: held
  db : initial.transact (effectOf codec (gone ++ there)) = .ok recorder.db
  valid : ∀ entry ∈ entriesFrom codec 0 (gone ++ there), entry.error = none
  run : ∀ run, recorder.run = some run → ∃ running, running <+: held ∧ there <+: running ∧
    (entriesFrom codec gone.length running).length = run.count ∧
    (∀ entry ∈ entriesFrom codec gone.length running, entry.error = none) ∧
    (run.committed = true → there = running)
  acknowledged : ∀ call, recorder.Acknowledged call → call < (gone ++ there).length
  distinct : recorder.awaited.Nodup
  known : ∀ call ∈ recorder.awaited, call < recorder.calls.length

/-! ### Calls -/

section

variable {codec : Codec} {i : Database} {recorder next : Recorder} {g th held : List RecordingCall}

/-- What a call adds: a write, or a refusal, or both, of which one at most calls back. -/
structure Adds (codec : Codec) (recorder : Recorder) (made : RecordingCall) (next : Recorder)
    (writes : List RecordingWrite) (refused : List (Nat × RecordingErrorCode)) : Prop where
  calls : next.calls = recorder.calls ++ [made]
  db : next.db = recorder.db
  run : next.run = recorder.run
  tasks : next.tasks = recorder.tasks
  called : next.called = recorder.called
  queue : next.queue = recorder.queue ++ writes
  refusals : next.refusals = recorder.refusals ++ refused
  written : List.Forall₂ Writes writes (entryOf codec recorder.calls.length made).toList
  awaited : writes.filterMap (·.callback) ++ refused.map Prod.fst = [] ∨
    writes.filterMap (·.callback) ++ refused.map Prod.fst = [recorder.calls.length]

variable {ma : RecordingCall} {wr : List RecordingWrite} {re : List (Nat × RecordingErrorCode)}

theorem Adds.drain (h : Adds codec recorder ma next wr re) :
    Adds codec recorder ma next.drain wr re := by
  unfold Recorder.drain
  split
  · exact h
  · exact ⟨h.calls, h.db, h.run, h.tasks, h.called, h.queue, h.refusals, h.written, h.awaited⟩

theorem Adds.drainIf {d : Bool} (h : Adds codec recorder ma next wr re) :
    Adds codec recorder ma (if d then next.drain else next) wr re := by
  split
  · exact h.drain
  · exact h

/-- A call whose write has at most its own callback. -/
theorem adds_write {e : Entry} {c : Option Nat}
    (he : entryOf codec recorder.calls.length ma = some e)
    (hc : c = none ∨ c = some recorder.calls.length) (hn : next = { recorder with
      calls := recorder.calls ++ [ma]
      queue := recorder.queue ++ [⟨e.sql, e.error, c⟩] }) :
    Adds codec recorder ma next [⟨e.sql, e.error, c⟩] [] := by
  subst hn
  refine ⟨rfl, rfl, rfl, rfl, rfl, rfl, (append_nil _).symm, ?_, ?_⟩
  · rw [he]
    refine .cons ⟨rfl, rfl, ?_⟩ .nil
    rintro ca rfl
    rw [entryOf_call he]
    simpa using hc
  · rcases hc with rfl | rfl
    · exact Or.inl rfl
    · exact Or.inr rfl

theorem append_adds (codec : Codec) (recorder : Recorder) (r : Value) (c : Bool) :
    ∃ wr, Adds codec recorder (.append r c) (recorder.call codec (.append r c)) wr [] := by
  have hc : (if c then some recorder.calls.length else none) = none ∨
      (if c then some recorder.calls.length else none) = some recorder.calls.length := by
    cases c <;> simp
  cases hs : recordSql codec r with
  | none =>
    have he : entryOf codec recorder.calls.length (.append r c) =
        some ⟨recorder.calls.length, .nothing, some .invalid⟩ := by simp [entryOf, hs]
    have ha := adds_write he hc rfl
    simp only [call, append, hs]
    exact ⟨_, ha.drainIf⟩
  | some sql =>
    have he : entryOf codec recorder.calls.length (.append r c) =
        some ⟨recorder.calls.length, sql, none⟩ := by simp [entryOf, hs]
    have ha := adds_write he hc rfl
    simp only [call, append, hs]
    exact ⟨_, ha.drainIf⟩

theorem savePreference_adds (a asi p : Option Value) :
    ∃ wr re, Adds codec recorder (.savePreference a asi p)
      (recorder.call codec (.savePreference a asi p)) wr re := by
  unfold call savePreference
  dsimp only
  split
  · rename_i hi
    have he : entryOf codec recorder.calls.length (.savePreference a asi p) = none := by
      rw [entryOf, if_neg (by simpa only [Bool.not_eq_true', Bool.not_eq_true] using hi)]
    refine ⟨[], [(recorder.calls.length, .invalid)], ?_⟩
    exact ⟨rfl, rfl, rfl, rfl, rfl, (append_nil _).symm, rfl,
      by rw [he]; exact .nil, Or.inr rfl⟩
  · rename_i hv
    have he : entryOf codec recorder.calls.length (.savePreference a asi p) =
          (preferenceSql codec a asi p).map fun sql =>
            ⟨recorder.calls.length, sql, none⟩ := by
      rw [entryOf, if_pos (by simpa only [Bool.not_eq_true', Bool.not_eq_false] using hv)]
    split
    · rename_i hs
      rw [hs] at he
      refine ⟨[], [], ?_⟩
      exact ⟨rfl, rfl, rfl, rfl, rfl, (append_nil _).symm, (append_nil _).symm,
        by rw [he]; exact .nil, Or.inl rfl⟩
    · rename_i sql error hs hr
      rw [hs] at he
      refine ⟨[⟨sql, none, none⟩], [(recorder.calls.length, error)], ?_⟩
      have hw := (adds_write he (Or.inl rfl) rfl).written
      exact ⟨rfl, rfl, rfl, rfl, rfl, rfl, rfl, hw, Or.inr rfl⟩
    · rename_i sql hs hr
      rw [hs] at he
      exact ⟨_, _, (adds_write he (Or.inr rfl) rfl).drain⟩

theorem call_adds (codec : Codec) (recorder : Recorder) (ma : RecordingCall) :
    ∃ wr re, Adds codec recorder ma (recorder.call codec ma) wr re := by
  cases ma with
  | append r c =>
    obtain ⟨wr, ha⟩ := append_adds codec recorder r c
    exact ⟨wr, [], ha⟩
  | flush =>
    have he : entryOf codec recorder.calls.length .flush =
        some ⟨recorder.calls.length, .nothing, none⟩ := rfl
    exact ⟨_, _, (adds_write he (Or.inr rfl) rfl).drain⟩
  | savePreference a asi p =>
    exact savePreference_adds a asi p

theorem Adds.awaited_perm (h : Adds codec recorder ma next wr re) : List.Perm next.awaited
      (wr.filterMap (·.callback) ++ re.map Prod.fst ++ recorder.awaited) := by
  simp only [Recorder.awaited, h.queue, h.refusals, h.tasks, h.called, filterMap_append, map_append]
  refine perm_iff_count.mpr fun c => ?_
  simp only [count_append]
  omega

theorem Ordered.call (h : Ordered codec i recorder g th held) (ma : RecordingCall) :
    Ordered codec i (recorder.call codec ma) g th (held ++ [ma]) := by
  obtain ⟨wr, re, ha⟩ := call_adds codec recorder ma
  have hl : g.length + held.length = recorder.calls.length := by
    rw [h.calls, length_append]
  refine ⟨?calls, ?queue, ?ahead, ?db, h.valid, ?run, ?acknowledged, ?distinct, ?known⟩
  case calls => rw [ha.calls, h.calls, append_assoc]
  case queue =>
    rw [ha.queue, entriesFrom_append, entriesFrom_singleton, hl]
    exact rel_append h.queue ha.written
  case ahead => exact h.ahead.trans (prefix_append _ _)
  case db =>
    rw [ha.db]
    exact h.db
  case run =>
    intro run hu
    rw [ha.run] at hu
    obtain ⟨r, hr, ht, he⟩ := h.run run hu
    exact ⟨r, hr.trans (prefix_append _ _), ht, he⟩
  case acknowledged =>
    intro call hc
    rw [Acknowledged, ha.tasks, ha.called] at hc
    exact h.acknowledged call hc
  case distinct =>
    rw [ha.awaited_perm.nodup_iff]
    rcases ha.awaited with hn | ho
    · rw [hn]
      exact h.distinct
    · rw [ho]
      exact nodup_cons.mpr ⟨fun hm => Nat.lt_irrefl _ (h.known _ hm), h.distinct⟩
  case known =>
    intro call hc
    rw [ha.calls, length_append]
    have hm := ha.awaited_perm.mem_iff.mp hc
    rcases ha.awaited with hn | ho
    · rw [hn] at hm
      exact Nat.lt_succ_of_lt (h.known call hm)
    · rw [ho] at hm
      rcases mem_cons.mp hm with rfl | hm
      · exact Nat.lt_succ_self _
      · exact Nat.lt_succ_of_lt (h.known call hm)

/-! ### The main loop -/

/-- A step that only moves callbacks towards their calls. -/
theorem Ordered.quiet (h : Ordered codec i recorder g th held) (hca : next.calls = recorder.calls)
    (hq : next.queue = recorder.queue) (hd : next.db = recorder.db) (hr : next.run = recorder.run)
    (hw : List.Perm next.awaited recorder.awaited)
    (ha : ∀ c, next.Acknowledged c → recorder.Acknowledged c) : Ordered codec i next g th held where
  calls := hca.trans h.calls
  queue := by
    rw [hq]
    exact h.queue
  ahead := h.ahead
  db := by
    rw [hd]
    exact h.db
  valid := h.valid
  run := by
    rw [hr]
    exact h.run
  acknowledged := fun c hc => h.acknowledged c (ha c hc)
  distinct := hw.nodup_iff.mpr h.distinct
  known := by
    intro c hc
    rw [hca]
    exact h.known c (hw.mem_iff.mp hc)

theorem Ordered.drain (h : Ordered codec i recorder g th held) :
    Ordered codec i recorder.drain g th held := by
  unfold Recorder.drain
  split
  · exact h
  · exact h.quiet rfl rfl rfl rfl (.refl _) fun _ hc => hc

/-- A task that is not a callback is over. -/
theorem Ordered.pop {task : Task} {tasks : List Task}
    (h : Ordered codec i recorder g th held) (ht : recorder.tasks = task :: tasks)
    (ha : task.call? = none) : Ordered codec i { recorder with tasks } g th held := by
  refine h.quiet rfl rfl rfl rfl ?_ ?_
  · rw [Recorder.awaited, Recorder.awaited, ht, filterMap_cons_none ha]
  · rintro call (hc | hc)
    · refine Or.inl ?_
      rw [ht]
      exact mem_cons_of_mem _ hc
    · exact Or.inr hc

theorem Ordered.callback {call : Nat} {error : Option RecordingErrorCode} {tasks : List Task}
    (h : Ordered codec i recorder g th held)
    (ht : recorder.tasks = .callback call error :: tasks) : Ordered codec i
      { recorder with tasks, called := recorder.called ++ [(call, error)] } g th held := by
  refine h.quiet rfl rfl rfl rfl ?_ ?_
  · rw [Recorder.awaited, Recorder.awaited, ht,
      filterMap_cons_some (show Task.call? (.callback call error) = some call from rfl)]
    refine perm_iff_count.mpr fun other => ?_
    simp only [map_append, count_append, count_cons, map_cons, map_nil, count_nil]
    omega
  · rintro other (ho | ho)
    · refine Or.inl ?_
      rw [ht]
      exact mem_cons_of_mem _ ho
    · rcases mem_append.mp ho with ho | ho
      · exact Or.inr ho
      · refine Or.inl ?_
        obtain ⟨rfl, rfl⟩ := Prod.mk.inj (mem_singleton.mp ho)
        rw [ht]
        exact mem_cons_self

theorem Ordered.refuse {call : Nat} {error : RecordingErrorCode}
    {refusals : List (Nat × RecordingErrorCode)} (h : Ordered codec i recorder g th held)
    (hr : recorder.refusals = (call, error) :: refusals) : Ordered codec i
      { recorder with refusals, called := recorder.called ++ [(call, some error)] }
      g th held := by
  refine h.quiet rfl rfl rfl rfl ?_ ?_
  · rw [Recorder.awaited, Recorder.awaited, hr]
    refine perm_iff_count.mpr fun other => ?_
    simp only [map_append, count_append, count_cons, map_cons, map_nil, count_nil]
    omega
  · rintro other (ho | ho)
    · exact Or.inl ho
    · rcases mem_append.mp ho with ho | ho
      · exact Or.inr ho
      · cases mem_singleton.mp ho

theorem Ordered.begin (h : Ordered codec i recorder g th held)
    (ht : recorder.tasks.isEmpty = true) : Ordered codec i
      { recorder with scheduled := false, tasks := [.changed recorder.error true, .start] }
      g th held := by
  have hn : recorder.tasks = [] := isEmpty_iff.mp ht
  refine h.quiet rfl rfl rfl rfl ?_ ?_
  · rw [Recorder.awaited, Recorder.awaited, hn]
    exact .refl _
  · rintro c (hc | hc)
    · simp at hc
    · exact Or.inr hc

/-! ### Runs of SQLite -/

/-- What is written first is that of the first calls. -/
theorem Ordered.running (h : Ordered codec i recorder g th held) {r : List RecordingCall} {c : Nat}
    (hr : r <+: held) (hc : (entriesFrom codec g.length r).length = c) : ∃ xs, held = r ++ xs ∧
      List.Forall₂ Writes (recorder.queue.take c) (entriesFrom codec g.length r) ∧
      List.Forall₂ Writes (recorder.queue.drop c) (entriesFrom codec (g ++ r).length xs) := by
  obtain ⟨xs, rfl⟩ := hr
  have hq := h.queue
  rw [entriesFrom_append, ← length_append] at hq
  refine ⟨xs, rfl, ?_, ?_⟩
  · have ht := forall₂_take c hq
    rw [take_left' hc] at ht
    exact ht
  · have hd := forall₂_drop c hq
    rw [drop_left' hc] at hd
    exact hd

variable {en : List Entry}

theorem forall₂_sql (h : List.Forall₂ Writes wr en) : wr.map (·.sql) = en.map (·.sql) := by
  induction h with
  | nil => rfl
  | cons hh _ ih => rw [map_cons, map_cons, hh.sql, ih]

theorem forall₂_error (h : List.Forall₂ Writes wr en)
    (hn : wr.findSome? (·.error) = none) : ∀ e ∈ en, e.error = none := by
  induction h with
  | nil => exact fun _ hm => absurd hm not_mem_nil
  | @cons write e _ _ hh _ ih =>
    rw [List.findSome?_eq_none_iff] at hn
    intro o hm
    rcases mem_cons.mp hm with rfl | hm
    · rw [← hh.error]
      exact hn write mem_cons_self
    · exact ih (List.findSome?_eq_none_iff.mpr fun w hw => hn w (mem_cons_of_mem _ hw)) o hm

theorem forall₂_callback (h : List.Forall₂ Writes wr en) {c : Nat}
    (hm : c ∈ wr.filterMap (·.callback)) : ∃ e ∈ en, e.call = c := by
  induction h with
  | nil => cases hm
  | @cons write e _ _ hh _ ih =>
    obtain ⟨o, ho, hc⟩ := mem_filterMap.mp hm
    rcases mem_cons.mp ho with rfl | ho
    · exact ⟨e, mem_cons_self, (hh.callback c hc).symm⟩
    · obtain ⟨f, hf, ha⟩ := ih (mem_filterMap.mpr ⟨o, ho, hc⟩)
      exact ⟨f, mem_cons_of_mem _ hf, ha⟩

theorem forall₂_silent (h : List.Forall₂ Writes wr en) :
    List.Forall₂ Writes (wr.map fun write => { write with callback := none }) en := by
  induction h with
  | nil => exact .nil
  | cons hh _ ih => exact .cons ⟨hh.sql, hh.error, fun _ h => nomatch h⟩ ih

theorem filterMap_silent (wr : List RecordingWrite) :
    (wr.map fun write : RecordingWrite => { write with callback := none }).filterMap
      (·.callback) = [] := by
  induction wr with
  | nil => rfl
  | cons write wr ih => rw [map_cons, filterMap_cons_none rfl, ih]

theorem filterMap_callbacks (c : List Nat) (e : Option RecordingErrorCode) :
    (c.map (Task.callback · e)).filterMap Task.call? = c := by
  induction c with
  | nil => rfl
  | cons ca c ih =>
    rw [map_cons, filterMap_cons, ih]
    rfl

theorem failed_queue (recorder : Recorder) (c : Nat) (e : RecordingErrorCode) :
    (recorder.finished c (some e)).queue =
      recorder.queue.map fun write => { write with callback := none } := by
  simp [finished]

theorem finished_queue (recorder : Recorder) (c : Nat) :
    (recorder.finished c none).queue = recorder.queue.drop c := by
  have hm : min (c + (c - min c recorder.queue.length)) recorder.queue.length =
      min c recorder.queue.length := by
    omega
  simp [finished, drop_append, hm]

/-- After a failure every write is kept, and none of them calls back any more. -/
theorem Ordered.failed (h : Ordered codec i recorder g th held) (c : Nat) (e : RecordingErrorCode) :
    Ordered codec i (recorder.finished c (some e)) g th held := by
  have hq := failed_queue recorder c e
  have ht : (recorder.finished c (some e)).tasks = .changed (some e)
      (!(recorder.finished c (some e)).queue.isEmpty) ::
        ((recorder.queue.filterMap (·.callback)).map (.callback · (some e)) ++ recorder.tasks) := by
    simp [finished]
  have ha : List.Perm (recorder.finished c (some e)).awaited recorder.awaited := by
    rw [Recorder.awaited, hq, ht, filterMap_silent,
      filterMap_cons_none (show Task.call? (.changed _ _) = none from rfl),
      filterMap_append, filterMap_callbacks]
    exact .refl _
  refine ⟨h.calls, ?_, h.ahead, h.db, h.valid, fun _ hr => (nomatch hr), ?_,
    ha.nodup_iff.mpr h.distinct, fun ca hc => h.known ca (ha.mem_iff.mp hc)⟩
  · rw [hq]
    exact forall₂_silent h.queue
  · intro ca hc
    refine h.acknowledged ca ?_
    rcases hc with hc | hc
    · refine Or.inl ?_
      rw [ht] at hc
      rcases mem_cons.mp hc with hc | hc
      · cases hc
      · rcases mem_append.mp hc with hc | hc
        · obtain ⟨o, -, heq⟩ := mem_map.mp hc
          cases heq
        · exact hc
    · exact Or.inr hc

theorem Ordered.start (h : Ordered codec i recorder g th held)
    (m : Option RecordingErrorCode) : Ordered codec i (recorder.start m) g th held := by
  unfold Recorder.start
  dsimp only
  split
  · exact h.failed _ _
  · rename_i hn
    split
    · exact h.failed _ _
    · refine ⟨h.calls, h.queue, h.ahead, h.db, h.valid, ?_, h.acknowledged, h.distinct, h.known⟩
      rintro run ⟨⟩
      exact ⟨held, prefix_refl _, h.ahead, h.queue.length_eq.symm,
        forall₂_error h.queue hn, fun hc => nomatch hc⟩

/-- After a success the writes of the run are gone, and they are in the database. -/
theorem Ordered.succeeded (h : Ordered codec i recorder g th held)
    {r xs : List RecordingCall} {c : Nat} (hh : held = r ++ xs) (hth : th = r)
    (hw : List.Forall₂ Writes (recorder.queue.take c) (entriesFrom codec g.length r))
    (hk : List.Forall₂ Writes (recorder.queue.drop c) (entriesFrom codec (g ++ r).length xs)) :
    Ordered codec i (recorder.finished c none) (g ++ r) [] xs := by
  subst hth
  have hq := finished_queue recorder c
  have ht : (recorder.finished c none).tasks =
      .changed none (!(recorder.finished c none).queue.isEmpty) ::
        (((recorder.queue.take c).filterMap (·.callback)).map (.callback · none) ++
          [.drain] ++ recorder.tasks) := by
    simp [finished]
  have ha : List.Perm (recorder.finished c none).awaited recorder.awaited := by
    have hs : recorder.queue.filterMap (·.callback) =
        (recorder.queue.take c).filterMap (·.callback) ++
          (recorder.queue.drop c).filterMap (·.callback) := by
      rw [← filterMap_append, take_append_drop]
    rw [Recorder.awaited, Recorder.awaited, hq, ht, hs,
      filterMap_cons_none (show Task.call? (.changed _ _) = none from rfl),
      filterMap_append, filterMap_append, filterMap_callbacks]
    have hd : [Task.drain].filterMap Task.call? = [] := rfl
    refine perm_iff_count.mpr fun ca => ?_
    simp only [hd, count_append, count_nil, finished]
    omega
  refine ⟨?order, ?queue, nil_prefix, ?db, ?valid, fun _ hr => (nomatch hr), ?acknowledged,
    ha.nodup_iff.mpr h.distinct, fun ca hc => h.known ca (ha.mem_iff.mp hc)⟩
  case order =>
    rw [append_assoc, ← hh]
    exact h.calls
  case queue =>
    rw [hq]
    exact hk
  case db =>
    rw [append_nil]
    exact h.db
  case valid =>
    rw [append_nil]
    exact h.valid
  case acknowledged =>
    intro ca hc
    rw [append_nil]
    rcases hc with hc | hc
    · rw [ht] at hc
      rcases mem_cons.mp hc with hc | hc
      · cases hc
      · rcases mem_append.mp hc with hc | hc
        · rcases mem_append.mp hc with hc | hc
          · obtain ⟨o, ho, heq⟩ := mem_map.mp hc
            obtain ⟨rfl, -⟩ := Task.callback.inj heq
            obtain ⟨e, he, rfl⟩ := forall₂_callback hw ho
            rw [length_append]
            exact call_lt_of_mem he
          · cases mem_singleton.mp hc
        · exact h.acknowledged ca (Or.inl hc)
    · exact h.acknowledged ca (Or.inr hc)

theorem effectOf_append (x l : List RecordingCall) : effectOf codec (x ++ l) =
    effectOf codec x ++ (entriesFrom codec x.length l).map (·.sql) := by
  rw [effectOf, entriesFrom_append, map_append, Nat.zero_add]
  rfl

/-- A run that commits again what is in the database already adds only the rest. -/
theorem Ordered.transact (h : Ordered codec i recorder g th held)
    {r : List RecordingCall} {db : Database} (hh : th <+: r) (ht : recorder.db.transact
      ((entriesFrom codec g.length r).map (·.sql)) = .ok db) :
    i.transact (effectOf codec (g ++ r)) = .ok db := by
  obtain ⟨m, rfl⟩ := hh
  have hd := h.db
  rw [effectOf_append, transact_append, bind_ok] at hd
  obtain ⟨pre, hb, hf⟩ := hd
  rw [effectOf_append, transact_append, hb, ok_bind]
  rw [entriesFrom_append, map_append, transact_append] at ht ⊢
  rw [hf, ok_bind]
  rw [transact_again hf, ok_bind] at ht
  exact ht

theorem Ordered.commit (h : Ordered codec i recorder g th held) :
    ∃ t', Ordered codec i (recorder.step codec .commit) g t' held := by
  simp only [Recorder.step]
  split
  · exact ⟨th, h⟩
  · rename_i run hu
    split
    · exact ⟨th, h⟩
    · split
      · exact ⟨th, h⟩
      · rename_i db hd
        obtain ⟨r, hr, ht, hn, hv, -⟩ := h.run run hu
        obtain ⟨xs, -, hw, -⟩ := h.running hr hn
        rw [forall₂_sql hw] at hd
        refine ⟨r, h.calls, h.queue, hr, h.transact ht hd, ?_, ?_, ?_, h.distinct, h.known⟩
        · intro e hm
          rw [entriesFrom_append, Nat.zero_add] at hm
          rcases mem_append.mp hm with hm | hm
          · refine h.valid e ?_
            rw [entriesFrom_append]
            exact mem_append_left _ hm
          · exact hv e hm
        · rintro r' ⟨⟩
          exact ⟨r, hr, prefix_refl _, hn, hv, fun _ => rfl⟩
        · intro c hc
          have hl := h.acknowledged c hc
          have he := ht.length_le
          rw [length_append] at hl ⊢
          omega

theorem Ordered.report (h : Ordered codec i recorder g th held)
    (e : Option RecordingErrorCode) : ∃ g' t' he',
      Ordered codec i (recorder.step codec (.report e)) g' t' he' := by
  simp only [Recorder.step]
  split
  · exact ⟨g, th, held, h⟩
  · rename_i run hu
    split
    · rename_i hr
      cases e with
      | some e => exact ⟨g, th, held, h.failed _ _⟩
      | none =>
        rw [Bool.and_eq_true, Option.isSome_none, Bool.false_or] at hr
        obtain ⟨r, hru, -, hn, -, hc⟩ := h.run run hu
        obtain ⟨xs, hh, hw, hk⟩ := h.running hru hn
        exact ⟨_, _, _, h.succeeded hh (hc hr.2) hw hk⟩
    · exact ⟨g, th, held, h⟩

theorem Ordered.task (h : Ordered codec i recorder g th held)
    (missing : Option RecordingErrorCode) :
    Ordered codec i (recorder.step codec (.task missing)) g th held := by
  simp only [Recorder.step]
  split
  · exact h
  · rename_i ht
    exact h.pop ht rfl
  · rename_i ht
    exact (h.pop ht rfl).start missing
  · rename_i ht
    exact h.callback ht
  · rename_i ht
    exact (h.pop ht rfl).drain

/-- Every step keeps the order. -/
theorem Ordered.step (h : Ordered codec i recorder g th held) (event : RecordingEvent) :
    ∃ gone' there' he', Ordered codec i (recorder.step codec event) gone' there' he' := by
  cases event with
  | call ma => exact ⟨g, th, _, h.call ma⟩
  | task missing => exact ⟨g, th, held, h.task missing⟩
  | begin =>
    simp only [Recorder.step]
    split
    · rename_i hb
      exact ⟨g, th, held, h.begin (Bool.and_eq_true .. ▸ hb).2⟩
    · exact ⟨g, th, held, h⟩
  | refuse =>
    simp only [Recorder.step]
    split
    · exact ⟨g, th, held, h⟩
    · rename_i hr
      split
      · exact ⟨g, th, held, h.refuse hr⟩
      · exact ⟨g, th, held, h⟩
  | commit =>
    obtain ⟨there', hc⟩ := h.commit
    exact ⟨g, there', held, hc⟩
  | report error => exact h.report error

end

/-! ### Runs -/

theorem new_ordered (codec : Codec) (initial : Database) :
    Ordered codec initial (new initial) [] [] [] where
  calls := rfl
  queue := .nil
  ahead := nil_prefix
  db := rfl
  valid := fun _ hm => nomatch hm
  run := fun _ hr => nomatch hr
  acknowledged := by
    rintro call (hc | hc) <;> cases hc
  distinct := nodup_nil
  known := fun _ hm => nomatch hm

variable {gone there held : List RecordingCall}

theorem Ordered.foldl {codec : Codec} {ini : Database} {recorder : Recorder}
    (h : Ordered codec ini recorder gone there held) (es : List RecordingEvent) : ∃ g' t' he',
      Ordered codec ini (es.foldl (Recorder.step codec) recorder) g' t' he' := by
  induction es generalizing recorder gone there held with
  | nil => exact ⟨gone, there, held, h⟩
  | cons e es ih =>
    obtain ⟨g', t', he', hs⟩ := h.step e
    exact ih hs

/-- What a queued write does, whoever waits for it. -/
def RecordingWrite.content (write : RecordingWrite) : Statement × Option RecordingErrorCode :=
  (write.sql, write.error)

/-- What an entry does. -/
def Entry.content (entry : Entry) : Statement × Option RecordingErrorCode :=
  (entry.sql, entry.error)

theorem forall₂_content {w : List RecordingWrite} {es : List Entry}
    (h : List.Forall₂ Writes w es) : w.map (·.content) = es.map (·.content) := by
  induction h with
  | nil => rfl
  | cons hh _ ih =>
    rw [map_cons, map_cons, ih, RecordingWrite.content, Entry.content, hh.sql, hh.error]

/-- Only a success of a run that has committed takes writes out of the queue: its own. -/
def Kept (recorder next : Recorder) (event : RecordingEvent) : Prop :=
  recorder.queue.map (·.content) <+: next.queue.map (·.content) ∨
    event = .report none ∧ ∃ run, recorder.run = some run ∧ run.committed = true ∧
      next.queue = recorder.queue.drop run.count

section

variable {recorder : Recorder}

theorem drain_queue (recorder : Recorder) : recorder.drain.queue = recorder.queue := by
  unfold Recorder.drain
  split <;> rfl

theorem failed_content (c : Nat) (e : RecordingErrorCode) :
    (recorder.finished c (some e)).queue.map (·.content) = recorder.queue.map (·.content) := by
  rw [failed_queue, map_map]
  rfl

theorem start_content (m : Option RecordingErrorCode) :
    (recorder.start m).queue.map (·.content) = recorder.queue.map (·.content) := by
  unfold Recorder.start
  dsimp only
  split
  · exact failed_content _ _
  · split
    · exact failed_content _ _
    · rfl

theorem task_content (codec : Codec) (m : Option RecordingErrorCode) :
    (recorder.step codec (.task m)).queue.map (·.content) = recorder.queue.map (·.content) := by
  simp only [Recorder.step]
  split
  · rfl
  · rfl
  · rw [start_content]
  · rfl
  · rw [drain_queue]

theorem step_kept (codec : Codec) (recorder : Recorder) (e : RecordingEvent) :
    Kept recorder (recorder.step codec e) e := by
  cases e with
  | call made =>
    obtain ⟨w, r, ha⟩ := call_adds codec recorder made
    refine Or.inl ?_
    show _ <+: (recorder.call codec made).queue.map (·.content)
    rw [ha.queue, map_append]
    exact prefix_append _ _
  | task m =>
    refine Or.inl ?_
    rw [task_content]
  | begin =>
    refine Or.inl ?_
    simp only [Recorder.step]
    split <;> exact prefix_refl _
  | refuse =>
    refine Or.inl ?_
    simp only [Recorder.step]
    split
    · exact prefix_refl _
    · split <;> exact prefix_refl _
  | commit =>
    refine Or.inl ?_
    simp only [Recorder.step]
    split
    · exact prefix_refl _
    · split
      · exact prefix_refl _
      · split <;> exact prefix_refl _
  | report er =>
    unfold Kept
    simp only [Recorder.step]
    split
    · exact Or.inl (prefix_refl _)
    · rename_i run hu
      split
      · rename_i hr
        cases er with
        | some er =>
          refine Or.inl ?_
          rw [failed_content]
        | none =>
          rw [Bool.and_eq_true, Option.isSome_none, Bool.false_or] at hr
          refine Or.inr ⟨rfl, run, hu, hr.2, ?_⟩
          exact finished_queue recorder run.count
      · exact Or.inl (prefix_refl _)

end

/-- The writer as a barrier over the calls that are committed and those that wait. -/
structure Barrier (codec : Codec) (initial : Database) (recorder : Recorder)
    (committed waiting : List RecordingCall) : Prop where
  calls : recorder.calls = committed ++ waiting
  /-- The database has the effect of the committed calls, once, in their order. -/
  effect : initial.transact (effectOf codec committed) = .ok recorder.db
  /-- No invalid record is among them. -/
  sound : ∀ entry ∈ entriesFrom codec 0 committed, entry.error = none
  /-- The queue lacks only writes that are committed. -/
  lossless : ∃ count, count ≤ (entriesFrom codec 0 committed).length ∧
    recorder.queue.map (·.content) =
      ((entriesFrom codec 0 recorder.calls).drop count).map (·.content)
  once : (recorder.called.map Prod.fst).Nodup
  /-- A callback without an error tells that its call is committed, and all before it. -/
  flushed : ∀ call, (call, none) ∈ recorder.called → call < committed.length
  /-- Every committed fact is in its table. -/
  stored : ∀ table row, .fact table row ∈ effectOf codec committed →
    table.Valid row ∧ recorder.db.Stored table row
  /-- A fact that is in its table can be inserted again, and nothing changes. -/
  identical : ∀ table row, table.Valid row → recorder.db.Stored table row →
    recorder.db.insert table row = .ok recorder.db
  /-- A run with another fact under its key does not commit. -/
  conflict : ∀ table row other, table.Valid row → recorder.db.Stored table row → other ≠ row →
    table.keyOf other = table.keyOf row → ∀ run, recorder.run = some run →
    .fact table other ∈ (recorder.queue.take run.count).map (·.sql) →
    recorder.step codec .commit = recorder
  /-- No step takes out of the queue what has not succeeded. -/
  kept : ∀ event, Kept recorder (recorder.step codec event) event

theorem Ordered.barrier {codec : Codec} {ini : Database} {recorder : Recorder}
    (h : Ordered codec ini recorder gone there held) :
    ∃ w, Barrier codec ini recorder (gone ++ there) w := by
  obtain ⟨w, hh⟩ := h.ahead
  refine ⟨w, ?calls, h.db, h.valid, ?lossless, ?once, ?flushed,
    fun _ _ => transact_stores h.db, fun _ _ => insert_stored, ?conflict, step_kept codec recorder⟩
  case calls => rw [h.calls, ← hh, append_assoc]
  case lossless =>
    refine ⟨(entriesFrom codec 0 gone).length, ?_, ?_⟩
    · rw [entriesFrom_append, length_append]
      exact Nat.le_add_right _ _
    · rw [h.calls, entriesFrom_append, drop_left, Nat.zero_add]
      exact forall₂_content h.queue
  case once => exact (nodup_append.mp h.distinct).2.1
  case flushed => exact fun c hc => h.acknowledged c (Or.inr hc)
  case conflict =>
    intro t row o hv hs hn hk run hr ho
    obtain ⟨e, he⟩ := transact_conflict hv hs hn hk ho
    simp only [Recorder.step, hr, he]
    split <;> rfl

/-- Whatever is called and whatever becomes of every run, the writer is a barrier: the database
has the effect of the first calls, and no write, callback or conflict is lost. -/
theorem recorder_barrier (codec : Codec) (initial : Database) (events : List RecordingEvent) :
    ∃ committed waiting, Barrier codec initial (events.foldl (Recorder.step codec) (.new initial))
        committed waiting := by
  obtain ⟨gone, there, held, ho⟩ := (new_ordered codec initial).foldl events
  obtain ⟨waiting, hb⟩ := ho.barrier
  exact ⟨gone ++ there, waiting, hb⟩

end Louiselm.Session
