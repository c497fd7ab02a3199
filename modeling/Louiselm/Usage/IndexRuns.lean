import Louiselm.Usage.SourceOrder

/-!
# Runs of the index

`usage-cli/src/index.rs`: over every history of runs each call has one row and every observation is
counted once. Two histories that leave the same last facts of every source give the same rows where
they last replaced the sources of each call in the same order, and only there: the list of a call's
sources is not ordered.
-/

namespace Louiselm.Usage
open Base.Rows List Except Function

/-! ### What is to hold -/

/-- Each observed call has one row, each observation is counted in one, and runs are committed. -/
structure CountedOnce (digests : Digests) (index : Index) : Prop where
  distinct : (index.callFacts.map (·.id)).Nodup
  complete : ∀ id, id ∈ index.callFacts.map (·.id) ↔
    ∃ observation ∈ callObservations index.tables, observation.id = id
  counted : (index.callFacts.map (·.observationCount)).sum = index.tables.calls.length
  accepted : ∀ given : IndexRun, given.interrupted = false →
    ∃ next, index.run digests given = .ok next

/-- The sources that observe one call were last replaced in the same order. -/
def SameOrder (index other : Index) : Prop :=
  ∀ first ∈ callObservations index.tables, ∀ second ∈ callObservations index.tables,
    first.id = second.id → (Precedes index.replaced first.sourceId second.sourceId ↔
        Precedes other.replaced first.sourceId second.sourceId)

/-! ### Sources -/

section

variable {ds : Digests} {t : Tables} {log : List (String × Parsed)}

/-- A change of a source's row that leaves what the source is. -/
def Renews (change : SourceRow → SourceRow) : Prop :=
  ∀ row, (change row).id = row.id ∧ (change row).format = row.format ∧ (change row).path = row.path

variable {ch : SourceRow → SourceRow}

theorem map_id_setSource (hc : Renews ch) (row : SourceRow) (s : List SourceRow) :
    (Index.setSource row ch s).map (·.id) =
      if row.id ∈ s.map (·.id) then s.map (·.id)
      else s.map (·.id) ++ [row.id] := by
  have ha : s.any (fun o => o.id == row.id) = true ↔ row.id ∈ s.map (·.id) := by
    rw [any_eq_true, mem_map]
    simp only [beq_iff_eq]
  rw [Index.setSource]
  by_cases hm : row.id ∈ s.map (·.id)
  · rw [if_pos (ha.mpr hm), if_pos hm, map_map]
    refine map_congr_left fun o _ => ?_
    rw [comp_apply]
    split
    · exact (hc o).1
    · rfl
  · rw [if_neg (fun h => hm (ha.mp h)), if_neg hm, map_append]
    rfl

theorem mem_setSource (hc : Renews ch) (row : SourceRow) (s : List SourceRow) :
    ∃ o ∈ Index.setSource row ch s, o.id = row.id := by
  refine mem_map.mp ?_
  rw [map_id_setSource hc]
  split
  · next hm => exact hm
  · exact mem_append_right _ (mem_singleton_self _)

theorem Built.setSource (h : Built ds t log) {row : SourceRow}
    (hr : row.id = sourceId ds row.format row.path)
    (hc : Renews ch) : Built ds { t with sources := Index.setSource row ch t.sources } log where
  sessions := h.sessions
  calls := h.calls
  turns := h.turns
  distinct := by
    rw [map_id_setSource hc]
    split
    · exact h.distinct
    · next hn => exact nodup_append.mpr ⟨h.distinct, nodup_singleton _,
        fun id hi o ho heq => hn (mem_singleton.mp ho ▸ heq ▸ hi)⟩
  known := by
    intro id hi
    obtain ⟨o, ho, rfl⟩ := h.known id hi
    have hm : o.id ∈ (Index.setSource row ch t.sources).map (·.id) := by
      rw [map_id_setSource hc]
      split
      · exact mem_map_of_mem ho
      · exact mem_append_left _ (mem_map_of_mem ho)
    exact mem_map.mp hm
  named := by
    intro o ho
    dsimp only at ho
    rw [Index.setSource] at ho
    split at ho
    · obtain ⟨old, hold, rfl⟩ := mem_map.mp ho
      split
      · obtain ⟨hi, hf, hp⟩ := hc old
        rw [hi, hf, hp]
        exact h.named old hold
      · exact h.named old hold
    · rcases mem_append.mp ho with hold | hn
      · exact h.named o hold
      · rw [mem_singleton.mp hn]
        exact hr

end

/-! ### Steps -/

section

variable {digests : Digests} {index : Index}

/-- A step that replaces no facts. -/
structure Unread (digests : Digests) (index next : Index) : Prop where
  built : Built digests next.tables index.replaced
  replaced : next.replaced = index.replaced
  callFacts : next.callFacts = index.callFacts

variable {next : Index}

theorem Unread.trans {l : Index} (h : Unread digests index next)
    (h' : Unread digests next l) : Unread digests index l where
  built := h.replaced ▸ h'.built
  replaced := h'.replaced.trans h.replaced
  callFacts := h'.callFacts.trans h.callFacts

variable {source : Source}

theorem unread_unavailable (h : Built digests index.tables index.replaced)
    (hs : source.id = sourceId digests source.format source.path) (c : String) :
    Unread digests index (index.unavailable source c) := by
  unfold Index.unavailable
  dsimp only
  generalize (if c = "missing" ∧ (index.tables.sources.any fun row =>
    row.id == source.id && row.digest != "") = true then "missing_retained_snapshot"
      else c) = recorded
  split
  · exact ⟨h, rfl, rfl⟩
  · exact ⟨h.setSource hs fun _ => ⟨rfl, rfl, rfl⟩, rfl, rfl⟩

theorem unread_checkMissing (h : Built digests index.tables index.replaced)
    (p : String → Bool) : Unread digests index (index.checkMissing p) := by
  have ha : ∀ (r : List SourceRow) (s : Index),
      (∀ row ∈ r, row.id = sourceId digests row.format row.path) →
      Unread digests index s → Unread digests index (r.foldl (fun index row =>
        if p row.path then index
        else index.unavailable ⟨row.id, row.format, row.path, "missing"⟩
          "missing_retained_snapshot") s) := by
    intro r
    induction r with
    | nil => exact fun _ _ hs => hs
    | cons row r ih =>
      intro s hr hs
      refine ih _ (fun row ho => hr row (mem_cons_of_mem _ ho)) ?_
      dsimp only
      split
      · exact hs
      · have hb : Built digests s.tables s.replaced :=
          hs.replaced.symm ▸ hs.built
        exact hs.trans (unread_unavailable hb (hr row mem_cons_self) _)
  refine ha _ index (fun row ho => h.named row ?_) ⟨h, rfl, rfl⟩
  exact (mem_filter.mp ho).1

theorem built_replace (h : Built digests index.tables index.replaced)
    (hso : source.id = sourceId digests source.format source.path) {digest : String}
    {facts : Parsed} (hr : index.replace source digest facts = .ok next) :
    Built digests next.tables next.replaced := by
  unfold Index.replace at hr
  split at hr
  · have hn := ok.inj hr
    have he : Renews fun row : SourceRow => { row with
        digest, state := if facts.diagnostics.isEmpty then "indexed" else "partial" } :=
      fun _ => ⟨rfl, rfl, rfl⟩
    let row : SourceRow := ⟨source.id, source.format, source.path, digest,
      if facts.diagnostics.isEmpty then "indexed" else "partial"⟩
    have ho : row.id = sourceId digests row.format row.path := hso
    have hs := h.setSource ho he
    have hw := mem_setSource he row index.tables.sources
    subst hn
    exact
      { sessions := by rw [rowsOf_append, ← h.sessions]
        calls := by rw [rowsOf_append, ← h.calls]
        turns := by rw [rowsOf_append, ← h.turns]
        distinct := hs.distinct
        known := by
          intro id hi
          rw [lastReplaced_append] at hi
          rcases mem_append.mp hi with hold | hl
          · exact hs.known id (mem_filter.mp hold).1
          · rw [mem_singleton.mp hl]
            exact hw
        named := hs.named }
  · contradiction

theorem replace_callFacts {d : String} {f : Parsed} (hr : index.replace source d f = .ok next) :
    next.callFacts = index.callFacts := by
  unfold Index.replace at hr
  split at hr
  · rw [← ok.inj hr]
  · contradiction

/-- Refreshing a source replaces its facts, or leaves the index as it is. -/
theorem refresh_ok {lo : Look} {c : Bool}
    (h : index.refresh digests source lo = .ok (c, next)) : (c = false ∧ next = index) ∨
      (c = true ∧ ∃ d f, index.replace source d f = .ok next) := by
  unfold Index.refresh at h
  dsimp only at h
  obtain ⟨pre, -, h⟩ := Base.bind_ok.mp h
  split at h
  · obtain ⟨rfl, rfl⟩ := Prod.mk.inj (ok.inj h)
    exact Or.inl ⟨rfl, rfl⟩
  obtain ⟨p, -, h⟩ := Base.bind_ok.mp h
  split at h
  · obtain ⟨rfl, rfl⟩ := Prod.mk.inj (ok.inj h)
    exact Or.inl ⟨rfl, rfl⟩
  obtain ⟨l, -, h⟩ := Base.bind_ok.mp h
  obtain ⟨-, h⟩ := Base.check_ok.mp h
  obtain ⟨replaced, hr, h⟩ := Base.bind_ok.mp h
  obtain ⟨rfl, rfl⟩ := Prod.mk.inj (ok.inj h)
  exact Or.inr ⟨rfl, _, _, hr⟩

/-- What visiting sources keeps: the calls of the last run, and where nothing was indexed the
facts. -/
structure Visited (digests : Digests) (index : Index) (state : Index × Nat) : Prop where
  built : Built digests state.1.tables state.1.replaced
  callFacts : state.1.callFacts = index.callFacts
  replaced : state.2 = 0 → state.1.replaced = index.replaced

variable {st : Index × Nat}

theorem Visited.unavailable (h : Visited digests index st)
    (hs : source.id = sourceId digests source.format source.path) (c : String) :
    Visited digests index (st.1.unavailable source c, st.2) := by
  have hu := unread_unavailable h.built hs c
  exact ⟨hu.replaced.symm ▸ hu.built, hu.callFacts.trans h.callFacts,
    fun hz => hu.replaced.trans (h.replaced hz)⟩

theorem Visited.visit (h : Visited digests index st) (f : Format × String × String × Look) :
    Visited digests index (Index.visit digests st f) := by
  have hs : (source digests f.1 f.2.1 f.2.2.1).id =
      sourceId digests (source digests f.1 f.2.1 f.2.2.1).format
        (source digests f.1 f.2.1 f.2.2.1).path := rfl
  unfold Index.visit
  dsimp only
  split
  · exact h.unavailable hs _
  · split
    · next next hr =>
      rcases refresh_ok hr with ⟨hn, -⟩ | ⟨-, d, fa, he⟩
      · contradiction
      · exact ⟨built_replace h.built hs he,
          (replace_callFacts he).trans h.callFacts, fun hz => by contradiction⟩
    · next next hr =>
      rcases refresh_ok hr with ⟨-, rfl⟩ | ⟨hy, -⟩
      · exact h
      · contradiction
    · exact h.unavailable hs _

theorem Visited.foldl (h : Visited digests index st) (d : List (Format × String × String × Look)) :
    Visited digests index (d.foldl (Index.visit digests) st) := by
  induction d generalizing st with
  | nil => exact h
  | cons f d ih => exact ih (h.visit f)

end

/-! ### Runs -/

/-- Whatever else is known of the sources, the same replacements give the same calls. -/
theorem derivedCalls_same {digests : Digests} (hd : Function.Injective digests.digest)
    {ta ot : Tables} {log : List (String × Parsed)} (h : Built digests ta log)
    (h' : Built digests ot log) : derivedCalls ta = derivedCalls ot := by
  have ho : callObservations ta = callObservations ot := by
    rw [h.observations, h'.observations, observedBy_same h h' rfl]
  have hr : ∀ o, rowOf ta o = rowOf ot o := by
    intro o
    have hs : (rowOf ta o).sourceIds = (rowOf ot o).sourceIds := by
      show (identityFor ta o.id).sourceIds = (identityFor ot o.id).sourceIds
      rw [identityFor, identityFor, ho]
    rw [rowOf_same h h' rfl, hs]
  rw [derivedCalls_eq h.sourced, derivedCalls_eq h'.sourced,
    chosen_congr_key fun _ hm => rankOf_same h h' rfl hd hm, ho]
  exact map_congr_left fun o _ => hr o

/-- What holds between runs. -/
structure Settled (digests : Digests) (index : Index) : Prop where
  built : Built digests index.tables index.replaced
  resolved : index.callFacts = derivedCalls index.tables

theorem settled_new (digests : Digests) : Settled digests .new where
  built :=
    { sessions := rfl
      calls := rfl
      turns := rfl
      distinct := nodup_nil
      known := fun _ hi => absurd hi not_mem_nil
      named := fun _ hr => absurd hr not_mem_nil }
  resolved := rfl

variable {digests : Digests} {i : Index}

/-- The end of a run that visited its sources. -/
theorem Visited.commit (h : Settled digests i) (hd : Function.Injective digests.digest)
    {v : Index × Nat} (hv : Visited digests i v) :
    ∃ next, (if 0 < v.2 then v.1.resolve else .ok v.1) = .ok next ∧
      Settled digests next := by
  by_cases hs : 0 < v.2
  · rw [if_pos hs, resolve_ok hv.built.sourced]
    exact ⟨_, rfl, hv.built, rfl⟩
  · have hr := hv.replaced (Nat.eq_zero_of_not_pos hs)
    rw [if_neg hs]
    refine ⟨_, rfl, hv.built, ?_⟩
    rw [hv.callFacts, h.resolved]
    exact derivedCalls_same hd h.built (hr ▸ hv.built)

/-- A run that is not interrupted is committed. -/
theorem Settled.run (h : Settled digests i) (hd : Function.Injective digests.digest) {g : IndexRun}
    (hg : g.interrupted = false) : ∃ next, i.run digests g = .ok next ∧ Settled digests next := by
  have hu := unread_checkMissing h.built g.present
  have hs : Visited digests i (i.checkMissing g.present, 0) :=
    ⟨hu.replaced.symm ▸ hu.built, hu.callFacts, fun _ => hu.replaced⟩
  rw [Index.run, if_neg (by simp [hg])]
  exact Visited.commit h hd (hs.foldl g.discovered)

theorem Settled.step (h : Settled digests i) (hd : Function.Injective digests.digest)
    (g : IndexRun) : Settled digests (i.step digests g) := by
  by_cases hg : g.interrupted = false
  · obtain ⟨next, hr, hn⟩ := h.run hd hg
    rw [Index.step, hr]
    exact hn
  · have hf : i.run digests g = .error storageError := by
      rw [Index.run, if_pos (by simpa using hg)]
    rw [Index.step, hf]
    exact h

theorem Settled.foldl (h : Settled digests i) (hd : Function.Injective digests.digest)
    (hi : List IndexRun) : Settled digests (hi.foldl (Index.step digests) i) := by
  induction hi generalizing i with
  | nil => exact h
  | cons g hi ih => exact ih (h.step hd g)

theorem Settled.countedOnce (h : Settled digests i)
    (hd : Function.Injective digests.digest) : CountedOnce digests i where
  distinct := by
    rw [h.resolved, map_id_derivedCalls h.built.sourced]
    exact nodup_eraseDups _
  complete := by
    intro id
    rw [h.resolved, map_id_derivedCalls h.built.sourced, mem_eraseDups, mem_map]
  counted := by
    rw [h.resolved, sum_observationCount h.built.sourced]
  accepted := by
    intro g hg
    obtain ⟨next, hr, -⟩ := h.run hd hg
    exact ⟨next, hr⟩

/-! ### Two histories -/

section

variable {x : Index} (h : Settled digests i) (h' : Settled digests x)
  (hsame : latest i.replaced = latest x.replaced)

include h

theorem mem_callFacts (row : DerivedCall) : row ∈ i.callFacts ↔
    ∃ o, firstBy (rankOf i.tables.sources)
        (group (·.id) (callObservations i.tables) o.id) = some o ∧ row = rowOf i.tables o := by
  rw [h.resolved, derivedCalls_eq h.built.sourced, mem_map]
  constructor
  · rintro ⟨o, hm, rfl⟩
    exact ⟨o, mem_chosen.mp hm, rfl⟩
  · rintro ⟨o, hf, rfl⟩
    exact ⟨o, mem_chosen.mpr hf, rfl⟩

/-- Whether a source observes a call. -/
def observes (tables : Tables) (id source : String) : Bool :=
  (callObservations tables).any fun observation =>
    observation.id == id && observation.sourceId == source

omit h in
theorem observes_iff (ta : Tables) (id source : String) : observes ta id source = true ↔
    ∃ o ∈ callObservations ta, o.id = id ∧ o.sourceId = source := by
  simp [observes]

/-- The sources of a call are those that observe it, in the order of their replacement. -/
theorem sourceIds_eq (id : String) : (identityFor i.tables id).sourceIds =
    (lastReplaced i.replaced).filter (observes i.tables id) := by
  have ho : ∀ source, observes i.tables id source =
      !(group (·.id) (observedBy i.tables.sessions (latest i.replaced) source) id).isEmpty := by
    intro source
    rw [Bool.eq_iff_iff, observes_iff, Bool.not_eq_true', isEmpty_eq_false_iff_exists_mem]
    constructor
    · rintro ⟨o, hm, hi, hs⟩
      rw [h.built.observations] at hm
      obtain ⟨own, -, hw⟩ := mem_flatMap.mp hm
      rw [← sourceId_observedBy own o hw, hs] at hw
      exact ⟨o, mem_group.mpr ⟨hw, hi⟩⟩
    · rintro ⟨o, hm⟩
      obtain ⟨hw, hi⟩ := mem_group.mp hm
      refine ⟨o, ?_, hi, sourceId_observedBy source o hw⟩
      rw [h.built.observations]
      refine mem_flatMap.mpr ⟨source, ?_, hw⟩
      rw [mem_lastReplaced]
      by_contra hn
      rw [Option.not_isSome_iff_eq_none] at hn
      rw [observedBy, hn] at hw
      exact absurd hw not_mem_nil
  have heq : (identityFor i.tables id).sourceIds =
      ((group (·.id) (callObservations i.tables) id).map (·.sourceId)).eraseDups := rfl
  rw [heq, h.built.observations, group_flatMap, eraseDups_blocks ?_ (nodup_lastReplaced _)]
  · exact filter_congr fun source _ => (ho source).symm
  · intro source o hm
    exact sourceId_observedBy source _ (mem_group.mp hm).1

include h' hsame

/-- A call has the same list of sources where these were last replaced in the same order. -/
theorem sourceIds_same_iff (id : String) :
    (identityFor i.tables id).sourceIds = (identityFor x.tables id).sourceIds ↔
      ∀ a b, observes i.tables id a = true → observes i.tables id b = true →
        (Precedes i.replaced a b ↔ Precedes x.replaced a b) := by
  have hb : observes x.tables id = observes i.tables id := by
    funext source
    rw [Bool.eq_iff_iff, observes_iff, observes_iff]
    have hp := observations_perm h.built h'.built hsame
    exact ⟨fun ⟨o, ho, hr⟩ => ⟨o, hp.mem_iff.mpr ho, hr⟩,
      fun ⟨o, ho, hr⟩ => ⟨o, hp.mem_iff.mp ho, hr⟩⟩
  rw [sourceIds_eq h, sourceIds_eq h', hb]
  exact filter_eq_iff (lastReplaced_perm hsame) (nodup_lastReplaced _) _

/-- Two indexes have the same rows exactly where the sources of each call are in the same order. -/
theorem rows_same_iff (hd : Function.Injective digests.digest) :
    (∀ row, row ∈ i.callFacts ↔ row ∈ x.callFacts) ↔ SameOrder i x := by
  have hf := firstBy_same h.built h'.built hsame hd
  constructor
  · intro hr one hn two ht hids
    have hm : one.id ∈ (callObservations i.tables).map (·.id) := mem_map_of_mem hn
    obtain ⟨c, hc⟩ :=
      firstBy_isSome (rankOf i.tables.sources) (group_ne_nil hm)
    have hi : c.id = one.id := (mem_group.mp (mem_of_firstBy hc)).2
    rw [← hi] at hc
    obtain ⟨c', hc', hw⟩ := (mem_callFacts h' _).mp
      ((hr _).mp ((mem_callFacts h _).mpr ⟨c, hc, rfl⟩))
    have hi' : c.id = c'.id := congrArg DerivedCall.id hw
    rw [← hi', ← hf, hc] at hc'
    rw [← Option.some.inj hc'] at hw
    have hs : (identityFor i.tables c.id).sourceIds =
        (identityFor x.tables c.id).sourceIds := congrArg DerivedCall.sourceIds hw
    refine (sourceIds_same_iff h h' hsame c.id).mp hs _ _ ?_ ?_
    · exact (observes_iff _ _ _).mpr ⟨one, hn, hi.symm, rfl⟩
    · exact (observes_iff _ _ _).mpr ⟨two, ht, hids.symm.trans hi.symm, rfl⟩
  · intro ho
    have hw : ∀ o, rowOf i.tables o = rowOf x.tables o := by
      intro o
      have hs : (rowOf i.tables o).sourceIds = (rowOf x.tables o).sourceIds := by
        refine (sourceIds_same_iff h h' hsame o.id).mpr fun a b ha hb => ?_
        obtain ⟨one, hn, hi, rfl⟩ := (observes_iff _ _ _).mp ha
        obtain ⟨two, ht, hi', rfl⟩ := (observes_iff _ _ _).mp hb
        exact ho one hn two ht (hi.trans hi'.symm)
      rw [rowOf_same h.built h'.built hsame, hs]
    intro row
    rw [mem_callFacts h, mem_callFacts h']
    constructor
    · rintro ⟨o, hc, rfl⟩
      exact ⟨o, (hf _).symm.trans hc, hw o⟩
    · rintro ⟨o, hc, rfl⟩
      exact ⟨o, (hf _).trans hc, (hw o).symm⟩

end

/-- For all histories that leave the same last facts of every source: each call is counted once in
both, and both have the same rows exactly where they last replaced the sources that observe one call
in the same order. -/
theorem calls_counted_iff (digests : Digests) (hdigest : Function.Injective digests.digest)
    (history history' : List IndexRun)
    (hsame : latest (history.foldl (Index.step digests) .new).replaced =
      latest (history'.foldl (Index.step digests) .new).replaced) :
    (CountedOnce digests (history.foldl (Index.step digests) .new) ∧
      CountedOnce digests (history'.foldl (Index.step digests) .new) ∧
      ∀ row, row ∈ (history.foldl (Index.step digests) .new).callFacts ↔
        row ∈ (history'.foldl (Index.step digests) .new).callFacts) ↔
      SameOrder (history.foldl (Index.step digests) .new)
        (history'.foldl (Index.step digests) .new) := by
  have h := (settled_new digests).foldl hdigest history
  have h' := (settled_new digests).foldl hdigest history'
  rw [← rows_same_iff h h' hsame hdigest]
  exact ⟨fun ha => ha.2.2, fun hr => ⟨h.countedOnce hdigest, h'.countedOnce hdigest, hr⟩⟩

/-! ### A call that two sources observe -/

/-- The digest of a text is the text. -/
def plainDigests : Digests := ⟨id, fun _ => "facts", "normalizer"⟩

/-- One call, as a transcript and its archived copy record it. -/
def sharedFacts : Parsed :=
  ⟨[], [⟨"codex:1:call:1", "codex:1", "1", none, none, "codex", none, none, .text "null",
      "\x7b\x7d",
    false, false, none, none, []⟩], [], []⟩

def sharedLook (fingerprint : String) : Look :=
  ⟨.ok fingerprint, .ok sharedFacts, .ok fingerprint⟩

/-- A run over both, in which the archived copy has some content. -/
def copiesRun (fingerprint : String) : IndexRun where
  present := fun _ => true
  discovered := [(.codex, "archived_sessions/1.jsonl", "present", sharedLook fingerprint),
    (.codex, "sessions/1.jsonl", "present", sharedLook "same")]
  interrupted := false

/-- The index after runs with some contents. -/
def copiesIndex (fingerprints : List String) : Index :=
  (fingerprints.map copiesRun).foldl (Index.step plainDigests) .new

theorem calls_counted_sample : (CountedOnce plainDigests (copiesIndex ["one"]) ∧
      CountedOnce plainDigests (copiesIndex ["one", "one"]) ∧
      ∀ row, row ∈ (copiesIndex ["one"]).callFacts ↔ row ∈ (copiesIndex ["one", "one"]).callFacts) ↔
      SameOrder (copiesIndex ["one"]) (copiesIndex ["one", "one"]) :=
  calls_counted_iff plainDigests injective_id (["one"].map copiesRun)
    (["one", "one"].map copiesRun) (congrArg latest (by decide +kernel :
      (copiesIndex ["one"]).replaced = (copiesIndex ["one", "one"]).replaced))

theorem replaced_copies : (copiesIndex ["one", "two"]).replaced =
    (copiesIndex ["one"]).replaced ++ [("codex:archived_sessions/1.jsonl", sharedFacts)] := by
  decide +kernel

/-- Reading the archived copy again, with no other facts, changes the row of the call. -/
theorem reread_copy_reorders :
    latest (copiesIndex ["one"]).replaced = latest (copiesIndex ["one", "two"]).replaced ∧
      ¬ ∀ row, row ∈ (copiesIndex ["one"]).callFacts ↔
        row ∈ (copiesIndex ["one", "two"]).callFacts := by
  constructor
  · have hf : (copiesIndex ["one"]).replaced = [("codex:archived_sessions/1.jsonl", sharedFacts),
          ("codex:sessions/1.jsonl", sharedFacts)] := by
      decide +kernel
    rw [replaced_copies, latest_append, hf]
    funext id
    rw [update_apply]
    split
    · next heq =>
      rw [heq]
      rfl
    · rfl
  · intro ha
    have hl : ∃ row ∈ (copiesIndex ["one"]).callFacts,
        row ∉ (copiesIndex ["one", "two"]).callFacts := by
      decide +kernel
    obtain ⟨row, hr, hn⟩ := hl
    exact hn ((ha row).mp hr)

end Louiselm.Usage
