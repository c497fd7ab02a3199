import Louiselm.Usage.Index

/-!
# One row for every call

`usage-cli/src/schema.sql`: none of the joins behind the derived calls fans out. Each call that is
observed has one row, made of its own observations, and every observation is counted in one.
-/

namespace Louiselm.Usage
open Base.Rows Option

/-! ### What the joins find -/

theorem aliasOf_nativeId {ni : String} {s : List Session} {f : Alias}
    (h : aliasOf ni s = some f) : f.nativeId = ni := by
  unfold aliasOf at h
  split at h
  · obtain ⟨id, -, h⟩ := bind_eq_some_iff.mp h
    obtain ⟨a, -, h⟩ := bind_eq_some_iff.mp h
    rw [← some.inj h]
  · contradiction

theorem alias_keyed : ∀ (x : String × List Session) (f : Alias), aliasOf x.1 x.2 = some f →
      ∃ k, some f.nativeId = some k ∧ id k = x.1 :=
  fun _ _ h => ⟨_, rfl, aliasOf_nativeId h⟩

theorem nodup_nativeAliases (s : List (String × Session)) :
    ((nativeAliases s).filterMap fun f => some f.nativeId).Nodup :=
  nodup_groups id alias_keyed _

/-- The alias of a native Session. -/
def aliasFor (sessions : List (String × Session)) (nativeId : String) : Option Alias :=
  lookup (fun found => some found.nativeId) (nativeAliases sessions) nativeId

/-- What an observation is of a call. -/
def observationOf (sessions : List (String × Session)) (sourceId : String) (call : Call) :
    Observation :=
  observe sourceId call (call.aliased.bind (aliasFor sessions))

@[simp] theorem sourceId_observationOf (s : List (String × Session)) (si : String)
    (c : Call) : (observationOf s si c).sourceId = si := by
  rw [observationOf]
  cases c.aliased.bind (aliasFor s) <;> rfl

/-- Every call is observed once. -/
theorem callObservations_eq (tables : Tables) : callObservations tables =
    tables.calls.map fun x => observationOf tables.sessions x.1 x.2 := by
  rw [callObservations, leftJoin_eq (nodup_nativeAliases _), List.map_map]
  rfl

theorem lookup_identities (o : List Observation) {id : String} (h : id ∈ o.map (·.id)) :
    lookup (fun i => some i.id) (identities o) id = some (identityOf id (group (·.id) o id)) := by
  rw [identities, ← List.filterMap_eq_map]
  have hk : ∀ (x : String × List Observation) (f : Identity),
      (some ∘ fun x : String × List Observation => identityOf x.1 x.2) x =
        some f → ∃ k, some f.id = some k ∧ (fun k : String => k) k = x.1 := by
    rintro x f hf
    exact ⟨_, rfl, by rw [← some.inj hf]; rfl⟩
  rw [lookup_groups Function.injective_id hk]
  exact if_pos h

theorem nodup_identities (o : List Observation) :
    ((identities o).filterMap fun i => some i.id).Nodup := by
  rw [identities, ← List.filterMap_eq_map]
  refine nodup_groups id ?_ o
  rintro x f hf
  exact ⟨_, rfl, by rw [← some.inj hf]; rfl⟩

theorem durableOf_keyed : ∀ (x : (String × Option String) × List Turn) (f : Durable),
    durableOf x = some f → ∃ k, some (f.nativeSession, f.rpc) = some k ∧
        (fun key : String × String => (key.1, some key.2)) k = x.1 := by
  rintro ⟨⟨nativeSession, rpc⟩, t⟩ f h
  unfold durableOf at h
  split at h
  · next heq =>
    obtain ⟨hk, -⟩ := Prod.mk.inj heq
    obtain ⟨rfl, rfl⟩ := Prod.mk.inj hk
    rw [← some.inj h]
    exact ⟨_, rfl, rfl⟩
  · contradiction

/-- The turn of a request. -/
def durableFor (turns : List (String × Turn)) (key : String × String) : Option Durable :=
  lookup (fun found => some (found.nativeSession, found.rpc)) (durable turns) key

theorem nodup_durable (t : List (String × Turn)) :
    ((durable t).filterMap fun f => some (f.nativeSession, f.rpc)).Nodup :=
  nodup_groups _ durableOf_keyed _

theorem nodup_nativeSessions (s : List (String × Session)) :
    ((nativeSessions s).filterMap some).Nodup := by
  rw [List.filterMap_some]
  exact nodup_eraseDups _

/-! ### Sources -/

/-- Sources have distinct identities, and the source of every call is there. -/
structure Tables.Sourced (tables : Tables) : Prop where
  distinct : (tables.sources.map (·.id)).Nodup
  known : ∀ item ∈ tables.calls, ∃ row ∈ tables.sources, row.id = item.1

/-- The row of a source; of another there is nothing to say. -/
def sourceRow (sources : List SourceRow) (id : String) : SourceRow :=
  (lookup (fun row => some row.id) sources id).getD ⟨id, .acp, "", "", ""⟩

theorem lookup_sourceRow {s : List SourceRow} {id : String} (h : ∃ row ∈ s, row.id = id) :
    lookup (fun row => some row.id) s id = some (sourceRow s id) := by
  obtain ⟨row, hr, hi⟩ := h
  have hs : (lookup (fun row => some row.id) s id).isSome := by
    rw [lookup, List.find?_isSome]
    exact ⟨row, hr, by simpa using hi⟩
  obtain ⟨f, hf⟩ := isSome_iff_exists.mp hs
  rw [sourceRow, hf]
  rfl

/-- The rank of an observation by its source. -/
def rankOf (sources : List SourceRow) (observation : Observation) : ℕ ×ₗ String :=
  rank (observation, sourceRow sources observation.sourceId)

variable {tables : Tables}

/-- The observations that stand for calls, without the join. -/
theorem ranked_eq (h : tables.Sourced) :
    ranked tables = chosen (·.id) (rankOf tables.sources) (callObservations tables) := by
  have hj : join (fun o : Observation => some o.sourceId) (fun row : SourceRow => some row.id)
      (callObservations tables) tables.sources = (callObservations tables).map fun o =>
          (o, sourceRow tables.sources o.sourceId) := by
    refine join_eq ?_ fun o hm => ?_
    · rw [show (fun row : SourceRow => some row.id) = some ∘ (·.id) from rfl, List.filterMap_eq_map]
      exact h.distinct
    · rw [callObservations_eq] at hm
      obtain ⟨x, hi, rfl⟩ := List.mem_map.mp hm
      rw [sourceId_observationOf]
      exact lookup_sourceRow (h.known x hi)
  rw [ranked, hj, chosen_map, List.map_map]
  exact List.map_id _

/-! ### Rows -/

/-- The identity of an observed call. -/
def identityFor (tables : Tables) (id : String) : Identity :=
  identityOf id (group (·.id) (callObservations tables) id)

/-- The row of the call that an observation stands for. -/
def rowOf (tables : Tables) (observation : Observation) : DerivedCall :=
  let item := (observation, identityFor tables observation.id)
  derive ((item, (requestKey item).bind (durableFor tables.turns)),
    lookup some (nativeSessions tables.sessions) observation.call.nativeSessionId)

/-- No join fans out. -/
theorem derivedCalls_eq (h : tables.Sourced) : derivedCalls tables =
    (chosen (·.id) (rankOf tables.sources) (callObservations tables)).map (rowOf tables) := by
  have hb : baseCalls tables = (ranked tables).map fun o =>
      (o, identityFor tables o.id) := by
    rw [baseCalls]
    refine join_eq (nodup_identities _) fun o hm => ?_
    refine lookup_identities _ ?_
    rw [ranked_eq h] at hm
    exact List.mem_map_of_mem (mem_group.mp (mem_of_firstBy (mem_chosen.mp hm))).1
  rw [derivedCalls, leftJoin_eq (nodup_nativeSessions _), List.map_map,
    leftJoin_eq (nodup_durable _), hb, List.map_map, List.map_map, ranked_eq h]
  rfl

/-- The derived calls are the observed ones, each once. -/
theorem map_id_derivedCalls (h : tables.Sourced) :
    (derivedCalls tables).map (·.id) = ((callObservations tables).map (·.id)).eraseDups := by
  rw [derivedCalls_eq h, List.map_map, ← map_chosen (·.id) (rankOf tables.sources)]
  rfl

/-- Every row of the calls is counted in one derived call. -/
theorem sum_observationCount (h : tables.Sourced) :
    ((derivedCalls tables).map (·.observationCount)).sum = tables.calls.length := by
  have hl := sum_length_groups (·.id) (callObservations tables)
  rw [groups, List.map_map, ← map_chosen (·.id) (rankOf tables.sources), List.map_map] at hl
  rw [derivedCalls_eq h, List.map_map]
  refine Eq.trans hl ?_
  rw [callObservations_eq, List.length_map]

/-- So deriving them anew is never refused. -/
theorem resolve_ok {index : Index} (h : index.tables.Sourced) :
    index.resolve = .ok { index with callFacts := derivedCalls index.tables } := by
  have hn : ((derivedCalls index.tables).map (·.id)).Nodup := by
    rw [map_id_derivedCalls h]
    exact nodup_eraseDups _
  rw [Index.resolve]
  exact if_pos hn

end Louiselm.Usage
