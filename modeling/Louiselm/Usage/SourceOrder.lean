import Louiselm.Usage.Replaced

/-!
# What the order of sources decides

`usage-cli/src/schema.sql`: two indexes with the same last facts of every source derive the same
calls, but for the lists of a call's sources. These are the sources that observe it in the order in
which they were last replaced.
-/

namespace Louiselm.Usage
open Base.Rows List

/-! ### Values that no order decides -/

theorem aliasOf_perm {sessions o : List Session} (h : sessions.Perm o)
    (ni : String) : aliasOf ni sessions = aliasOf ni o := by
  rw [aliasOf, aliasOf, countDistinct_perm (h.map _), least_perm (h.map _), least_perm (h.map _)]

variable {sessions x : List (String × Session)}

theorem aliasFor_perm (h : sessions.Perm x) : aliasFor sessions = aliasFor x := by
  funext nativeId
  have hp : ((sessions.map Prod.snd).filter (·.louiselmOrigin)).Perm
      ((x.map Prod.snd).filter (·.louiselmOrigin)) := (h.map _).filter _
  rw [aliasFor, aliasFor, nativeAliases, nativeAliases,
    lookup_groups Function.injective_id alias_keyed,
    lookup_groups Function.injective_id alias_keyed, aliasOf_perm (group_perm hp _)]
  exact if_congr (hp.map _).mem_iff rfl rfl

theorem observationOf_perm (h : sessions.Perm x) : observationOf sessions = observationOf x := by
  funext sourceId call
  rw [observationOf, observationOf, aliasFor_perm h]

theorem durableOf_eq_none {t : List Turn} (h : t.length ≠ 1)
    (key : String × Option String) : durableOf (key, t) = none := by
  unfold durableOf
  split
  · next heq =>
    rw [(Prod.mk.inj heq).2] at h
    exact absurd rfl h
  · rfl

theorem durableOf_perm {t x : List Turn} (h : t.Perm x)
    (key : String × Option String) : durableOf (key, t) = durableOf (key, x) := by
  by_cases ho : t.length = 1
  · obtain ⟨tu, rfl⟩ := length_eq_one_iff.mp ho
    rw [singleton_perm.mp h]
  · rw [durableOf_eq_none ho, durableOf_eq_none (h.length_eq ▸ ho)]

theorem durableFor_perm {t x : List (String × Turn)}
    (h : (turnFacts t).Perm (turnFacts x)) : durableFor t = durableFor x := by
  funext key
  have hi : Function.Injective fun key : String × String => (key.1, some key.2) := by
    rintro ⟨ns, rpc⟩ ⟨x, otr⟩ heq
    simpa using heq
  have hp : (((turnFacts t).map Prod.snd).filter (·.dispatched)).Perm
      (((turnFacts x).map Prod.snd).filter (·.dispatched)) := (h.map _).filter _
  rw [durableFor, durableFor, durable, durable, lookup_groups hi durableOf_keyed,
    lookup_groups hi durableOf_keyed, durableOf_perm (group_perm hp _)]
  exact if_congr (hp.map _).mem_iff rfl rfl

theorem nativeSessions_perm (h : sessions.Perm x) (ni : String) :
    lookup some (nativeSessions sessions) ni = lookup some (nativeSessions x) ni := by
  rw [lookup_self, lookup_self]
  refine if_congr ?_ rfl rfl
  rw [nativeSessions, nativeSessions, mem_eraseDups, mem_eraseDups]
  exact (((h.map _).filter _).map _).mem_iff

/-- What the observations of a call amount to, but for their sources. -/
theorem identityOf_perm {o x : List Observation} (h : o.Perm x) (id : String) : identityOf id o =
      { identityOf id x with sourceIds := (o.map (·.sourceId)).eraseDups } := by
  rw [identityOf, identityOf, h.length_eq, countDistinct_perm (h.map _), least_perm (h.filterMap _),
    countDistinct_perm (h.map _), countDistinct_perm (h.map _)]

/-! ### Formats -/

theorem Format.name_inj {f x : Format} (h : f.name = x.name) : f = x := by
  cases f <;> cases x <;> first | rfl | exact absurd h (by decide)

theorem Format.name_colon (f : Format) : ∀ c ∈ f.name.toList, c ≠ ':' := by
  cases f <;> simp [Format.name]

/-- The format of a source is read off its name. -/
theorem format_of_name {f x : Format} {p op : String}
    (h : f.name ++ ":" ++ p = x.name ++ ":" ++ op) : f = x := by
  have hr : ∀ (f : Format) (p : String),
      (f.name ++ ":" ++ p).toList.takeWhile (· ≠ ':') = f.name.toList := by
    intro f p
    rw [String.toList_append, String.toList_append, append_assoc,
      takeWhile_append_of_pos fun c hc => by simpa using f.name_colon c hc]
    simp
  have hn := (hr f p).symm.trans ((congrArg (fun t : String =>
    t.toList.takeWhile (· ≠ ':')) h).trans (hr x op))
  exact Format.name_inj (String.toList_inj.mp hn)

/-! ### Two indexes with the same facts -/

section

variable {ds : Digests} {ta x : Tables} {log log' : List (String × Parsed)}

theorem lastReplaced_perm (ha : latest log = latest log') :
    (lastReplaced log).Perm (lastReplaced log') := by
  rw [perm_ext_iff_of_nodup (nodup_lastReplaced _) (nodup_lastReplaced _)]
  intro id
  rw [mem_lastReplaced, mem_lastReplaced, ha]

theorem rowsOf_perm {α : Type} (ha : latest log = latest log') (s : Parsed → List α) :
    (rowsOf s log).Perm (rowsOf s log') := by
  rw [rowsOf, rowsOf, ha]
  exact (lastReplaced_perm ha).flatMap_right _

/-- The observations of one source. -/
def observedBy (sessions : List (String × Session)) (known : String → Option Parsed)
    (id : String) : List Observation :=
  (((known id).map (·.calls)).getD []).map (observationOf sessions id)

theorem Built.observations (h : Built ds ta log) : callObservations ta =
    (lastReplaced log).flatMap (observedBy ta.sessions (latest log)) := by
  rw [callObservations_eq, h.calls, rowsOf, map_flatMap]
  refine congrArg (List.flatMap · _) (funext fun id => ?_)
  rw [map_map]
  rfl

theorem sourceId_observedBy {sessions : List (String × Session)} {k : String → Option Parsed}
    (id : String) : ∀ o ∈ observedBy sessions k id, o.sourceId = id := by
  intro o hm
  obtain ⟨c, -, rfl⟩ := mem_map.mp hm
  exact sourceId_observationOf _ _ _

variable (h : Built ds ta log) (h' : Built ds x log') (hs : latest log = latest log')

include h h' hs

theorem sessions_perm : ta.sessions.Perm x.sessions := by
  rw [h.sessions, h'.sessions]
  exact rowsOf_perm hs _

/-- Each source observes the same. -/
theorem observedBy_same :
    observedBy ta.sessions (latest log) = observedBy x.sessions (latest log') := by
  funext id
  rw [observedBy, observedBy, observationOf_perm (sessions_perm h h' hs), hs]

theorem observations_perm : (callObservations ta).Perm (callObservations x) := by
  rw [h.observations, h'.observations, ← observedBy_same h h' hs]
  exact (lastReplaced_perm hs).flatMap_right _

theorem turnFacts_perm : (turnFacts ta.turns).Perm (turnFacts x.turns) := by
  refine chosen_perm fun k => ?_
  rw [h.turns, h'.turns, rowsOf, rowsOf, ← hs, group_flatMap, group_flatMap]
  refine firstBy_blocks id ?_ (nodup_lastReplaced log) (lastReplaced_perm hs)
  intro id row hr
  obtain ⟨t, -, rfl⟩ := mem_map.mp (mem_group.mp hr).1
  rfl

/-- The sources of an observation have the same format. -/
theorem rankOf_same (hg : Function.Injective ds.digest) {o : Observation}
    (hm : o ∈ callObservations ta) : rankOf ta.sources o = rankOf x.sources o := by
  have hr : ∀ {ta : Tables} {log : List (String × Parsed)}, Built ds ta log →
      o ∈ callObservations ta → ∃ p, o.sourceId =
        sourceId ds (sourceRow ta.sources o.sourceId).format p := by
    intro ta log hb hm
    rw [callObservations_eq] at hm
    obtain ⟨it, hi, rfl⟩ := mem_map.mp hm
    rw [sourceId_observationOf]
    have hl := lookup_sourceRow (hb.sourced.known it hi)
    have hd : some (sourceRow ta.sources it.1).id = some it.1 := by
      simpa using List.find?_some hl
    refine ⟨(sourceRow ta.sources it.1).path, ?_⟩
    rw [← hb.named _ (mem_of_find?_eq_some hl)]
    exact (Option.some.inj hd).symm
  obtain ⟨p, hd⟩ := hr h hm
  obtain ⟨p', hi'⟩ := hr h' ((observations_perm h h' hs).mem_iff.mp hm)
  have hf := format_of_name (hg (hd.symm.trans hi'))
  rw [rankOf, rankOf, rank, rank]
  dsimp only
  rw [hf]

/-- The same observation stands for a call. -/
theorem firstBy_same (hd : Function.Injective ds.digest) (id : String) :
    firstBy (rankOf ta.sources) (group (·.id) (callObservations ta) id) =
      firstBy (rankOf x.sources) (group (·.id) (callObservations x) id) := by
  have hb : firstBy (rankOf ta.sources) (group (·.id) (callObservations ta) id) =
      firstBy (rankOf ta.sources) (group (·.id) (callObservations x) id) := by
    rw [h.observations, h'.observations, ← observedBy_same h h' hs, group_flatMap, group_flatMap]
    refine firstBy_blocks (fun key => (ofLex key).2) ?_ (nodup_lastReplaced log)
      (lastReplaced_perm hs)
    intro s o hm
    exact sourceId_observedBy s _ (mem_group.mp hm).1
  rw [hb]
  refine firstBy_congr_key fun o hm => rankOf_same h h' hs hd ?_
  exact (observations_perm h h' hs).mem_iff.mpr (mem_group.mp hm).1

/-- Rows differ in their sources only. -/
theorem rowOf_same (o : Observation) : rowOf ta o =
    { rowOf x o with sourceIds := (rowOf ta o).sourceIds } := by
  have hi : identityFor ta o.id = { identityFor x o.id with
        sourceIds := (identityFor ta o.id).sourceIds } :=
    identityOf_perm (group_perm (observations_perm h h' hs) _) _
  have hk : requestKey (o, identityFor ta o.id) = requestKey (o, identityFor x o.id) := by
    rw [requestKey, hi]
    rfl
  have hn : (identityFor ta o.id).observationCount = (identityFor x o.id).observationCount := by
    rw [hi]
  have hc : (identityFor ta o.id).conflict = (identityFor x o.id).conflict := by
    rw [hi]
  rw [rowOf, rowOf]
  dsimp only
  rw [hk, durableFor_perm (turnFacts_perm h h' hs),
    nativeSessions_perm (sessions_perm h h' hs), derive, derive]
  dsimp only
  rw [hn, hc]

end

end Louiselm.Usage
