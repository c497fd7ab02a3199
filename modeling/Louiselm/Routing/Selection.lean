import Louiselm.Routing.QualificationRuns
import Louiselm.Session.Records

/-!
# Auto selection

`lua/louiselm/routing/routing.lua`: the pair that an approved comparison selects, the reason why it
selects none, and the check before a decision is recorded; and `select_auto` of
`lua/louiselm/session/lifecycle.lua`, which makes the decisions. The figures of a comparison are
grouped in a table, which is iterated over in any order.
-/

namespace Louiselm.Routing.Selection
open Base Base.Lua List
open Session (object)
open Qualification (economics allowance exact items lookup nonempty oneOf readState sameValue under
  ReadLook Stored)
open Qualification Value
open Option (some.injEq some.inj)

/-! ### Figures -/

/-- An order in which a table can be iterated over. -/
structure Iteration (α : Type) where
  list : List α → List α
  perm : ∀ items, (list items).Perm items

def metricOf (entry : Value) : String := (text? (entry.field "metric")).getD ""

def unitOf (entry : Value) : String := (text? (entry.field "unit")).getD ""

def routeOf (entry : Value) : String := (text? (entry.field "route")).getD ""

def kindOf (entry : Value) : String := (text? (entry.field "kind")).getD ""

def quantityOf : Option Value → ℚ
  | some (.num (.finite q)) => q
  | _ => 0

def valueOf (entry : Value) : ℚ := quantityOf (entry.field "value")

/-- Whether a figure is one of a cost or a quota. -/
def isGrouped (entry : Value) : Bool := metricOf entry == "api_cost" || metricOf entry == "quota"

/-- The group of a figure. No metric has a colon, so that the text that joins them tells metric and
unit apart. -/
def keyOf (entry : Value) : String × String := (metricOf entry, unitOf entry)

/-- The keys of the groups, and the figures of each under their routes. -/
structure Groups where
  keys : List (String × String)
  figure : String × String → String → Option Value

/-- Put the figures into groups, unless one has no route or another one is in its place. -/
def gather (groups : Groups) : List Value → Option Groups
  | [] => some groups
  | entry :: entries =>
    if isGrouped entry then
      if routeOf entry ≠ "baseline" ∧ routeOf entry ≠ "candidate" then none
      else if (groups.figure (keyOf entry) (routeOf entry)).isSome then none
      else gather ⟨if keyOf entry ∈ groups.keys then groups.keys else groups.keys ++ [keyOf entry],
          Function.update groups.figure (keyOf entry)
            (Function.update (groups.figure (keyOf entry)) (routeOf entry) (some entry))⟩ entries
    else gather groups entries

/-- What the groups come to: the extra costs in each currency, and whether a cost or a quota is
better. -/
structure Tally where
  extra : List (String × ℚ)
  cheaper : Bool
  quotaBetter : Bool

abbrev Figures := String × String → String → Option Value

/-- What is wrong with the figures of a group. -/
def fault (figure : Figures) (key : String × String) : Option String :=
  match figure key "baseline", figure key "candidate" with
  | some baseline, some candidate =>
    if kindOf baseline ≠ kindOf candidate then some "economics_unknown"
    else if key.1 ≠ "api_cost" ∧ valueOf baseline < valueOf candidate then some "economics_worse"
    else none
  | _, _ => some "economics_unknown"

/-- A route's figure of a group. -/
def amount (figure : Figures) (key : String × String) (route : String) : ℚ :=
  ((figure key route).map valueOf).getD 0

variable (minus : ℚ → ℚ → ℚ)

/-- Count a group that has both figures. The difference of two numbers is rounded. -/
def Tally.count (figure : Figures) (tally : Tally) (key : String × String) : Tally :=
  let baseline := amount figure key "baseline"
  let candidate := amount figure key "candidate"
  if key.1 = "api_cost" then
    { tally with
      extra := if baseline < candidate then tally.extra ++ [(key.2, minus candidate baseline)]
        else tally.extra
      cheaper := tally.cheaper || candidate < baseline }
  else { tally with quotaBetter := tally.quotaBetter || candidate < baseline }

/-- The loop over the groups. -/
def scan (figure : Figures) : List (String × String) → Tally → Except String Tally
  | [], tally => .ok tally
  | key :: keys, tally =>
    match fault figure key with
    | some reason => .error reason
    | none => scan figure keys (tally.count minus figure key)

/-- Whether an allowance does not cover an extra cost. -/
def exceeds (allowed : Value) (cost : String × ℚ) : Bool :=
  text? (under (allowed.field "max_extra_cost") "currency") != some cost.1 ||
    decide (quantityOf (under (allowed.field "max_extra_cost") "value") < cost.2)

/-- The orders in which the tables of a decision are iterated over. -/
structure Orders where
  groups : Iteration (String × String)
  extra : Iteration (String × ℚ)

/-- Why what the groups come to does not speak for the candidate. -/
def Tally.reason (orders : Orders) (allowed : Option Value) (tally : Tally) : Option String :=
  if tally.extra ≠ [] then
    if !tally.quotaBetter then some "no_economic_benefit"
    else match allowed with
      | none => some "allowance_missing"
      | some allowed =>
        if (orders.extra.list tally.extra).any (exceeds allowed) then some "allowance_insufficient"
        else none
  else if !tally.cheaper && !tally.quotaBetter then some "no_economic_benefit"
  else none

/-- Why the figures do not speak for the candidate. -/
def economicReason (orders : Orders) (figures allowed : Option Value) : Option String :=
  match gather ⟨[], fun _ _ => none⟩ (items figures) with
  | none => some "economics_unknown"
  | some groups =>
    if !(items figures).any (metricOf · == "api_cost") then some "economics_unknown"
    else match scan minus groups.figure (orders.groups.list groups.keys) ⟨[], false, false⟩ with
      | .error reason => some reason
      | .ok tally => tally.reason orders allowed

/-! ### Selection -/

/-- Whether two routes are the same; the other one is a table. -/
def sameRoute (left right : Option Value) : Bool :=
  match under left "options", under right "options" with
  | some (.table options), some (.table others) =>
    (["agent", "provider", "model", "model_option_id"].all fun key =>
      sameValue (under left key) (under right key)) &&
    (options.all fun option => sameValue (others.lookup option.1) (some option.2)) &&
    others.all fun option => sameValue (options.lookup option.1) (some option.2)
  | _, _ => false

/-- The Model and the effort of a route of a scope. -/
def pairOf (scope : Value) (route : String) : Value :=
  let options := under (scope.field route) "options"
  object [("model", under (scope.field route) "model"),
    ("effort", ((text? (scope.field "effort_option_id")).bind (under options)).filter
      fun effort => isTruthy (some effort))]

/-- Whether a comparison is of the workload, the policy revision and the routes of a scope. -/
def names (scope approved : Value) : Bool :=
  let report := approved.field "report"
  sameValue (under (under report "workload") "kind") (under (scope.field "workload") "kind") &&
    sameValue (under (under report "workload") "id") (under (scope.field "workload") "id") &&
    sameValue (under report "policy_revision") (scope.field "policy_revision") &&
    sameRoute (under report "baseline") (scope.field "baseline") &&
    sameRoute (under report "candidate") (scope.field "candidate")

/-- A decision about a scope. -/
def decision (scope : Value) (requested : String) (reason : String) (fallback : Option String)
    (qualification basis allowed : Option Value) : Value :=
  object [("reason", some (.str reason)), ("requested", some (pairOf scope requested)),
    ("baseline", some (pairOf scope "baseline")), ("rule", under (scope.field "workload") "id"),
    ("workload", scope.field "workload"), ("fallback_reason", fallback.map .str),
    ("qualification", qualification), ("economic_basis", basis), ("api_for_quota", allowed)]

/-- The approval that a decision is made on. -/
def qualificationOf (approved : Value) : Value :=
  object [("report_id", approved.field "report_id"),
    ("policy_revision", approved.field "policy_revision"), ("revision", approved.field "revision")]

def select (orders : Orders) (scope : Value) (approved : Option Value) : Value :=
  match approved with
  | none => decision scope "baseline" "baseline" (some "unqualified") none none none
  | some approved =>
    if !names scope approved then
      decision scope "baseline" "baseline" (some "unqualified") none none none
    else
      let basis := approved.field "economics"
      let allowed := approved.field "api_for_quota"
      let qualification := some (qualificationOf approved)
      match economicReason minus orders basis allowed with
      | some reason =>
        decision scope "baseline" "baseline" (some reason) qualification basis allowed
      | none => decision scope "candidate" "qualified" none qualification basis allowed

/-! ### Recording -/

def validPair (pair : Option Value) : Bool :=
  exact pair ["model", "effort"] && nonempty (under pair "model") &&
    ((under pair "effort").isNone || nonempty (under pair "effort"))

def fallbackReasons : List String :=
  ["workload_unknown", "rule_missing", "capability_unavailable", "option_unsupported",
    "provider_unresolved", "unqualified", "economics_unknown", "economics_worse",
    "no_economic_benefit", "allowance_missing", "allowance_insufficient", "approval_unavailable",
    "selection_incomplete", "economical_failure"]

/-- A whole number from some bound on. -/
def isRevision (bound : Number) (value : Option Value) : Bool :=
  ((number? value).map fun number => bound.le number && number.isWhole).getD false

def validQualification (approved : Option Value) : Bool :=
  exact approved ["report_id", "policy_revision", "revision", "approval_revision"] &&
    nonempty (under approved "report_id") && nonempty (under approved "policy_revision") &&
    isRevision (.ofNat 1) (under approved "revision") &&
    ((under approved "approval_revision").isNone ||
      isRevision ((number? (under approved "revision")).getD .nan)
        (under approved "approval_revision"))

def validSelection (orders : Orders) (value : Value) : Bool :=
  let field := fun name => value.field name
  exact (some value) ["reason", "requested", "baseline", "rule", "workload", "fallback_reason",
      "qualification", "economic_basis", "api_for_quota"] &&
    validPair (field "requested") && validPair (field "baseline") &&
    ((field "rule").isNone || nonempty (field "rule")) &&
    ((field "workload").isNone || (exact (field "workload") ["kind", "id"] &&
      oneOf ["main"] (under (field "workload") "kind") &&
      sameValue (under (field "workload") "id") (field "rule"))) &&
    ((field "fallback_reason").isNone || oneOf fallbackReasons (field "fallback_reason")) &&
    ((field "qualification").isNone || validQualification (field "qualification")) &&
    economics (field "economic_basis") && allowance (field "api_for_quota") &&
    if text? (field "reason") = some "qualified" then
      (field "rule").isSome && (field "workload").isSome && (field "qualification").isSome &&
        (field "fallback_reason").isNone &&
        (economicReason minus orders (field "economic_basis") (field "api_for_quota")).isNone
    else text? (field "reason") == some "baseline" &&
      sameValue (under (field "requested") "model") (under (field "baseline") "model") &&
      sameValue (under (field "requested") "effort") (under (field "baseline") "effort")

/-! ### Admission -/

/-- Why there is no scope for a submission. -/
inductive ScopeReason where
  | workloadUnknown
  | ruleMissing
  | capabilityUnavailable
  | optionUnsupported
  | providerUnresolved

def ScopeReason.text : ScopeReason → String
  | .workloadUnknown => "workload_unknown"
  | .ruleMissing => "rule_missing"
  | .capabilityUnavailable => "capability_unavailable"
  | .optionUnsupported => "option_unsupported"
  | .providerUnresolved => "provider_unresolved"

/-- What a submission meets: the pair of the Agent's settings, whether it follows a failed turn, its
scope, how the two reads of the approvals go and whether the admission is still the same after each
of them. -/
structure Admission where
  baseline : Value
  valid : validPair (some baseline) = true
  recovering : Bool
  scope : Except ScopeReason Value
  revisionLook : ReadLook
  revisionFile : Stored
  admitting : Bool
  look : ReadLook
  file : Stored
  unchanged : Bool

def Admission.fallback (admission : Admission) (reason : String) : Value :=
  object [("reason", some (.str "baseline")), ("requested", some admission.baseline),
    ("baseline", some admission.baseline), ("fallback_reason", some (.str reason))]

/-- What is looked up for a scope. -/
def lookupScope (scope : Value) : Value :=
  object [("workload", scope.field "workload"), ("baseline", scope.field "baseline"),
    ("candidate", scope.field "candidate"), ("policy_revision", scope.field "policy_revision")]

/-- Note the revision at which an approval was looked up. -/
def noteRevision (selection : Value) (revision : Nat) : Value :=
  match selection.field "qualification" with
  | none => selection
  | some approved => selection.set "qualification"
      (approved.set "approval_revision" (.num (.ofNat revision)))

/-- The decision about a submission, unless it is not admitted any more. -/
def selectAuto (orders : Orders) (admission : Admission) : Option Value :=
  if admission.recovering then some (admission.fallback "economical_failure")
  else match admission.scope with
    | .error reason => some (admission.fallback reason.text)
    | .ok scope =>
      if !admission.admitting then none
      else match readState admission.revisionLook admission.revisionFile with
        | .error _ => some (admission.fallback "approval_unavailable")
        | .ok state =>
          if !admission.unchanged then none
          else match lookup admission.look admission.file (some (lookupScope scope))
              (some (.ofNat state.revision)) with
            | .error _ => some ((select minus orders scope none).set "fallback_reason"
                (.str "approval_unavailable"))
            | .ok approved =>
              some (noteRevision (select minus orders scope approved) state.revision)

/-! ### What selections are to be -/

/-- The figures of a group are one of the baseline and one of the candidate, of the same kind. -/
def Compares (entries : List Value) (key : String × String) (baseline candidate : Value) : Prop :=
  (entries.filter fun entry => isGrouped entry && keyOf entry == key).Perm [baseline, candidate] ∧
    routeOf baseline = "baseline" ∧ routeOf candidate = "candidate" ∧
    kindOf baseline = kindOf candidate

/-- Every group compares the routes, no quota is worse and some figure is better; and every extra
cost is within the allowance, and some quota better for it. -/
structure Economical (entries : List Value) (allowed : Option Value) : Prop where
  compared : ∀ entry ∈ entries, isGrouped entry = true →
    ∃ baseline candidate, Compares entries (keyOf entry) baseline candidate
  quota : ∀ unit baseline candidate, Compares entries ("quota", unit) baseline candidate →
    valueOf candidate ≤ valueOf baseline
  better : ∃ key baseline candidate, Compares entries key baseline candidate ∧
    valueOf candidate < valueOf baseline
  extra : ∀ unit baseline candidate, Compares entries ("api_cost", unit) baseline candidate →
    valueOf baseline < valueOf candidate →
      (∃ other before after, Compares entries ("quota", other) before after ∧
        valueOf after < valueOf before) ∧ ∃ allowance, allowed = some allowance ∧
        text? (under (allowance.field "max_extra_cost") "currency") = some unit ∧
        minus (valueOf candidate) (valueOf baseline) ≤
          quantityOf (under (allowance.field "max_extra_cost") "value")

/-- The same but for the order of some items. -/
def Reordered (name : String) (value other : Value) : Prop :=
  (∀ key, key ≠ name → other.field key = value.field key) ∧
    (items (other.field name)).Perm (items (value.field name))

/-- What a comparison selects for a scope is justified, the same in every order, and can be
recorded; and so can what is decided about a submission of this scope. -/
structure Selects (scope approved : Value) : Prop where
  qualified : ∀ orders,
    text? ((select minus orders scope (some approved)).field "reason") = some "qualified" →
      names scope approved = true ∧
        Economical minus (items (approved.field "economics")) (approved.field "api_for_quota")
  ordered : ∀ orders orders' approved', Reordered "economics" approved approved' →
    Reordered "economic_basis" (select minus orders scope (some approved))
      (select minus orders' scope (some approved'))
  recorded : ∀ orders orders',
    validSelection minus orders' (select minus orders scope (some approved)) = true
  admitted : ∀ orders orders' (admission : Admission) selection,
    (∀ other, admission.scope = .ok other → other = scope) →
      selectAuto minus orders admission = some selection →
      validSelection minus orders' selection = true

/-- A scope has a main workload and pairs of the Agent's. -/
structure Scoped (scope : Value) : Prop where
  workload : ∃ id ≠ "", scope.field "workload" =
    some (object [("kind", some (.str "main")), ("id", some (.str id))])
  baseline : validPair (some (pairOf scope "baseline")) = true
  candidate : validPair (some (pairOf scope "candidate")) = true

/-- What a lookup returns: an approval with its revision and valid economics. -/
structure Approved (approved : Value) : Prop where
  report : nonempty (approved.field "report_id") = true
  policy : nonempty (approved.field "policy_revision") = true
  revision : isRevision (.ofNat 1) (approved.field "revision") = true
  economics : economics (approved.field "economics") = true
  allowance : allowance (approved.field "api_for_quota") = true

/-- Every figure of a cost or a quota has a route, and no two of them are in one place. -/
structure Placed (entries : List Value) : Prop where
  routed : ∀ entry ∈ entries, isGrouped entry = true →
    routeOf entry = "baseline" ∨ routeOf entry = "candidate"
  places : ((entries.filter isGrouped).map fun entry => (keyOf entry, routeOf entry)).Nodup

/-- Besides, some figure is one of a cost. -/
structure WellPlaced (entries : List Value) : Prop extends Placed entries where
  priced : (entries.any (metricOf · == "api_cost")) = true

/-- A figure has none of the same group and kind on the other route. -/
def Unmatched (entries : List Value) : Prop :=
  ∃ entry ∈ entries, isGrouped entry = true ∧ ∀ other ∈ entries, isGrouped other = true →
    keyOf other = keyOf entry → kindOf other = kindOf entry → routeOf other = routeOf entry

/-- A quota is worse for the candidate. -/
def Worsened (entries : List Value) : Prop :=
  ∃ baseline ∈ entries, ∃ candidate ∈ entries, metricOf baseline = "quota" ∧
    keyOf candidate = keyOf baseline ∧ kindOf candidate = kindOf baseline ∧
    routeOf baseline = "baseline" ∧ routeOf candidate = "candidate" ∧
    valueOf baseline < valueOf candidate

/-- Not both is a figure unmatched and a quota worse. -/
def Unambiguous (scope approved : Value) : Prop :=
  names scope approved = true → WellPlaced (items (approved.field "economics")) →
    ¬(Unmatched (items (approved.field "economics")) ∧
      Worsened (items (approved.field "economics")))

/-! ### The groups -/

variable {es seen : List Value} {groups : Groups} {entry : Value} {key : String × String}

/-- The groups are those of some figures. -/
structure Gathered (seen : List Value) (groups : Groups) : Prop where
  figure : ∀ key route entry, groups.figure key route = some entry ↔
    entry ∈ seen ∧ isGrouped entry = true ∧ keyOf entry = key ∧ routeOf entry = route
  keys : ∀ key, key ∈ groups.keys ↔ ∃ entry ∈ seen, isGrouped entry = true ∧ keyOf entry = key

theorem gathered_nil : Gathered [] ⟨[], fun _ _ => none⟩ where
  figure := by simp
  keys := by simp

/-- Figures of other metrics are left out. -/
theorem Gathered.skip (hg : Gathered seen groups) (h : isGrouped entry = false) :
    Gathered (seen ++ [entry]) groups where
  figure key route o := by
    rw [hg.figure, mem_append, mem_singleton]
    refine and_congr_left fun hr => (or_iff_left ?_).symm
    rintro rfl
    exact absurd hr.1 (by simp [h])
  keys key := by
    rw [hg.keys]
    refine ⟨fun ⟨o, ho, hr⟩ => ⟨o, mem_append_left _ ho, hr⟩, ?_⟩
    rintro ⟨o, ho, hr⟩
    rcases mem_append.mp ho with ho | ho
    · exact ⟨o, ho, hr⟩
    · obtain rfl := mem_singleton.mp ho
      exact absurd hr.1 (by simp [h])

/-- A figure is put in its place, where there was none. -/
theorem Gathered.put (hg : Gathered seen groups) (h : isGrouped entry = true)
    (hn : groups.figure (keyOf entry) (routeOf entry) = none) : Gathered (seen ++ [entry])
      ⟨if keyOf entry ∈ groups.keys then groups.keys else groups.keys ++ [keyOf entry],
        Function.update groups.figure (keyOf entry)
          (Function.update (groups.figure (keyOf entry)) (routeOf entry) (some entry))⟩ where
  figure key route o := by
    simp only [mem_append, mem_singleton]
    by_cases hk : keyOf entry = key ∧ routeOf entry = route
    · obtain ⟨rfl, rfl⟩ := hk
      rw [Function.update_self, Function.update_self, some.injEq]
      constructor
      · rintro rfl
        exact ⟨Or.inr rfl, h, rfl, rfl⟩
      · rintro ⟨ho | rfl, hr⟩
        · rw [(hg.figure _ _ o).mpr ⟨ho, hr⟩] at hn
          contradiction
        · rfl
    · have hf : Function.update groups.figure (keyOf entry)
          (Function.update (groups.figure (keyOf entry)) (routeOf entry) (some entry)) key route =
            groups.figure key route := by
        by_cases hy : key = keyOf entry
        · subst hy
          rw [Function.update_self, Function.update_of_ne fun hr => hk ⟨rfl, hr.symm⟩]
        · rw [Function.update_of_ne hy]
      rw [hf, hg.figure]
      refine and_congr_left fun hr => (or_iff_left ?_).symm
      rintro rfl
      exact hk hr.2
  keys key := by
    have ha : (∃ o ∈ seen ++ [entry], isGrouped o = true ∧ keyOf o = key) ↔
        key ∈ groups.keys ∨ keyOf entry = key := by
      rw [hg.keys]
      constructor
      · rintro ⟨o, ho, hr⟩
        rcases mem_append.mp ho with ho | ho
        · exact Or.inl ⟨o, ho, hr⟩
        · obtain rfl := mem_singleton.mp ho
          exact Or.inr hr.2
      · rintro (⟨o, ho, hr⟩ | rfl)
        · exact ⟨o, mem_append_left _ ho, hr⟩
        · exact ⟨entry, mem_append_right _ (mem_singleton_self entry), h, rfl⟩
    rw [ha]
    by_cases hk : keyOf entry ∈ groups.keys
    · rw [if_pos hk]
      exact ⟨Or.inl, fun hr => hr.elim id fun he => he ▸ hk⟩
    · rw [if_neg hk, mem_append, mem_singleton, eq_comm (a := key)]

/-- A figure of a place where there is one already is out of place. -/
theorem not_placed_of_taken (hg : Gathered seen groups) (h : isGrouped entry = true)
    (ht : groups.figure (keyOf entry) (routeOf entry) ≠ none) : ¬Placed (seen ++ entry :: es) := by
  intro hp
  obtain ⟨o, ho⟩ := Option.ne_none_iff_exists'.mp ht
  obtain ⟨hs, hr, hk⟩ := (hg.figure _ _ _).mp ho
  have hd := hp.places
  rw [filter_append, map_append, filter_cons_of_pos h, map_cons] at hd
  refine (nodup_append.mp hd).2.2 _ (mem_map_of_mem (mem_filter.mpr ⟨hs, hr⟩)) _ mem_cons_self ?_
  rw [hk.1, hk.2]

/-- Groups are made of figures that are in their places, and of no others. -/
theorem gather_spec (es : List Value) (hg : Gathered seen groups) (hp : Placed seen) :
    (Placed (seen ++ es) ∧ ∃ f, gather groups es = some f ∧ Gathered (seen ++ es) f) ∨
    (¬Placed (seen ++ es) ∧ gather groups es = none) := by
  induction es generalizing seen groups with
  | nil =>
    rw [append_nil]
    exact Or.inl ⟨hp, groups, rfl, hg⟩
  | cons entry es ih =>
    rw [gather]
    by_cases hgr : isGrouped entry = true
    · rw [if_pos hgr]
      by_cases hr : routeOf entry ≠ "baseline" ∧ routeOf entry ≠ "candidate"
      · rw [if_pos hr]
        refine Or.inr ⟨fun h => ?_, rfl⟩
        exact (h.routed entry (by simp) hgr).elim hr.1 hr.2
      rw [if_neg hr]
      by_cases ht : groups.figure (keyOf entry) (routeOf entry) = none
      · rw [ht, if_neg (by simp)]
        have hu : Placed (seen ++ [entry]) := {
          routed := fun o ho hog => (mem_append.mp ho).elim
            (fun ho => hp.routed o ho hog) fun ho => by
              obtain rfl := mem_singleton.mp ho
              by_cases hb : routeOf o = "baseline"
              · exact Or.inl hb
              · exact Or.inr (by_contra fun hc => hr ⟨hb, hc⟩)
          places := by
            rw [filter_append, map_append, filter_cons_of_pos hgr, filter_nil,
              map_cons, map_nil, ← concat_eq_append]
            refine hp.places.concat fun hm => ?_
            obtain ⟨o, ho, he⟩ := mem_map.mp hm
            obtain ⟨hs, hog⟩ := mem_filter.mp ho
            obtain ⟨hk, hro⟩ := Prod.mk.inj he
            rw [(hg.figure _ _ o).mpr ⟨hs, hog, hk, hro⟩] at ht
            contradiction }
        have hi := ih (hg.put hgr ht) hu
        rwa [append_assoc, singleton_append] at hi
      · rw [if_pos (Option.isSome_iff_ne_none.mpr ht)]
        exact Or.inr ⟨not_placed_of_taken hg hgr ht, rfl⟩
    · rw [if_neg hgr]
      rw [Bool.not_eq_true] at hgr
      have hs : Placed (seen ++ [entry]) := {
        routed := fun o ho hog => (mem_append.mp ho).elim
          (fun ho => hp.routed o ho hog) fun ho => by
            obtain rfl := mem_singleton.mp ho
            exact absurd hog (by simp [hgr])
        places := by
          rw [filter_append, filter_cons_of_neg (by simp [hgr]), filter_nil, append_nil]
          exact hp.places }
      have hi := ih (hg.skip hgr) hs
      rwa [append_assoc, singleton_append] at hi

/-! ### The loop over them -/

variable {figure : Figures} {tally : Tally} {keys co : List (String × String)} {minus : ℚ → ℚ → ℚ}

theorem fault_eq_none : fault figure key = none ↔ ∃ b c,
    figure key "baseline" = some b ∧ figure key "candidate" = some c ∧ kindOf b = kindOf c ∧
      (key.1 = "api_cost" ∨ valueOf c ≤ valueOf b) := by
  unfold fault
  cases figure key "baseline" with
  | none => simp
  | some b =>
    cases figure key "candidate" with
    | none => simp
    | some c =>
      simp only [some.injEq, exists_and_left, exists_eq_left']
      split_ifs with hk hw
      · simp [hk]
      · simpa using fun _ => ⟨hw.1, hw.2⟩
      · rw [not_ne_iff] at hk
        rw [not_and, not_lt, ne_eq, ← or_iff_not_imp_left] at hw
        simp [hk, hw]

/-- A group's figures do not compare, or its quota is worse. -/
theorem fault_eq_some {why : String} (h : fault figure key = some why) :
    (why = "economics_unknown" ∧ ∀ b c, figure key "baseline" = some b →
      figure key "candidate" = some c → kindOf b ≠ kindOf c) ∨
    (why = "economics_worse" ∧ key.1 ≠ "api_cost" ∧ ∃ b c,
      figure key "baseline" = some b ∧ figure key "candidate" = some c ∧
        kindOf b = kindOf c ∧ valueOf b < valueOf c) := by
  unfold fault at h
  split at h
  · next b c hb hc =>
    rw [hb, hc]
    split_ifs at h with hk hw
    · refine Or.inl ⟨(some.inj h).symm, ?_⟩
      rintro _ _ ⟨⟩ ⟨⟩
      exact hk
    · exact Or.inr ⟨(some.inj h).symm, hw.1, b, c, rfl, rfl, not_ne_iff.mp hk, hw.2⟩
  · next hm => exact Or.inl ⟨(some.inj h).symm, fun _ _ hb hc => absurd hc (hm _ _ hb)⟩

/-- What some groups come to. -/
structure Counted (minus : ℚ → ℚ → ℚ) (figure : Figures) (keys : List (String × String))
    (tally : Tally) : Prop where
  extra : ∀ cost, cost ∈ tally.extra ↔ ∃ key ∈ keys, key.1 = "api_cost" ∧
    amount figure key "baseline" < amount figure key "candidate" ∧
    cost = (key.2, minus (amount figure key "candidate") (amount figure key "baseline"))
  cheaper : tally.cheaper = true ↔ ∃ key ∈ keys, key.1 = "api_cost" ∧
    amount figure key "candidate" < amount figure key "baseline"
  quotaBetter : tally.quotaBetter = true ↔ ∃ key ∈ keys, key.1 ≠ "api_cost" ∧
    amount figure key "candidate" < amount figure key "baseline"

theorem counted_nil (minus : ℚ → ℚ → ℚ) (figure : Figures) :
    Counted minus figure [] ⟨[], false, false⟩ where
  extra := by simp
  cheaper := by simp
  quotaBetter := by simp

theorem exists_mem_concat {p : String × String → Prop} :
    (∃ o ∈ keys ++ [key], p o) ↔ (∃ o ∈ keys, p o) ∨ p key := by
  simp only [mem_append, mem_singleton, or_and_right, exists_or, exists_eq_left]

/-- One more group counts for a cost or for a quota. -/
theorem Counted.count (hc : Counted minus figure keys tally) :
    Counted minus figure (keys ++ [key]) (tally.count minus figure key) where
  extra cost := by
    rw [exists_mem_concat, ← hc.extra, Tally.count]
    by_cases hm : key.1 = "api_cost"
    · simp only [if_pos hm]
      split
      · next hl => simp [hm, hl]
      · next hg => simp [hg]
    · simp [hm]
  cheaper := by
    rw [exists_mem_concat, ← hc.cheaper, Tally.count]
    by_cases hm : key.1 = "api_cost" <;> simp [hm]
  quotaBetter := by
    rw [exists_mem_concat, ← hc.quotaBetter, Tally.count]
    by_cases hm : key.1 = "api_cost" <;> simp [hm]

/-- Groups without a fault are all counted. -/
theorem scan_of_sound (keys : List (String × String)) (hf : ∀ key ∈ keys, fault figure key = none)
    (hc : Counted minus figure co tally) : ∃ f,
    scan minus figure keys tally = .ok f ∧ Counted minus figure (co ++ keys) f := by
  induction keys generalizing co tally with
  | nil =>
    rw [append_nil]
    exact ⟨tally, rfl, hc⟩
  | cons key keys ih =>
    rw [forall_mem_cons] at hf
    obtain ⟨f, hs, hi⟩ := ih hf.2 hc.count
    rw [append_assoc, singleton_append] at hi
    refine ⟨f, ?_, hi⟩
    rw [scan, hf.1]
    exact hs

/-- The first fault ends the loop. -/
theorem scan_of_fault {why : String} (h : keys.findSome? (fault figure) = some why) :
    scan minus figure keys tally = .error why := by
  induction keys generalizing tally with
  | nil => contradiction
  | cons key keys ih =>
    rw [List.findSome?_cons] at h
    rw [scan]
    cases hf : fault figure key with
    | none =>
      rw [hf] at h
      exact ih h
    | some o =>
      rw [hf] at h
      exact congrArg _ (some.inj h)

variable {or o' : Orders} {al : Option Value}

/-- What the groups come to speaks for the candidate or not in any order. -/
theorem Tally.reason_congr {t' : Tally} (hc : Counted minus figure keys tally)
    (hc' : Counted minus figure co t') (hk : ∀ key, key ∈ keys ↔ key ∈ co) :
    tally.reason or al = t'.reason o' al := by
  have he : ∀ c, c ∈ tally.extra ↔ c ∈ t'.extra := fun c => by
    simp only [hc.extra, hc'.extra, hk]
  have hh : tally.cheaper = t'.cheaper := by
    rw [Bool.eq_iff_iff, hc.cheaper, hc'.cheaper]
    simp only [hk]
  have hq : tally.quotaBetter = t'.quotaBetter := by
    rw [Bool.eq_iff_iff, hc.quotaBetter, hc'.quotaBetter]
    simp only [hk]
  have hn : tally.extra ≠ [] ↔ t'.extra ≠ [] := by
    simp only [ne_eq, eq_nil_iff_forall_not_mem, he]
  have ha : ∀ o, (or.extra.list tally.extra).any (exceeds o) =
      (o'.extra.list t'.extra).any (exceeds o) := fun o => by
    rw [Bool.eq_iff_iff, any_eq_true, any_eq_true]
    simp only [(or.extra.perm _).mem_iff, (o'.extra.perm _).mem_iff, he]
  unfold Tally.reason
  simp only [hn, ha, hh, hq]

/-- What the groups come to speaks for the candidate. -/
theorem Tally.reason_eq_none (h : tally.reason or al = none) :
    (tally.extra = [] ∧ (tally.cheaper = true ∨ tally.quotaBetter = true)) ∨
    (tally.quotaBetter = true ∧ ∃ o, al = some o ∧ ∀ c ∈ tally.extra, exceeds o c = false) := by
  unfold Tally.reason at h
  split at h
  · split at h
    · contradiction
    next hq =>
    rw [Bool.not_eq_true', Bool.not_eq_false] at hq
    cases al with
    | none => contradiction
    | some o =>
      dsimp only at h
      split at h
      · contradiction
      next ha =>
      refine Or.inr ⟨hq, o, rfl, fun c hc => ?_⟩
      rw [any_eq_true, not_exists] at ha
      have hn := ha c
      rw [(or.extra.perm _).mem_iff, not_and, Bool.not_eq_true] at hn
      exact hn hc
  · next he =>
    split at h
    · contradiction
    next hn =>
    refine Or.inl ⟨not_ne_iff.mp he, ?_⟩
    simpa [or_iff_not_imp_left] using hn

/-! ### The reason -/

/-- Which figures of a group compare. -/
theorem compares_iff (hg : Gathered es groups) (hp : Placed es)
    {b c : Value} : Compares es key b c ↔ groups.figure key "baseline" = some b ∧
        groups.figure key "candidate" = some c ∧ kindOf b = kindOf c := by
  have hm : ∀ o, o ∈ (es.filter fun entry => isGrouped entry && keyOf entry == key) ↔
      o ∈ es ∧ isGrouped o = true ∧ keyOf o = key := by simp
  rw [hg.figure, hg.figure, Compares]
  constructor
  · rintro ⟨hpe, hb, hc, hk⟩
    obtain ⟨he, hbg, hbk⟩ := (hm b).mp (hpe.mem_iff.mpr (by simp))
    obtain ⟨hce, hcg, hck⟩ := (hm c).mp (hpe.mem_iff.mpr (by simp))
    exact ⟨⟨he, hbg, hbk, hb⟩, ⟨hce, hcg, hck, hc⟩, hk⟩
  · rintro ⟨⟨he, hbg, hbk, hb⟩, ⟨hce, hcg, hck, hc⟩, hk⟩
    refine ⟨?_, hb, hc, hk⟩
    have hd : (es.filter fun entry => isGrouped entry && keyOf entry == key).Nodup := by
      rw [← filter_filter]
      refine List.Nodup.sublist ?_ (List.Nodup.of_map _ hp.places)
      rw [filter_filter, filter_congr fun o _ => Bool.and_comm _ _, ← filter_filter]
      exact filter_sublist
    have hn : b ≠ c := by
      rintro rfl
      rw [hb] at hc
      exact absurd hc (by decide)
    refine (perm_ext_iff_of_nodup hd (by simp [hn])).mpr fun o => ?_
    rw [hm, mem_cons, mem_singleton]
    constructor
    · rintro ⟨ho, hog, hok⟩
      rcases hp.routed o ho hog with hr | hr
      · have hf := (hg.figure key "baseline" o).mpr ⟨ho, hog, hok, hr⟩
        rw [(hg.figure key "baseline" b).mpr ⟨he, hbg, hbk, hb⟩] at hf
        exact Or.inl (some.inj hf).symm
      · have hf := (hg.figure key "candidate" o).mpr ⟨ho, hog, hok, hr⟩
        rw [(hg.figure key "candidate" c).mpr ⟨hce, hcg, hck, hc⟩] at hf
        exact Or.inr (some.inj hf).symm
    · rintro (rfl | rfl)
      · exact ⟨he, hbg, hbk⟩
      · exact ⟨hce, hcg, hck⟩

variable {fi : Option Value}

theorem gather_start (hp : Placed (items fi)) : ∃ groups,
    gather ⟨[], fun _ _ => none⟩ (items fi) = some groups ∧ Gathered (items fi) groups := by
  rcases gather_spec (items fi) gathered_nil ⟨by simp, by simp⟩ with h | h
  · exact h.2
  · exact absurd hp h.1

theorem economicReason_of_not_wellPlaced (h : ¬WellPlaced (items fi)) :
    economicReason minus or fi al = some "economics_unknown" := by
  unfold economicReason
  rcases gather_spec (items fi) gathered_nil ⟨by simp, by simp⟩ with
    ⟨hp, groups, hs, -⟩ | ⟨-, hn⟩
  · rw [nil_append] at hp
    rw [hs]
    refine if_pos ?_
    rw [Bool.not_eq_true', ← Bool.not_eq_true]
    exact fun ha => h ⟨hp, ha⟩
  · rw [hn]

theorem economicReason_of_fault (h : WellPlaced (items fi))
    (hs : gather ⟨[], fun _ _ => none⟩ (items fi) = some groups) {why : String}
    (hf : (or.groups.list groups.keys).findSome? (fault groups.figure) = some why) :
    economicReason minus or fi al = some why := by
  unfold economicReason
  rw [hs]
  dsimp only
  rw [h.priced, scan_of_fault hf]
  rfl

theorem economicReason_of_sound (minus : ℚ → ℚ → ℚ) (or : Orders) (al : Option Value)
    (h : WellPlaced (items fi)) (hs : gather ⟨[], fun _ _ => none⟩ (items fi) = some groups)
    (hf : ∀ key ∈ groups.keys, fault groups.figure key = none) : ∃ tally,
      Counted minus groups.figure (or.groups.list groups.keys) tally ∧
      economicReason minus or fi al = tally.reason or al := by
  obtain ⟨tally, hsc, hc⟩ := scan_of_sound (or.groups.list groups.keys)
    (fun key hk => hf key ((or.groups.perm _).mem_iff.mp hk)) (counted_nil minus groups.figure)
  refine ⟨tally, hc, ?_⟩
  unfold economicReason
  rw [hs]
  dsimp only
  rw [h.priced, hsc]
  rfl

/-- A group of a fault of some text is unmatched or worsened. -/
theorem fault_sound (hg : Gathered es groups) (hp : Placed es) (hk : key ∈ groups.keys)
    {reason : String} (hf : fault groups.figure key = some reason) :
    (reason = "economics_unknown" ∧ Unmatched es) ∨ (reason = "economics_worse" ∧ Worsened es) := by
  rcases fault_eq_some hf with ⟨rfl, hn⟩ | ⟨rfl, hm, b, c, hb, hc, hi, hl⟩
  · refine Or.inl ⟨rfl, ?_⟩
    obtain ⟨entry, he, heg, hek⟩ := (hg.keys key).mp hk
    refine ⟨entry, he, heg, fun other ho hog hok hi => ?_⟩
    have hin : ∀ other ∈ es, isGrouped other = true → keyOf other = keyOf entry →
        groups.figure key (routeOf other) = some other := fun other ho hog hok =>
      (hg.figure _ _ other).mpr ⟨ho, hog, hok.trans hek, rfl⟩
    have hfe := hin entry he heg rfl
    have hfo := hin other ho hog hok
    rcases hp.routed entry he heg with hr | hr <;> rcases hp.routed other ho hog with hr' | hr' <;>
      rw [hr] at hfe <;> rw [hr'] at hfo
    · rw [hr, hr']
    · exact absurd hi.symm (hn _ _ hfe hfo)
    · exact absurd hi (hn _ _ hfo hfe)
    · rw [hr, hr']
  · refine Or.inr ⟨rfl, b, ?_⟩
    obtain ⟨hbe, hbg, hbk, hbr⟩ := (hg.figure _ _ b).mp hb
    obtain ⟨hce, -, hck, hcr⟩ := (hg.figure _ _ c).mp hc
    refine ⟨hbe, c, hce, ?_, hck.trans hbk.symm, hi.symm, hbr, hcr, hl⟩
    have hb' : metricOf b ≠ "api_cost" := fun h => hm ((congrArg Prod.fst hbk).symm.trans h)
    simpa [isGrouped, hb'] using hbg

/-- What is unmatched is a fault of its group. -/
theorem exists_fault_of_unmatched (hg : Gathered es groups) (hp : Placed es) (h : Unmatched es) :
    ∃ key ∈ groups.keys, fault groups.figure key = some "economics_unknown" := by
  obtain ⟨entry, he, heg, hn⟩ := h
  have hne : ∀ b c, groups.figure (keyOf entry) "baseline" = some b →
      groups.figure (keyOf entry) "candidate" = some c → kindOf b ≠ kindOf c := by
    intro b c hb hc hk
    obtain ⟨hbe, hbg, hbk, hbr⟩ := (hg.figure _ _ b).mp hb
    obtain ⟨hce, hcg, hck, hcr⟩ := (hg.figure _ _ c).mp hc
    have hf := (hg.figure _ _ entry).mpr ⟨he, heg, rfl, rfl⟩
    have hr : routeOf b = routeOf c := by
      rcases hp.routed entry he heg with hr | hr
      · rw [hr, hb, some.injEq] at hf
        subst hf
        exact (hn c hce hcg hck hk.symm).symm
      · rw [hr, hc, some.injEq] at hf
        subst hf
        exact hn b hbe hbg hbk hk
    rw [hbr, hcr] at hr
    exact absurd hr (by decide)
  refine ⟨keyOf entry, (hg.keys _).mpr ⟨entry, he, heg, rfl⟩, ?_⟩
  cases hf : fault groups.figure (keyOf entry) with
  | none =>
    obtain ⟨b, c, hb, hc, hk, -⟩ := fault_eq_none.mp hf
    exact absurd hk (hne b c hb hc)
  | some why =>
    rcases fault_eq_some hf with ⟨rfl, -⟩ | ⟨-, -, b, c, hb, hc, hk, -⟩
    · rfl
    · exact absurd hk (hne b c hb hc)

theorem exists_fault_of_worsened (hg : Gathered es groups) (h : Worsened es) :
    ∃ key ∈ groups.keys, fault groups.figure key = some "economics_worse" := by
  obtain ⟨b, hb, c, hc, hm, hk, hi, hr, hcr, hl⟩ := h
  have hbg : isGrouped b = true := by simp [isGrouped, hm]
  have hcg : isGrouped c = true := by
    have hmc : metricOf c = "quota" := (congrArg Prod.fst hk).trans hm
    simp [isGrouped, hmc]
  refine ⟨keyOf b, (hg.keys _).mpr ⟨b, hb, hbg, rfl⟩, ?_⟩
  rw [fault, (hg.figure _ _ b).mpr ⟨hb, hbg, rfl, hr⟩, (hg.figure _ _ c).mpr ⟨hc, hcg, hk, hcr⟩]
  simp [hi, keyOf, hm, hl]

/-- Figures that speak for the candidate are economical. -/
theorem economical_of_none (h : economicReason minus or fi al = none) :
    Economical minus (items fi) al := by
  by_cases hw : WellPlaced (items fi)
  swap
  · rw [economicReason_of_not_wellPlaced hw] at h
    contradiction
  have hp := hw.toPlaced
  obtain ⟨groups, hs, hg⟩ := gather_start hp
  have hf : ∀ key ∈ groups.keys, fault groups.figure key = none := by
    by_contra hn
    rw [not_forall] at hn
    cases hr : (or.groups.list groups.keys).findSome? (fault groups.figure) with
    | none =>
      obtain ⟨key, hk⟩ := hn
      exact hk fun hm =>
        List.findSome?_eq_none_iff.mp hr key ((or.groups.perm _).mem_iff.mpr hm)
    | some why =>
      rw [economicReason_of_fault hw hs hr] at h
      contradiction
  obtain ⟨tally, hc, hr⟩ := economicReason_of_sound minus or al hw hs hf
  rw [hr] at h
  have hmem : ∀ key ba, groups.figure key "baseline" = some ba → key ∈ groups.keys :=
    fun key ba hb => (hg.keys key).mpr
      ⟨ba, ((hg.figure _ _ _).mp hb).1, ((hg.figure _ _ _).mp hb).2.1,
        ((hg.figure _ _ _).mp hb).2.2.1⟩
  have ha : ∀ {key ba ca}, groups.figure key "baseline" = some ba →
      groups.figure key "candidate" = some ca → amount groups.figure key "baseline" = valueOf ba ∧
        amount groups.figure key "candidate" = valueOf ca := fun hb hc => by
    simp [amount, hb, hc]
  have ht : ∀ key ∈ groups.keys,
      amount groups.figure key "candidate" < amount groups.figure key "baseline" →
      ∃ ba ca, Compares (items fi) key ba ca ∧ valueOf ca < valueOf ba := by
    intro key hk hl
    obtain ⟨b, c, hb, hc, hi, -⟩ := fault_eq_none.mp (hf key hk)
    rw [(ha hb hc).1, (ha hb hc).2] at hl
    exact ⟨b, c, (compares_iff hg hp).mpr ⟨hb, hc, hi⟩, hl⟩
  have hu : tally.quotaBetter = true → ∃ u ba ca, Compares (items fi)
      ("quota", u) ba ca ∧ valueOf ca < valueOf ba := by
    intro hq
    obtain ⟨key, hk, hm, hl⟩ := hc.quotaBetter.mp hq
    rw [(or.groups.perm _).mem_iff] at hk
    obtain ⟨entry, -, heg, rfl⟩ := (hg.keys key).mp hk
    have hme : metricOf entry = "quota" := by
      have hm' : metricOf entry ≠ "api_cost" := hm
      simpa [isGrouped, hm'] using heg
    obtain ⟨b, c, hbc⟩ := ht _ hk hl
    rw [keyOf, hme] at hbc
    exact ⟨_, b, c, hbc⟩
  exact {
    compared := fun entry he heg => by
      obtain ⟨b, c, hb, hc, hi, -⟩ :=
        fault_eq_none.mp (hf _ ((hg.keys _).mpr ⟨entry, he, heg, rfl⟩))
      exact ⟨b, c, (compares_iff hg hp).mpr ⟨hb, hc, hi⟩⟩
    quota := fun u b c hbc => by
      obtain ⟨hb, hc, -⟩ := (compares_iff hg hp).mp hbc
      obtain ⟨b', c', hb', hc', -, hle⟩ := fault_eq_none.mp (hf _ (hmem _ _ hb))
      rw [hb, some.injEq] at hb'
      rw [hc, some.injEq] at hc'
      subst hb' hc'
      exact hle.resolve_left (by simp)
    better := by
      have hy : tally.cheaper = true ∨ tally.quotaBetter = true :=
        (Tally.reason_eq_none h).elim And.right fun hn => Or.inr hn.1
      rcases hy with hh | hq
      · obtain ⟨key, hk, -, hl⟩ := hc.cheaper.mp hh
        exact ⟨key, ht key ((or.groups.perm _).mem_iff.mp hk) hl⟩
      · obtain ⟨u, hbc⟩ := hu hq
        exact ⟨_, hbc⟩
    extra := fun u b c hbc hl => by
      obtain ⟨hb, hca, -⟩ := (compares_iff hg hp).mp hbc
      have ho : (u, minus (valueOf c) (valueOf b)) ∈ tally.extra :=
        (hc.extra _).mpr ⟨_, (or.groups.perm _).mem_iff.mpr (hmem _ _ hb), rfl,
          by rw [(ha hb hca).1, (ha hb hca).2]; exact hl,
          by rw [(ha hb hca).1, (ha hb hca).2]⟩
      rcases Tally.reason_eq_none h with ⟨he, -⟩ | ⟨hq, a, rfl, hall⟩
      · rw [he] at ho
        contradiction
      · have hex := hall _ ho
        simp only [exceeds, Bool.or_eq_false_iff, bne_eq_false_iff_eq, decide_eq_false_iff_not,
          not_lt] at hex
        exact ⟨hu hq, a, rfl, hex⟩ }

theorem WellPlaced.perm {os : List Value} (hp : os.Perm es) (h : WellPlaced es) :
    WellPlaced os where
  routed entry he := h.routed entry (hp.mem_iff.mp he)
  places := ((hp.filter _).map _).nodup_iff.mpr h.places
  priced := by
    obtain ⟨entry, he, hm⟩ := any_eq_true.mp h.priced
    exact any_eq_true.mpr ⟨entry, hp.mem_iff.mpr he, hm⟩

/-- Another order gives the same reason, or the figures are unmatched and worsened and both orders
give some reason. -/
theorem economicReason_reorder {f' : Option Value} (hp : (items f').Perm (items fi)) :
    economicReason minus o' f' al = economicReason minus or fi al ∨
      (WellPlaced (items fi) ∧ Unmatched (items fi) ∧ Worsened (items fi) ∧
        economicReason minus o' f' al ≠ none ∧ economicReason minus or fi al ≠ none) := by
  by_cases hw : WellPlaced (items fi)
  swap
  · left
    rw [economicReason_of_not_wellPlaced hw,
      economicReason_of_not_wellPlaced fun hw' => hw (hw'.perm hp.symm)]
  have hw' := hw.perm hp
  obtain ⟨groups, hs, hg⟩ := gather_start hw.toPlaced
  obtain ⟨g', hs', hg'⟩ := gather_start hw'.toPlaced
  have hi : g'.figure = groups.figure := by
    funext key route
    refine Option.ext fun entry => ?_
    rw [hg'.figure, hg.figure, hp.mem_iff]
  have hk : ∀ key, key ∈ g'.keys ↔ key ∈ groups.keys := fun key => by
    simp only [hg'.keys, hg.keys, hp.mem_iff]
  have hin : ∀ key, key ∈ o'.groups.list g'.keys ↔ key ∈ or.groups.list groups.keys := fun key => by
    rw [(o'.groups.perm _).mem_iff, (or.groups.perm _).mem_iff, hk]
  cases hr : (or.groups.list groups.keys).findSome? (fault groups.figure) with
  | none =>
    have hf : ∀ key ∈ groups.keys, fault groups.figure key = none := fun key hm =>
      List.findSome?_eq_none_iff.mp hr key ((or.groups.perm _).mem_iff.mpr hm)
    obtain ⟨tally, hc, ht⟩ := economicReason_of_sound minus or al hw hs hf
    obtain ⟨t', hc', ht'⟩ := economicReason_of_sound minus o' al hw' hs'
      fun key hm => hi ▸ hf key ((hk key).mp hm)
    rw [hi] at hc'
    exact Or.inl ((ht'.trans (Tally.reason_congr hc' hc hin)).trans ht.symm)
  | some why =>
    obtain ⟨key, hm, hfk⟩ := exists_of_findSome?_eq_some hr
    obtain ⟨r', hr'⟩ : ∃ r', (o'.groups.list g'.keys).findSome? (fault g'.figure) = some r' := by
      rw [← Option.ne_none_iff_exists', hi]
      intro hn
      rw [List.findSome?_eq_none_iff.mp hn key ((hin key).mpr hm)] at hfk
      contradiction
    obtain ⟨k', hm', hf'⟩ := exists_of_findSome?_eq_some hr'
    rw [hi] at hf'
    rw [(or.groups.perm _).mem_iff] at hm
    rw [hin, (or.groups.perm _).mem_iff] at hm'
    rw [economicReason_of_fault hw hs hr, economicReason_of_fault hw' hs' hr']
    rcases fault_sound hg hw.toPlaced hm hfk with ⟨rfl, hu⟩ | ⟨rfl, ho⟩ <;>
      rcases fault_sound hg hw.toPlaced hm' hf' with ⟨rfl, hu'⟩ | ⟨rfl, ho'⟩
    · exact Or.inl rfl
    · exact Or.inr ⟨hw, hu, ho', by simp, by simp⟩
    · exact Or.inr ⟨hw, hu', ho, by simp, by simp⟩
    · exact Or.inl rfl

/-- The items that have something first. -/
def Iteration.first {α : Type} (has : α → Bool) : Iteration α where
  list items := items.filter has ++ items.filter fun item => !has item
  perm items := filter_append_perm has items

/-- Whichever reason some group has may come first. -/
theorem exists_order (minus : ℚ → ℚ → ℚ) (al : Option Value) (h : WellPlaced (items fi))
    (hs : gather ⟨[], fun _ _ => none⟩ (items fi) = some groups) {why : String}
    (hf : ∃ key ∈ groups.keys, fault groups.figure key = some why) :
    ∃ or, economicReason minus or fi al = some why := by
  obtain ⟨key, hm, hk⟩ := hf
  refine ⟨⟨.first fun key => fault groups.figure key == some why, .first fun _ => true⟩,
    economicReason_of_fault h hs ?_⟩
  have hi : (groups.keys.filter fun key => fault groups.figure key == some why).findSome?
      (fault groups.figure) = some why := by
    have he : key ∈ groups.keys.filter fun key => fault groups.figure key == some why :=
      mem_filter.mpr ⟨hm, by simp [hk]⟩
    cases hl : groups.keys.filter fun key => fault groups.figure key == some why with
    | nil =>
      rw [hl] at he
      contradiction
    | cons o xs =>
      have ho : o ∈ groups.keys.filter fun key => fault groups.figure key == some why := by
        rw [hl]
        exact mem_cons_self
      rw [List.findSome?_cons, eq_of_beq (mem_filter.mp ho).2]
  rw [Iteration.first, List.findSome?_append, hi]
  rfl

/-! ### Recorded decisions -/

variable {fs : List (String × Option Value)} {k : List String}

theorem field_object (h : (fs.map Prod.fst).Nodup) (n : String) :
    (object fs).field n = (fs.lookup n).join := by
  induction fs with
  | nil => rfl
  | cons x fs ih =>
    obtain ⟨o, v⟩ := x
    obtain ⟨hn, hd⟩ := nodup_cons.mp h
    have hi := ih hd
    simp only [object, Value.field, Value.get] at hi ⊢
    rw [lookup_cons]
    by_cases ho : n = o
    · subst ho
      have hl : fs.lookup n = none := lookup_eq_none_iff.mpr fun x hm =>
        bne_iff_ne.mpr fun he => hn (mem_map.mpr ⟨x, hm, he.symm⟩)
      rw [hl] at hi
      cases v with
      | none => simpa using hi
      | some v => simp
    · have hb : (n == o) = false := beq_false_of_ne ho
      have hk : (Key.str n == Key.str o) = false :=
        beq_false_of_ne fun he => ho (Key.str.inj he)
      rw [hb, ← hi]
      cases v with
      | none => simp
      | some v => simp [lookup_cons, hk]

theorem exact_object (h : ∀ x ∈ fs, x.1 ∈ k) :
    exact (some (object fs)) k = true := by
  refine exact_iff.mpr fun f hf => ?_
  obtain ⟨x, hm, hv⟩ := mem_filterMap.mp hf
  obtain ⟨v, -, rfl⟩ := Option.map_eq_some_iff.mp hv
  exact ⟨x.1, h x hm, rfl⟩

theorem exact_object_set (h : ∀ x ∈ fs, x.1 ∈ k) {n : String} (hn : n ∈ k)
    (v : Value) : exact (some ((object fs).set n v)) k = true := by
  refine exact_iff.mpr fun f hf => ?_
  obtain ⟨o, ho, he⟩ :=
    exact_iff.mp (exact_set n v (exact_object h)) f hf
  refine ⟨o, (mem_append.mp ho).elim id fun ho => ?_, he⟩
  rwa [mem_singleton.mp ho]

variable {scope approved : Value} {re r : String} {fa : Option String} {qu bas : Option Value}

theorem field_decision (n : String) : (decision scope re r fa qu bas al).field n =
      (List.lookup n [("reason", some (.str r)),
        ("requested", some (pairOf scope re)), ("baseline", some (pairOf scope "baseline")),
        ("rule", under (scope.field "workload") "id"), ("workload", scope.field "workload"),
        ("fallback_reason", fa.map .str), ("qualification", qu),
        ("economic_basis", bas), ("api_for_quota", al)]).join :=
  field_object (by simp) n

/-- A decision with another reason why it selects none. -/
theorem field_set_fallback (n t : String) :
    ((decision scope re r fa qu bas al).set "fallback_reason" (.str t)).field n =
      (decision scope re r (some t) qu bas al).field n := by
  by_cases hn : n = "fallback_reason"
  · subst hn
    rw [field_decision]
    exact field_set_self _ _ _
  · have hb : (n == "fallback_reason") = false := beq_false_of_ne hn
    rw [decision, object, field_set_of_ne hn, ← object, ← decision, field_decision, field_decision]
    simp only [lookup_cons, hb]

/-- A decision with another approval that it is made on. -/
theorem field_set_qualification (n : String) (v : Value) :
    ((decision scope re r fa qu bas al).set "qualification" v).field n =
      (decision scope re r fa (some v) bas al).field n := by
  by_cases hn : n = "qualification"
  · subst hn
    rw [field_decision]
    exact field_set_self _ _ _
  · have hb : (n == "qualification") = false := beq_false_of_ne hn
    rw [decision, object, field_set_of_ne hn, ← object, ← decision, field_decision, field_decision]
    simp only [lookup_cons, hb]

def selectionNames : List String :=
  ["reason", "requested", "baseline", "rule", "workload", "fallback_reason", "qualification",
    "economic_basis", "api_for_quota"]

/-- Only the fields of a selection count. -/
theorem validSelection_of_field {v o : Value} (h : validSelection minus or v = true)
    (he : exact (some o) selectionNames = true) (hf : ∀ n, o.field n = v.field n) :
    validSelection minus or o = true := by
  unfold validSelection at h ⊢
  simp only [hf, Bool.and_eq_true] at h ⊢
  exact ⟨⟨⟨⟨⟨⟨⟨⟨⟨he, h.1.1.1.1.1.1.1.1.2⟩, h.1.1.1.1.1.1.1.2⟩, h.1.1.1.1.1.1.2⟩, h.1.1.1.1.1.2⟩,
    h.1.1.1.1.2⟩, h.1.1.1.2⟩, h.1.1.2⟩, h.1.2⟩, h.2⟩

theorem sameValue_self {v : Option Value} (h : nonempty v = true) : sameValue v v = true := by
  match v, h with
  | some (.str t), _ => simp [sameValue, deepEqual]

theorem sameValue_pair {p : Option Value} (h : validPair p = true) : sameValue (under p "model")
    (under p "model") = true ∧ sameValue (under p "effort") (under p "effort") = true := by
  simp only [validPair, Bool.and_eq_true, Bool.or_eq_true, Option.isNone_iff_eq_none] at h
  refine ⟨sameValue_self h.1.2, h.2.elim (fun hn => ?_) sameValue_self⟩
  rw [hn]
  rfl

/-- A decision of this shape can be recorded: it selects the baseline, or the candidate for what
speaks for it. -/
theorem validSelection_decision (hs : Scoped scope)
    (hq : ∀ v ∈ qu, validQualification (some v) = true) (he : economics bas = true)
    (ha : allowance al = true) (hf : ∀ t ∈ fa, t ∈ fallbackReasons)
    (hr : (re = "baseline" ∧ r = "baseline") ∨
      (re = "candidate" ∧ r = "qualified" ∧ fa = none ∧ qu ≠ none ∧
        economicReason minus or bas al = none)) : validSelection minus or
      (decision scope re r fa qu bas al) = true := by
  obtain ⟨id, hid, hw⟩ := hs.workload
  have hi : under (scope.field "workload") "id" = some (.str id) := by
    rw [hw]
    rfl
  have hk : under (scope.field "workload") "kind" = some (.str "main") := by
    rw [hw]
    rfl
  have hwe : exact (scope.field "workload") ["kind", "id"] = true := by
    rw [hw]
    exact exact_object (by simp)
  have hp : validPair (some (pairOf scope re)) = true := by
    rcases hr with ⟨rfl, -⟩ | ⟨rfl, -⟩
    · exact hs.baseline
    · exact hs.candidate
  have hpq : (qu.isNone || validQualification qu) = true := by
    cases qu with
    | none => rfl
    | some v => simpa using hq v rfl
  have hpf : ((fa.map str).isNone ||
      oneOf fallbackReasons (fa.map str)) = true := by
    cases fa with
    | none => rfl
    | some t => simpa [oneOf] using hf t rfl
  have hee : exact (some (decision scope re r fa qu bas al))
      selectionNames = true := exact_object (by simp [selectionNames])
  have hd := @field_decision al scope re r fa qu bas
  generalize decision scope re r fa qu bas al = v at hee hd ⊢
  have h₁ : v.field "reason" = some (.str r) := hd "reason"
  have h₂ : v.field "requested" = some (pairOf scope re) := hd "requested"
  have h₃ : v.field "baseline" = some (pairOf scope "baseline") := hd "baseline"
  have h₄ : v.field "rule" = some (.str id) := (hd "rule").trans hi
  have h₅ : v.field "workload" = scope.field "workload" := hd "workload"
  have h₆ : v.field "fallback_reason" = fa.map .str := hd "fallback_reason"
  have h₇ : v.field "qualification" = qu := hd "qualification"
  have h₈ : v.field "economic_basis" = bas := hd "economic_basis"
  have h₉ : v.field "api_for_quota" = al := hd "api_for_quota"
  unfold validSelection
  simp only [h₁, h₂, h₃, h₄, h₅, h₆, h₇, h₈, h₉, hp, hs.baseline, hi, hk, hwe, hpq, hpf, he, ha]
  rw [selectionNames] at hee
  have hi' : nonempty (some (.str id)) = true := by simpa [nonempty] using hid
  have hsid : sameValue (some (.str id)) (some (.str id)) = true := sameValue_self hi'
  have hm : oneOf ["main"] (some (.str "main")) = true := rfl
  rw [hee, hi', hsid, hm]
  simp only [Bool.and_true, Bool.true_and, Bool.or_true]
  rcases hr with ⟨rfl, rfl⟩ | ⟨rfl, rfl, rfl, hqn, hn⟩
  · rw [if_neg (by simp [text?]), (sameValue_pair hs.baseline).1, (sameValue_pair hs.baseline).2]
    rfl
  · rw [if_pos (by rfl), hn, hw, Option.isSome_iff_ne_none.mpr hqn]
    rfl

/-! ### Reasons -/

theorem Tally.reason_mem (h : tally.reason or al = some r) : r ∈ fallbackReasons := by
  unfold Tally.reason at h
  split at h
  · split at h
    · obtain rfl := some.inj h
      simp [fallbackReasons]
    split at h
    · obtain rfl := some.inj h
      simp [fallbackReasons]
    · split at h
      · obtain rfl := some.inj h
        simp [fallbackReasons]
      · contradiction
  · split at h
    · obtain rfl := some.inj h
      simp [fallbackReasons]
    · contradiction

/-- Every reason of the figures can be recorded. -/
theorem economicReason_mem (h : economicReason minus or fi al = some r) : r ∈ fallbackReasons := by
  by_cases hw : WellPlaced (items fi)
  swap
  · rw [economicReason_of_not_wellPlaced hw, some.injEq] at h
    simp [← h, fallbackReasons]
  obtain ⟨groups, hs, hg⟩ := gather_start hw.toPlaced
  cases hr : (or.groups.list groups.keys).findSome? (fault groups.figure) with
  | none =>
    obtain ⟨tally, -, ht⟩ := economicReason_of_sound minus or al hw hs fun key hm =>
        List.findSome?_eq_none_iff.mp hr key ((or.groups.perm _).mem_iff.mpr hm)
    exact Tally.reason_mem (ht.symm.trans h)
  | some o =>
    rw [economicReason_of_fault hw hs hr, some.injEq] at h
    obtain ⟨key, -, hf⟩ := exists_of_findSome?_eq_some hr
    rcases fault_eq_some hf with ⟨ho, -⟩ | ⟨ho, -⟩ <;> simp [← h, ho, fallbackReasons]

/-! ### What is selected -/

theorem field_qualificationOf (n : String) : (qualificationOf approved).field n =
    (List.lookup n [("report_id", approved.field "report_id"),
      ("policy_revision", approved.field "policy_revision"),
      ("revision", approved.field "revision")]).join :=
  field_object (by simp) n

theorem isRevision_ofNat {b rev : Nat} (h : b ≤ rev) :
    isRevision (.ofNat b) (some (.num (.ofNat rev))) = true := by
  simp [isRevision, number?, Number.isWhole, Number.ofNat, Number.le, h]

theorem validQualification_of (ha : Approved approved) :
    validQualification (some (qualificationOf approved)) = true := by
  have hf := @field_qualificationOf approved
  have he : exact (some (qualificationOf approved))
      ["report_id", "policy_revision", "revision", "approval_revision"] = true :=
    exact_object (by simp)
  generalize qualificationOf approved = value at hf he ⊢
  have h₁ : under (some value) "report_id" = approved.field "report_id" := hf "report_id"
  have h₂ : under (some value) "policy_revision" = approved.field "policy_revision" :=
    hf "policy_revision"
  have h₃ : under (some value) "revision" = approved.field "revision" := hf "revision"
  have h₄ : under (some value) "approval_revision" = none := hf "approval_revision"
  rw [validQualification, he, h₁, h₂, h₃, h₄, ha.report, ha.policy, ha.revision]
  rfl

/-- The approval may be noted with the revision at which it was looked up. -/
theorem validQualification_noted (ha : Approved approved) {m rev : Nat}
    (hm : approved.field "revision" = some (.num (.ofNat m))) (hl : m ≤ rev) :
    validQualification (some ((qualificationOf approved).set "approval_revision"
      (.num (.ofNat rev)))) = true := by
  have he : exact (some ((qualificationOf approved).set "approval_revision"
      (.num (.ofNat rev)))) ["report_id", "policy_revision", "revision", "approval_revision"] =
        true := exact_object_set (by simp) (by simp) _
  have hf : ∀ n, n ≠ "approval_revision" →
      ((qualificationOf approved).set "approval_revision" (.num (.ofNat rev))).field n =
        (qualificationOf approved).field n := fun n hn => field_set_of_ne hn _
  have hn : ((qualificationOf approved).set "approval_revision"
      (.num (.ofNat rev))).field "approval_revision" = some (.num (.ofNat rev)) :=
    field_set_self _ _ _
  generalize (qualificationOf approved).set "approval_revision" (.num (.ofNat rev)) = value
    at he hf hn ⊢
  have h₁ : under (some value) "report_id" = approved.field "report_id" :=
    (hf _ (by simp)).trans (field_qualificationOf "report_id")
  have h₂ : under (some value) "policy_revision" = approved.field "policy_revision" :=
    (hf _ (by simp)).trans (field_qualificationOf "policy_revision")
  have h₃ : under (some value) "revision" = approved.field "revision" :=
    (hf _ (by simp)).trans (field_qualificationOf "revision")
  have h₄ : under (some value) "approval_revision" = some (.num (.ofNat rev)) := hn
  rw [validQualification, he, h₁, h₂, h₃, h₄, ha.report, ha.policy, ha.revision, hm]
  exact isRevision_ofNat hl

/-- What is selected is about the baseline for some reason, or qualified. -/
theorem select_eq (scope : Value) (approved : Option Value) : select minus or scope approved =
        decision scope "baseline" "baseline" (some "unqualified") none none none ∨
      ∃ g, approved = some g ∧ names scope g = true ∧
        ((∃ r, economicReason minus or (g.field "economics") (g.field "api_for_quota") = some r ∧
            select minus or scope approved = decision scope "baseline" "baseline" (some r)
              (some (qualificationOf g)) (g.field "economics") (g.field "api_for_quota")) ∨
          (economicReason minus or (g.field "economics") (g.field "api_for_quota") = none ∧
            select minus or scope approved = decision scope "candidate" "qualified" none
              (some (qualificationOf g)) (g.field "economics") (g.field "api_for_quota"))) := by
  cases approved with
  | none => exact Or.inl rfl
  | some g =>
    by_cases hn : names scope g = true
    · refine Or.inr ⟨g, rfl, hn, ?_⟩
      cases hr : economicReason minus or (g.field "economics") (g.field "api_for_quota") with
      | none => exact Or.inr ⟨rfl, by simp [select, hn, hr]⟩
      | some r => exact Or.inl ⟨r, rfl, by simp [select, hn, hr]⟩
    · exact Or.inl (by simp [select, hn])

/-- Whatever is selected can be recorded. -/
theorem validSelection_select (hs : Scoped scope) (ha : Approved approved) :
    validSelection minus o' (select minus or scope (some approved)) = true := by
  have hq : ∀ v ∈ some (qualificationOf approved), validQualification (some v) = true := by
    rintro _ ⟨⟩
    exact validQualification_of ha
  rcases select_eq scope (some approved) with
    h | ⟨_, ⟨⟩, -, ⟨r, hr, h⟩ | ⟨hr, h⟩⟩ <;> rw [h]
  · refine validSelection_decision hs (by simp) rfl rfl ?_ (Or.inl ⟨rfl, rfl⟩)
    simp [fallbackReasons]
  · refine validSelection_decision hs hq ha.economics ha.allowance ?_ (Or.inl ⟨rfl, rfl⟩)
    rintro _ ⟨⟩
    exact economicReason_mem hr
  · refine validSelection_decision hs hq ha.economics ha.allowance (by simp)
      (Or.inr ⟨rfl, rfl, rfl, by simp, ?_⟩)
    refine (economicReason_reorder (List.Perm.refl _)).elim (fun he => he.trans hr) fun hn => ?_
    exact absurd hr hn.2.2.2.2

theorem validDecisions_mem {ds : List Value} {i : Nat} {it : Value} (h : validDecisions i ds = true)
    (hm : it ∈ ds) : ∃ m, i ≤ m ∧ m < i + ds.length ∧ validDecision it m = true := by
  induction ds generalizing i with
  | nil => contradiction
  | cons x xs ih =>
    rw [validDecisions, Bool.and_eq_true] at h
    rcases mem_cons.mp hm with rfl | hm
    · exact ⟨i, Nat.le_refl i, by simp, h.1⟩
    · obtain ⟨m, hl, hu, hv⟩ := ih h.2 hm
      rw [length_cons]
      exact ⟨m, by omega, by omega, hv⟩

/-- What is looked up is an approval that is not newer than the revision of the lookup. -/
theorem lookup_approved {l : ReadLook} {f : Stored} {g : Option Value} {revision : Nat}
    (h : lookup l f g (some (.ofNat revision)) = .ok (some approved)) :
    Approved approved ∧ ∃ m, approved.field "revision" = some (.num (.ofNat m)) ∧ m ≤ revision := by
  obtain ⟨s, hs, hrev, ho⟩ := lookup_ok h
  have hr : revision = s.revision := Number.ofNat_inj.mp (hrev _ rfl)
  obtain ⟨x, hfi, ho⟩ := Option.bind_eq_some_iff.mp ho.symm
  have hm := mem_reverse.mp (mem_of_find?_eq_some hfi)
  obtain ⟨m, hl, hu, hv⟩ := validDecisions_mem (readState_ok hs).1 hm
  split at ho
  swap
  · contradiction
  obtain rfl := some.inj ho
  have hf : ∀ nm, (result x).field nm = (List.lookup nm [("revision", x.field "revision"),
        ("report_id", under (x.field "report") "id"),
        ("policy_revision", under (x.field "report") "policy_revision"),
        ("report", x.field "report"), ("economics", x.field "economics"),
        ("api_for_quota", x.field "api_for_quota")]).join := field_object (by simp)
  simp only [validDecision, decided, Bool.and_eq_true, beq_iff_eq] at hv
  obtain ⟨⟨⟨-, ⟨⟨⟨-, he⟩, -⟩, hc⟩, hal⟩, hn⟩, -⟩ := hv
  simp only [report, Bool.and_eq_true] at he
  have ha : x.field "revision" = some (.num (.ofNat m)) := by
    unfold revisionOf number? at hn
    split at hn
    · next n hi => rw [hi, some.inj hn]
    · cases hn
  refine ⟨{
    report := ?_
    policy := ?_
    revision := ?_
    economics := ?_
    allowance := ?_ }, m, (hf "revision").trans ha, ?_⟩
  · rw [hf "report_id"]
    exact he.1.1.1.1.1.1.1.1.2
  · rw [hf "policy_revision"]
    exact he.1.1.1.1.1.1.1.2
  · rw [(hf "revision").trans ha]
    exact isRevision_ofNat hl
  · rw [hf "economics"]
    exact hc
  · rw [hf "api_for_quota"]
    exact hal
  · rw [hr, State.revision]
    omega

theorem validSelection_fallback (a : Admission) {t : String} (ht : t ∈ fallbackReasons) :
    validSelection minus or (a.fallback t) = true := by
  have hf : ∀ n, (a.fallback t).field n = (List.lookup n [("reason", some (.str "baseline")),
        ("requested", some a.baseline), ("baseline", some a.baseline),
        ("fallback_reason", some (.str t))]).join := field_object (by simp)
  have he : exact (some (a.fallback t)) selectionNames = true :=
    exact_object (by simp [selectionNames])
  have hv := a.valid
  obtain ⟨hm, hef⟩ := sameValue_pair hv
  generalize a.fallback t = value at hf he ⊢
  have h₁ : value.field "reason" = some (.str "baseline") := hf "reason"
  have h₂ : value.field "requested" = some a.baseline := hf "requested"
  have h₃ : value.field "baseline" = some a.baseline := hf "baseline"
  have h₄ : value.field "rule" = none := hf "rule"
  have h₅ : value.field "workload" = none := hf "workload"
  have h₆ : value.field "fallback_reason" = some (.str t) := hf "fallback_reason"
  have h₇ : value.field "qualification" = none := hf "qualification"
  have h₈ : value.field "economic_basis" = none := hf "economic_basis"
  have h₉ : value.field "api_for_quota" = none := hf "api_for_quota"
  have ho : oneOf fallbackReasons (some (.str t)) = true := by simpa [oneOf] using ht
  unfold validSelection
  simp only [h₁, h₂, h₃, h₄, h₅, h₆, h₇, h₈, h₉, hv, ho, hm, hef]
  rw [selectionNames] at he
  rw [he, if_neg (by simp [text?])]
  rfl

theorem noteRevision_decision_some {v : Value} {rev : Nat} :
    noteRevision (decision scope re r fa (some v) bas al) rev =
      (decision scope re r fa (some v) bas al).set "qualification"
        (v.set "approval_revision" (.num (.ofNat rev))) := by
  rw [noteRevision, field_decision]
  rfl

/-- Noting the revision of the lookup keeps what is selected fit for the record. -/
theorem validSelection_noteRevision (hs : Scoped scope) {given : Option Value} {revision : Nat}
    (hg : ∀ approved ∈ given, Approved approved ∧
      ∃ made, approved.field "revision" = some (.num (.ofNat made)) ∧ made ≤ revision) :
    validSelection minus o' (noteRevision (select minus or scope given) revision) =
      true := by
  rcases select_eq scope given with h | ⟨approved, rfl, -, hr⟩
  · rw [h, noteRevision, field_decision]
    exact validSelection_decision hs (by simp) rfl rfl (by simp [fallbackReasons])
      (Or.inl ⟨rfl, rfl⟩)
  obtain ⟨ha, made, hm, hl⟩ := hg approved rfl
  have hq : ∀ value ∈ some ((qualificationOf approved).set "approval_revision"
      (.num (.ofNat revision))), validQualification (some value) = true := by
    rintro _ ⟨⟩
    exact validQualification_noted ha hm hl
  rcases hr with ⟨r, hr, h⟩ | ⟨hr, h⟩ <;> rw [h, noteRevision_decision_some]
  · refine validSelection_of_field (validSelection_decision hs hq ha.economics ha.allowance ?_
      (Or.inl ⟨rfl, rfl⟩)) (exact_object_set ?_ ?_ _) (field_set_qualification · _)
    · rintro _ ⟨⟩
      exact economicReason_mem hr
    · simp [selectionNames]
    · simp [selectionNames]
  · refine validSelection_of_field (validSelection_decision hs hq ha.economics ha.allowance
      (by simp) (Or.inr ⟨rfl, rfl, rfl, by simp, ?_⟩))
      (exact_object_set ?_ ?_ _) (field_set_qualification · _)
    · refine (economicReason_reorder (List.Perm.refl _)).elim (fun he => he.trans hr) fun hn => ?_
      exact absurd hr hn.2.2.2.2
    · simp [selectionNames]
    · simp [selectionNames]

theorem validSelection_selectAuto (hs : Scoped scope) (a : Admission)
    (hc : ∀ o, a.scope = .ok o → o = scope) {s : Value} (h : selectAuto minus or a = some s) :
    validSelection minus o' s = true := by
  unfold selectAuto at h
  split at h
  · obtain rfl := some.inj h
    exact validSelection_fallback a (by simp [fallbackReasons])
  split at h
  · next r _ =>
    obtain rfl := some.inj h
    exact validSelection_fallback a (by cases r <;> simp [ScopeReason.text, fallbackReasons])
  next o ho =>
  obtain rfl := hc o ho
  split at h
  · contradiction
  split at h
  · obtain rfl := some.inj h
    exact validSelection_fallback a (by simp [fallbackReasons])
  next st _ =>
  split at h
  · contradiction
  split at h
  · obtain rfl := some.inj h
    have hv : validSelection minus o' (decision o "baseline" "baseline"
        (some "approval_unavailable") none none none) = true :=
      validSelection_decision hs (by simp) rfl rfl (by simp [fallbackReasons]) (Or.inl ⟨rfl, rfl⟩)
    refine validSelection_of_field hv (exact_object_set ?_ ?_ _) (field_set_fallback · _)
    · simp [selectionNames]
    · simp [selectionNames]
  · next g hl =>
    obtain rfl := some.inj h
    refine validSelection_noteRevision hs fun approved ha => ?_
    exact lookup_approved (by rw [hl, ha])

/-! ### Selections -/

/-- The same comparison in another order selects the same, unless its figures are both unmatched
and worsened. -/
theorem select_reordered {a' : Value} (hu : Unambiguous scope approved)
    (hr : Reordered "economics" approved a') :
    Reordered "economic_basis" (select minus or scope (some approved))
      (select minus o' scope (some a')) := by
  have hn : names scope a' = names scope approved := by
    simp only [names, hr.1 "report" (by simp)]
  have hq : qualificationOf a' = qualificationOf approved := by
    simp only [qualificationOf, hr.1 "report_id" (by simp), hr.1 "policy_revision" (by simp),
      hr.1 "revision" (by simp)]
  have ha : a'.field "api_for_quota" = approved.field "api_for_quota" :=
    hr.1 "api_for_quota" (by simp)
  have hd : ∀ re r fa, Reordered "economic_basis"
      (decision scope re r fa (some (qualificationOf approved))
        (approved.field "economics") (approved.field "api_for_quota"))
      (decision scope re r fa (some (qualificationOf approved))
        (a'.field "economics") (approved.field "api_for_quota")) := by
    intro re r fa
    refine ⟨fun n hne => ?_, ?_⟩
    · have hb : (n == "economic_basis") = false := beq_false_of_ne hne
      rw [field_decision, field_decision]
      simp only [lookup_cons, hb]
    · rw [field_decision, field_decision]
      exact hr.2
  by_cases hm : names scope approved = true
  swap
  · simp only [select, hn, hm]
    exact ⟨fun _ _ => rfl, List.Perm.refl _⟩
  have he : economicReason minus o' (a'.field "economics") (a'.field "api_for_quota") =
        economicReason minus or (approved.field "economics") (approved.field "api_for_quota") := by
    rw [ha]
    refine (economicReason_reorder hr.2).elim id fun h => ?_
    exact absurd ⟨h.2.1, h.2.2.1⟩ (hu hm h.1)
  rw [ha] at he
  simp only [select, hn, hm, hq, he, ha]
  cases economicReason minus or (approved.field "economics") (approved.field "api_for_quota") with
  | none => exact hd _ _ _
  | some r => exact hd _ _ _

/-- Figures that are both unmatched and worsened select for different reasons. -/
theorem select_ambiguous (minus : ℚ → ℚ → ℚ) (hn : names scope approved = true)
    (hw : WellPlaced (items (approved.field "economics")))
    (hu : Unmatched (items (approved.field "economics")))
    (hwo : Worsened (items (approved.field "economics"))) : ∃ or o',
      ¬Reordered "economic_basis" (select minus or scope (some approved))
        (select minus o' scope (some approved)) := by
  obtain ⟨groups, hs, hg⟩ := gather_start hw.toPlaced
  have hf : ∀ {r or}, economicReason minus or (approved.field "economics")
      (approved.field "api_for_quota") = some r →
        (select minus or scope (some approved)).field "fallback_reason" = some (.str r) := by
    intro r or hr
    simp only [select, hn, hr]
    exact field_decision _
  obtain ⟨or, ho⟩ := exists_order minus (approved.field "api_for_quota") hw hs
    (exists_fault_of_unmatched hg hw.toPlaced hu)
  obtain ⟨o', ho'⟩ := exists_order minus (approved.field "api_for_quota") hw hs
    (exists_fault_of_worsened hg hwo)
  refine ⟨or, o', fun h => ?_⟩
  have he := h.1 "fallback_reason" (by simp)
  rw [hf ho, hf ho'] at he
  simp at he

/-- What an approved comparison selects for a scope is justified, the same in every order and fit
for the record exactly when not both is a figure unmatched and a quota worse. -/
theorem selects_iff_unambiguous (scope approved : Value) (hs : Scoped scope)
    (ha : Approved approved) : Selects minus scope approved ↔ Unambiguous scope approved := by
  constructor
  · rintro h hn hw ⟨hu, ho⟩
    obtain ⟨or, o', hno⟩ := select_ambiguous minus hn hw hu ho
    exact hno (h.ordered or o' approved ⟨fun _ _ => rfl, List.Perm.refl _⟩)
  · intro hu
    exact {
      qualified := fun or hr => by
        rcases select_eq scope (some approved) with
          h | ⟨_, ⟨⟩, hn, ⟨r, -, h⟩ | ⟨he, h⟩⟩
        · rw [h, field_decision] at hr
          simp [text?] at hr
        · rw [h, field_decision] at hr
          simp [text?] at hr
        · exact ⟨hn, economical_of_none he⟩
      ordered := fun or o' a' hre => select_reordered hu hre
      recorded := fun or o' => validSelection_select hs ha
      admitted := fun or o' a s hc h =>
        validSelection_selectAuto hs a hc h }

/-! ### A cost without its other figure and a worse quota -/

private def sampleFigure (route metric unit : String) (value : Nat) : Value :=
  object [("route", some (.str route)), ("kind", some (.str "measured")),
    ("metric", some (.str metric)), ("value", some (.num (.ofNat value))),
    ("unit", some (.str unit)), ("provenance", some (.str "planned"))]

/-- Approved figures: what the baseline costs, and a quota that the candidate uses more of. -/
def sampleDecision : Value :=
  decisionOf ((sampleInput "approve").set "economics"
    (.array [sampleFigure "baseline" "api_cost" "USD" 1, sampleFigure "baseline" "quota" "tokens" 1,
      sampleFigure "candidate" "quota" "tokens" 2])) 1 0

def sampleApproved : Value := result sampleDecision

/-- The scope of the report. -/
def sampleScope : Value :=
  object (["workload", "baseline", "candidate", "policy_revision"].map fun name =>
    (name, under (sampleApproved.field "report") name))

theorem scoped_sample : Scoped sampleScope where
  workload := ⟨"implementation", by simp, rfl⟩
  baseline := by decide +kernel
  candidate := by decide +kernel

theorem approved_sample : Approved sampleApproved where
  report := by decide +kernel
  policy := by decide +kernel
  revision := by decide +kernel
  economics := by decide +kernel
  allowance := by decide +kernel

/-- The decision can stand in the file of approvals, and which reason it falls back for depends on
the order of the groups. -/
theorem sample_not_selects : validDecision sampleDecision 1 = true ∧
    Scoped sampleScope ∧ Approved sampleApproved ∧
    ¬Selects (fun left right => left - right) sampleScope sampleApproved := by
  refine ⟨by decide +kernel, scoped_sample, approved_sample, fun h => ?_⟩
  have hw : WellPlaced (items (sampleApproved.field "economics")) := {
    routed := by decide +kernel
    places := by decide +kernel
    priced := by decide +kernel }
  have hn : names sampleScope sampleApproved = true := by decide +kernel
  obtain ⟨or, o', ho⟩ := select_ambiguous (fun left right => left - right) hn hw
    (by unfold Unmatched; decide +kernel) (by unfold Worsened; decide +kernel)
  exact ho (h.ordered or o' sampleApproved ⟨fun _ _ => rfl, List.Perm.refl _⟩)

/-- The equivalence for these figures. -/
theorem selects_iff_unambiguous_sample :
    Selects (fun left right => left - right) sampleScope sampleApproved ↔
      Unambiguous sampleScope sampleApproved :=
  selects_iff_unambiguous _ _ scoped_sample approved_sample

end Louiselm.Routing.Selection
