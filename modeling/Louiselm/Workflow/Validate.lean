import Louiselm.Base.Graph
import Louiselm.Base.Text
import Louiselm.Workflow.Document

/-!
# Workflow validation

`lua/louiselm/workflow/validate.lua`: one workflow against the manifest of discovered stage
blocks. The text of a key that is not one is a parameter. Tables that serve as sets are lists;
a set of edges is a function from a stage to its targets.
-/

namespace Louiselm.Workflow
open Base Base.Lua Value

/-- What is wrong with a document, and where. -/
structure Rejection where
  reason : String
  message : String
  stage : Option String
  outcome : Option String
  target : Option String
  field : Option String
deriving DecidableEq, Repr

structure ValidationResult where
  ok : Bool
  rejections : List Rejection
  generatedWorkMax : Option Number
  parkTtlMs : Option Nat
deriving DecidableEq, Repr

/-! ### Fields -/

/-- A bound that is readable as a number. -/
def isLiteralCount : Option Value → Bool
  | some (.num n) => n.isWhole && (Number.ofNat 1).le n
  | _ => false

/-- The milliseconds of a relative Park expiry. -/
def parkTtl (value : Option Value) : Option Nat :=
  match value with
  | some (.str text) =>
    let digits := text.toList.takeWhile Char.isDigit
    let count := digits.foldl (fun n c => 10 * n + (c.toNat - '0'.toNat)) 0
    let multiplier := match text.toList.dropWhile Char.isDigit with
      | ['s'] => some 1000
      | ['m'] => some 60000
      | ['h'] => some 3600000
      | ['d'] => some 86400000
      | _ => none
    match multiplier with
    | none => none
    | some multiplier =>
      if digits.isEmpty ∨ count < 1 then none
      else if 9007199254740991 < count * multiplier then none
      else some (count * multiplier)
  | _ => none

def hasType (value : Value) : FieldType → Bool
  | .array => value.isArray
  | expected => typeName (some value) == expected.name

/-- The text of a key. -/
def keyText (text : Key → String) : Key → String
  | .str name => name
  | key => text key

/-- Texts in their order. -/
def sorted (names : List String) : List String := names.insertionSort (· ≤ ·)

@[simp] theorem mem_sorted {ns : List String} {n : String} :
    n ∈ sorted ns ↔ n ∈ ns := List.mem_insertionSort _

/-- The fields of a table. -/
def fieldsOf : Value → List (Key × Value)
  | .table fields => fields
  | _ => []

/-- What is wrong with the fields of a block. -/
def checkFields (text : Key → String) (block : Value) (allowed : List (String × FieldType))
    (stage : String) (outcome : Option String) : List Rejection :=
  (sorted ((fieldsOf block).map fun item => keyText text item.1)).flatMap fun key =>
    match allowed.lookup key with
    | none => [⟨"unknown_field", "stage '" ++ stage ++ "' declares unknown field '" ++ key ++ "'",
        some stage, outcome, none, some key⟩]
    | some expected =>
      if (block.field key).any (hasType · expected) then []
      else [⟨"wrong_field_type", "stage '" ++ stage ++ "' field '" ++ key ++ "' must be a " ++
        expected.name, some stage, outcome, none, some key⟩]

/-! ### The graph -/

/-- The blocks of a workflow. -/
def stagesOf (workflow : String) (manifest : Manifest) : Manifest where
  blocks := manifest.blocks.filter fun item => claims workflow item.2
  nodup := manifest.nodup.sublist (List.filter_sublist.map Prod.fst)

def stageNames (stages : Manifest) : List String := sorted (stages.blocks.map Prod.fst)

/-- The outcomes of a block, where they are an array. -/
def outcomesOf (block : Value) : List Value :=
  match block.field "outcomes" with
  | some outcomes => if outcomes.isArray then outcomes.sequence else []
  | none => []

/-- The stages that the outcomes of a block name. -/
def targetsOf (stages : Manifest) (block : Value) : List String :=
  ((outcomesOf block).filter fun outcome => isTable (some outcome)).filterMap fun outcome =>
    (targetOf outcome).filter fun target => (stages.stage target).isSome

/-- The edges from a stage. -/
def edges (stages : Manifest) (name : String) : List String :=
  ((stages.stage name).map (targetsOf stages)).getD []

/-- The edges to a stage. -/
def reverseEdges (stages : Manifest) (name : String) : List String :=
  (stages.blocks.map Prod.fst).filter fun source => (edges stages source).contains name

def names (stages : Manifest) : List String := stages.blocks.map Prod.fst

/-- What some stages reach. -/
def reachableFrom (stages : Manifest) (roots : List String) : List String :=
  Graph.reachableFrom (edges stages) (names stages) roots

/-- What reaches some stages. -/
def reaching (stages : Manifest) (roots : List String) : List String :=
  Graph.reachableFrom (reverseEdges stages) (names stages) roots

/-- The edges that return to a stage still open on the path from the entry, walked in the order
of the names. -/
def classifyBackEdges (stages : Manifest) (entry : String) : List (String × String) :=
  Graph.backEdges (fun name => sorted (edges stages name).dedup) (names stages) entry

/-! ### Stages -/

/-- Whether a stage block has an automatic generator. -/
def hasAutomaticGenerator (block : Value) : Bool :=
  isTable (block.field "generates") ||
    (outcomesOf block).any fun outcome =>
      isTable (some outcome) && isBackEdge outcome && isAutomatic outcome

/-- What is wrong with the fields of a stage block. -/
def checkStage (text : Key → String) (name : String) (block : Value) : List Rejection :=
  checkFields text block stageFields name none ++ (match block.field "generates" with
      | some (.table fields) =>
        checkFields text (.table fields) generatesFields name none ++
          (if isLiteralCount ((table fields).field "max") then []
          else [⟨"unbounded_generator", "stage '" ++ name ++
            "' generates work and must declare a literal integer 'max'", some name, none, none,
            none⟩])
      | _ => []) ++
    (match block.field "generated-work" with
      | some (.table fields) =>
        checkFields text (.table fields) generatedWorkFields name none
      | _ => []) ++
    (if (block.field "generated-work").isSome && !isTrue (block.field "entry") then
      [⟨"misplaced_run_budget", "stage '" ++ name ++
        "' declares the Run budget but is not the entry stage", some name, none, none,
        some "generated-work"⟩]
    else []) ++
    (if (block.field "park-expiry").isSome && !isTrue (block.field "entry") then
      [⟨"misplaced_park_expiry", "stage '" ++ name ++
        "' declares the Park expiry but is not the entry stage", some name, none, none,
        some "park-expiry"⟩]
    else [])

/-- The stages that declare to be the entry. -/
def entriesOf (stages : Manifest) : List String :=
  (stageNames stages).filter fun name =>
    (stages.stage name).any fun block => isTrue (block.field "entry")

def checkEntries (workflow : String) (entries : List String) : List Rejection :=
  match entries with
  | [] => [⟨"missing_entry", "workflow '" ++ workflow ++ "' declares no entry stage", none, none,
      none, none⟩]
  | [_] => []
  | entries => [⟨"ambiguous_entry", "workflow '" ++ workflow ++ "' declares " ++
      toString entries.length ++ " entry stages: " ++ String.intercalate ", " (sorted entries),
      none, none, none, none⟩]

/-- The Run-wide ceiling that an entry stage declares. -/
def generatedWorkMax (entry : Value) : Option Number :=
  match entry.field "generated-work" with
  | some (.table fields) =>
    if isLiteralCount ((table fields).field "max") then
      number? ((table fields).field "max")
    else none
  | _ => none

/-- What is wrong with the bounds that an entry stage declares. -/
def checkEntry (name : String) (entry : Value) (automatic : Bool) : List Rejection :=
  (if (generatedWorkMax entry).isNone && automatic then
    [⟨"unbounded_run", "entry stage '" ++ name ++
      "' must declare a literal positive 'generated-work.max' for this workflow", some name, none,
      none, some "generated-work"⟩]
  else []) ++
  (if (entry.field "park-expiry").isNone then
    [⟨"missing_park_expiry", "entry stage '" ++ name ++
      "' must declare a relative 'park-expiry'", some name, none, none, some "park-expiry"⟩]
  else if (parkTtl (entry.field "park-expiry")).isNone then
    [⟨"invalid_park_expiry", "entry stage '" ++ name ++
      "' park-expiry must be a positive integer followed by s, m, h, or d", some name, none, none,
      some "park-expiry"⟩]
  else [])

/-! ### Outcomes -/

/-- The last outcome with a name. -/
def byName (outcomes : List Value) (name : String) : Option Value :=
  outcomes.reverse.find? fun outcome => isTable (some outcome) && nameOf outcome == some name

/-- What is wrong with how a bounded back edge is left. -/
def checkExhaustion (stages : Manifest) (outcomes : List Value) (name label : String)
    (outcome : Value) (target : String) : List Rejection :=
  match text? (outcome.field "on-exhausted") with
  | none => [⟨"missing_exhaustion_outcome", "stage '" ++ name ++ "' outcome '" ++ label ++
      "' is bounded but declares no 'on-exhausted' outcome, so the last iteration has nowhere to go",
      some name, some label, none, none⟩]
  | some exhausted =>
    match byName outcomes exhausted with
    | none => [⟨"unresolved_target", "stage '" ++ name ++ "' outcome '" ++ label ++
        "' exhausts to '" ++ exhausted ++ "', which is not an outcome of this stage", some name,
        some label, some exhausted, none⟩]
    | some exit =>
      match if isTerminal exit then none else targetOf exit with
      | none => []
      | some exitTo =>
        -- the loop is what the target reaches and what reaches the source
        if (reachableFrom stages [target]).contains exitTo &&
            (reaching stages [name]).contains exitTo then
          [⟨"exhaustion_inside_loop", "stage '" ++ name ++ "' outcome '" ++ label ++
            "' exhausts to '" ++ exitTo ++ "', which is inside the loop it exits", some name,
            some label, some exitTo, none⟩]
        else []

/-- What is wrong with where an outcome that is not terminal leads. -/
def checkTarget (stages : Manifest) (backEdges : List (String × String)) (outcomes : List Value)
    (name label : String) (outcome : Value) (target : String) : List Rejection :=
  (if backEdges.contains (name, target) && !isBackEdge outcome then
    [⟨"undeclared_back_edge", "stage '" ++ name ++ "' outcome '" ++ label ++ "' returns to '" ++
      target ++ "' and must declare back-edge: true", some name, some label, some target, none⟩]
  else []) ++
  (if isBackEdge outcome && isAutomatic outcome then
    (if isLiteralCount (outcome.field "max-iterations") then []
    else [⟨"unbounded_generator", "stage '" ++ name ++ "' outcome '" ++ label ++
      "' is a back edge resolved by '" ++ resolverOf outcome ++
      "' and must declare a literal integer 'max-iterations'", some name, some label, none,
      none⟩]) ++
    checkExhaustion stages outcomes name label outcome target
  else [])

/-- What is wrong with one outcome, of which the names of those before it are known. -/
def checkOutcome (text : Key → String) (workflow : String) (stages : Manifest)
    (backEdges : List (String × String)) (outcomes : List Value) (name : String) (index : Nat)
    (seen : List String) (outcome : Value) : List Rejection :=
  if !isTable (some outcome) then
    [⟨"wrong_field_type", "stage '" ++ name ++ "' outcome " ++ toString index ++
      " must be a table", some name, none, none, some "outcomes"⟩]
  else
    let label := (nameOf outcome).getD (toString index)
    checkFields text outcome outcomeFields name (some label) ++
    (match nameOf outcome with
      | none => [⟨"unnamed_outcome", "stage '" ++ name ++ "' outcome " ++ toString index ++
          " has no name", some name, none, none, none⟩]
      | some "" => [⟨"unnamed_outcome", "stage '" ++ name ++ "' outcome " ++ toString index ++
          " has no name", some name, none, none, none⟩]
      | some outcomeName =>
        if seen.contains outcomeName then
          [⟨"duplicate_outcome", "stage '" ++ name ++ "' declares outcome '" ++ outcomeName ++
            "' more than once", some name, some outcomeName, none, none⟩]
        else []) ++
    (if isTerminal outcome then []
    else
      match targetOf outcome with
      | none => [⟨"unmapped_outcome", "stage '" ++ name ++ "' outcome '" ++ label ++
          "' names no target and is not terminal", some name, some label, none, none⟩]
      | some target =>
        if (stages.stage target).isNone then
          [⟨"unresolved_target", "stage '" ++ name ++ "' outcome '" ++ label ++ "' targets '" ++
            target ++ "', which is not a stage of workflow '" ++ workflow ++ "'", some name,
            some label, some target, none⟩]
        else checkTarget stages backEdges outcomes name label outcome target)

/-- The outcomes of a stage one after the other. -/
def checkOutcomes (text : Key → String) (workflow : String) (stages : Manifest)
    (backEdges : List (String × String)) (outcomes : List Value) (name : String) :
    Nat → List String → List Value → List Rejection
  | _, _, [] => []
  | index, seen, outcome :: rest =>
    checkOutcome text workflow stages backEdges outcomes name index seen outcome ++
      checkOutcomes text workflow stages backEdges outcomes name (index + 1)
        ((nameOf outcome).toList ++ seen) rest

/-- The stages with a terminal outcome. -/
def terminalStages (stages : Manifest) : List String :=
  (stageNames stages).filter fun name =>
    (stages.stage name).any fun block =>
      (outcomesOf block).any fun outcome => isTable (some outcome) && isTerminal outcome

/-- What is wrong with where stages lead and what leads to them. -/
def checkReachability (workflow : String) (stages : Manifest) (entries : List String) :
    List Rejection :=
  ((stageNames stages).flatMap fun name =>
    if (reaching stages (terminalStages stages)).contains name then []
    else [⟨"no_reachable_terminal", "stage '" ++ name ++ "' can never reach a terminal outcome",
      some name, none, none, none⟩]) ++
  (match entries with
    | [entry] => (stageNames stages).flatMap fun name =>
      if (reachableFrom stages [entry]).contains name then []
      else [⟨"unreachable_stage", "stage '" ++ name ++ "' claims workflow '" ++ workflow ++
        "' but entry '" ++ entry ++ "' cannot reach it", some name, none, none, none⟩]
    | _ => [])

/-- The only entry of a workflow, where there is one. -/
def singleEntry : List String → Option String
  | [entry] => some entry
  | _ => none

/-- All that is wrong with a workflow, in the order in which it is found. -/
def rejectionsOf (text : Key → String) (workflow : String) (stages : Manifest) : List Rejection :=
  let entries := entriesOf stages
  let automatic := stages.blocks.any fun item => hasAutomaticGenerator item.2
  let backEdges := ((singleEntry entries).map (classifyBackEdges stages)).getD []
  ((stageNames stages).flatMap fun name =>
    ((stages.stage name).map (checkStage text name)).getD []) ++
  checkEntries workflow entries ++
  (((singleEntry entries).bind fun entry =>
    (stages.stage entry).map fun block => checkEntry entry block automatic).getD []) ++
  ((stageNames stages).flatMap fun name =>
    ((stages.stage name).map fun block =>
      checkOutcomes text workflow stages backEdges (outcomesOf block) name 1 []
        (outcomesOf block)).getD []) ++
  checkReachability workflow stages entries

/-- Validate one workflow, identified by name, against the manifest of discovered stage blocks. -/
def validate (text : Key → String) (workflow : String) (manifest : Manifest) : ValidationResult :=
  let stages := stagesOf workflow manifest
  let rejections := rejectionsOf text workflow stages
  let entry := (singleEntry (entriesOf stages)).bind stages.stage
  { ok := rejections.isEmpty
    rejections := rejections
    generatedWorkMax := if rejections.isEmpty then entry.bind generatedWorkMax else none
    parkTtlMs := if rejections.isEmpty then
      entry.bind fun block => parkTtl (block.field "park-expiry") else none }

end Louiselm.Workflow
