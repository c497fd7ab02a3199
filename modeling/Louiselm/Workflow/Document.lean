import Louiselm.Base.Lua

/-!
# Workflow documents

`lua/louiselm/workflow/schema.lua` and `escape.lua`: the stage blocks of a manifest, what their
fields are and mean, and the Park outcome that every stage is given. A manifest has its blocks in
the order in which the table is iterated over. The copies that the escape makes are the values
themselves.
-/

namespace Louiselm.Workflow
open Base.Lua List

/-- Discovered stage blocks under their names. -/
structure Manifest where
  blocks : List (String × Value)
  nodup : (blocks.map Prod.fst).Nodup

/-- The block of a stage. -/
def Manifest.stage (manifest : Manifest) (name : String) : Option Value :=
    manifest.blocks.lookup name

/-- With distinct names the block under a name is the one that stands there. -/
theorem lookup_eq_some {b : List (String × Value)} (ho : (b.map Prod.fst).Nodup)
    {name : String} {block : Value} : b.lookup name = some block ↔ (name, block) ∈ b := by
  induction b with
  | nil => simp
  | cons x b ih =>
    obtain ⟨hf, hr⟩ := nodup_cons.mp ho
    rw [lookup_cons, mem_cons, ← ih hr]
    by_cases hn : name = x.1
    · have ha : b.lookup name = none := by
        refine lookup_eq_none_iff.mpr fun it hi => bne_iff_ne.mpr fun heq => hf ?_
        rw [← hn, heq]
        exact mem_map_of_mem hi
      rw [beq_iff_eq.mpr hn, ha]
      constructor
      · rintro ⟨⟩
        exact .inl (Prod.ext hn rfl)
      · rintro (rfl | h)
        · rfl
        · cases h
    · rw [beq_false_of_ne hn]
      refine ⟨.inr, fun h => h.resolve_left ?_⟩
      rintro rfl
      exact hn rfl

theorem Manifest.stage_eq_some {ma : Manifest} {name : String} {block : Value} :
    ma.stage name = some block ↔ (name, block) ∈ ma.blocks :=
  lookup_eq_some ma.nodup

/-! ### Fields -/

/-- What a field has to be. -/
inductive FieldType where
  | string
  | boolean
  | number
  | table
  | array
deriving DecidableEq, Repr

def FieldType.name : FieldType → String
  | .string => "string"
  | .boolean => "boolean"
  | .number => "number"
  | .table => "table"
  | .array => "array"

/-- Keys a stage block may carry. -/
def stageFields : List (String × FieldType) :=
  [("workflow", .string), ("entry", .boolean), ("outcomes", .array), ("generates", .table),
    ("generated-work", .table), ("park-expiry", .string)]

/-- Keys an outcome may carry. -/
def outcomeFields : List (String × FieldType) :=
  [("name", .string), ("to", .string), ("terminal", .boolean), ("resolver", .string),
    ("back-edge", .boolean), ("max-iterations", .number), ("on-exhausted", .string)]

/-- Keys a block that bounds generated work may carry. -/
def generatesFields : List (String × FieldType) := [("max", .number)]

def generatedWorkFields : List (String × FieldType) := [("max", .number)]

/-- Resolvers that act without human attention. -/
def automaticResolvers : List String := ["agent", "trigger", "resolver"]

/-- The resolver assumed when an outcome does not name one. -/
def defaultResolver : String := "agent"

def humanResolver : String := "human"

/-! ### Outcomes -/

def resolverOf (outcome : Value) : String :=
  (Value.text? (outcome.field "resolver")).getD defaultResolver

def isAutomatic (outcome : Value) : Bool := automaticResolvers.contains (resolverOf outcome)

def isBackEdge (outcome : Value) : Bool := Value.isTrue (outcome.field "back-edge")

def isTerminal (outcome : Value) : Bool := Value.isTrue (outcome.field "terminal")

/-- The name of an outcome that is a text. -/
def nameOf (outcome : Value) : Option String := Value.text? (outcome.field "name")

/-- The stage that an outcome names. -/
def targetOf (outcome : Value) : Option String := Value.text? (outcome.field "to")

/-! ### The escape -/

def parkOutcome : String := "__louiselm_park"

/-- The outcome that leaves a stage to a human. -/
def park : Value :=
  .table [(.str "name", .str parkOutcome), (.str "resolver", .str humanResolver),
    (.str "terminal", .bool true)]

/-- A block that claims a workflow. -/
def claims (workflow : String) (block : Value) : Bool :=
  Value.isTable (some block) && Value.text? (block.field "workflow") == some workflow

/-- A stage block with the Park outcome last. -/
def escapeBlock (workflow : String) (block : Value) : Value :=
  if claims workflow block then
    match block.field "outcomes" with
    | none => block.set "outcomes" (.array [park])
    | some (.table fields) =>
      block.set "outcomes" (.array ((Value.table fields).sequence ++ [park]))
    | some _ => block
  else block

/-- A manifest with an unremovable human Park outcome on every stage of a workflow. -/
def escape (workflow : String) (manifest : Manifest) : Manifest where
  blocks := manifest.blocks.map fun item => (item.1, escapeBlock workflow item.2)
  nodup := by
    rw [map_map]
    exact manifest.nodup

section

variable {w name : String} {m : Manifest} {block : Value}

theorem stage_escape : (escape w m).stage name = (m.stage name).map (escapeBlock w) := by
  unfold Manifest.stage escape
  dsimp only
  induction m.blocks with
  | nil => rfl
  | cons x b ih =>
    rw [map_cons, lookup_cons, lookup_cons]
    split
    · rfl
    · exact ih

/-- The outcomes of a stage are its own ones and the Park outcome, where they are a table. -/
theorem outcomes_escapeBlock (h : claims w block = true) : (escapeBlock w block).field "outcomes" =
      match block.field "outcomes" with
      | none => some (.array [park])
      | some (.table fields) => some (.array ((Value.table fields).sequence ++ [park]))
      | some other => some other := by
  unfold escapeBlock
  rw [if_pos h]
  cases block with
  | table fields =>
    split
    · exact Value.field_set_self fields _ _
    · exact Value.field_set_self fields _ _
    · next ho => exact ho
  | _ => simp [claims, Value.isTable] at h

end

end Louiselm.Workflow
