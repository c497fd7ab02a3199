import Mathlib.Data.Finset.Interval
import Mathlib.Order.Interval.Finset.Nat
import Louiselm.Base.Subsequence

/-!
# Rendered diffs

`skills-core/src/diff.rs`: the lines that a reviewer is shown of a changed file. A table of
longest common subsequences is built from the ends of both files, and a walk from their starts
reads an edit script off it; of the script only what is near to a change is displayed.
-/

namespace Louiselm.Review
open Base

/-- Lines of unchanged context kept around each change. -/
def CONTEXT_LINES : Nat := 3

/-- Whether a diff line is context or a change. -/
inductive LineKind where
  | context
  | added
  | removed
deriving DecidableEq, Repr

/-- An entry of an edit script: its line of the old file and its line of the new one. -/
structure Step where
  kind : LineKind
  left : Option Nat
  right : Option Nat
deriving DecidableEq, Repr

/-- One line of a rendered diff, with one-based numbers. -/
structure DiffLine where
  kind : LineKind
  baseLine : Option Nat
  targetLine : Option Nat
  text : String
deriving DecidableEq, Repr

/-! ### The table -/

section

variable {α : Type} [DecidableEq α]

/-- A row of the table over the row below it, from the right. -/
def lcsRow (line : α) : List α → List Nat → List Nat
  | [], _ => [0]
  | other :: new, below =>
    let row := lcsRow line new below.tail
    (if line = other then below.tail.headD 0 + 1 else max (below.headD 0) (row.headD 0)) :: row

/-- The lengths of longest common subsequences of what is left of both files, from below. -/
def longestCommonSubsequence (old new : List α) : List (List Nat) :=
  match old with
  | [] => [List.replicate (new.length + 1) 0]
  | line :: old =>
    let table := longestCommonSubsequence old new
    lcsRow line new (table.headD []) :: table

/-- The value in a row and a column. -/
def cell (table : List (List Nat)) (left right : Nat) : Nat :=
  ((table[left]?.getD [])[right]?).getD 0

/-! ### The script -/

/-- The lines of the old file from one on are removed, and those of the new one added. -/
def remaining (old new : List α) (left right : Nat) : List Step :=
  (List.range' left (old.length - left)).map (fun index => ⟨.removed, some index, none⟩) ++
    (List.range' right (new.length - right)).map (fun index => ⟨.added, none, some index⟩)

/-- Walk through both files along the table. -/
def walk (table : List (List Nat)) (old new : List α) (left right : Nat) : List Step :=
  if h : left < old.length ∧ right < new.length then
    if old[left] = new[right] then
      ⟨.context, some left, some right⟩ :: walk table old new (left + 1) (right + 1)
    else if cell table (left + 1) right ≥ cell table left (right + 1) then
      ⟨.removed, some left, none⟩ :: walk table old new (left + 1) right
    else
      ⟨.added, none, some right⟩ :: walk table old new left (right + 1)
  else remaining old new left right
termination_by old.length - left + (new.length - right)

/-- The edit script of two files. -/
def script (old new : List α) : List Step :=
  walk (longestCommonSubsequence old new) old new 0 0

end

/-! ### The lines -/

/-- The positions of a script that are near to a change. -/
def contextWindow (steps : List Step) : Finset Nat :=
  steps.zipIdx.foldl (fun keep item =>
    if item.1.kind = .context then keep
    else keep ∪ Finset.Icc (item.2 - CONTEXT_LINES)
      (min (item.2 + CONTEXT_LINES) (steps.length - 1))) ∅

/-- Escape one character. -/
def escapeChar (character : Char) : List Char :=
  if character = '\\' then ['\\', '\\']
  else if ' ' ≤ character ∧ character ≤ '~' then [character]
  else ['\\', 'u', '{'] ++ Nat.toDigits 16 character.toNat ++ ['}']

/-- Escape a text for a reviewer. -/
def escape (text : String) : String := String.ofList (text.toList.flatMap escapeChar)

/-- The displayed line of an entry. -/
def diffLine (old new : List String) (step : Step) : DiffLine :=
  { kind := step.kind
    baseLine := step.left.map (· + 1)
    targetLine := step.right.map (· + 1)
    text := escape (match step.kind with
      | .added => (step.right.bind (new[·]?)).getD ""
      | _ => (step.left.bind (old[·]?)).getD "") }

/-- The displayed lines of two files. -/
def render (old new : List String) : List DiffLine :=
  let steps := script old new
  let keep := contextWindow steps
  (steps.zipIdx.filter fun item => decide (item.2 ∈ keep)).map fun item =>
    diffLine old new item.1

end Louiselm.Review
