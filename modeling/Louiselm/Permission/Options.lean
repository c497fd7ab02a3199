import Mathlib.Data.List.Infix
import Louiselm.Permission.Store

/-!
# Options of a permission request

`lua/louiselm/permission/gates.lua`: what a chosen option asks to remember, and the option that
stands for a decision which needs no human.
-/

namespace Louiselm.Permission
open Base.Lua Value

/-- What a decision amounts to where it needs no human. -/
def Decision.verdict? : Decision → Option Verdict
  | .allow => some .allow
  | .deny => some .deny
  | .ask => none

namespace Gates

/-- An ACP result with an outcome. -/
def outcome (fields : List (Key × Value)) : Value := .table [(.str "outcome", .table fields)]

/-- The outcome of a cancelled request. -/
def cancelled : Value := outcome [(.str "outcome", .str "cancelled")]

/-- The outcome of a chosen option. -/
def selected (identifier : String) : Value :=
  outcome [(.str "outcome", .str "selected"), (.str "optionId", .str identifier)]

/-- The identifier of an option, if it has one, and the text that words are looked for in. -/
def optionIdentifier (tostring : Option Value → String) (option : Value) : Option String × String :=
  match option with
  | .str text => (some text, lower tostring (some option))
  | .table fields =>
    let identifier := either ((table fields).field "optionId") ((table fields).field "option_id")
    let label := either ((table fields).field "kind")
      (either ((table fields).field "name") identifier)
    (filled identifier, lower tostring label)
  | _ => (none, "")

/-- What the exact kind of an option decides, and for how long if not once. -/
def rememberedKind (option : Value) : Option (Verdict × Option Lifetime) :=
  match text? (option.field "kind") with
  | none => none
  | some kind => List.lookup kind [ ("allow_once", (.allow, none)), ("reject_once", (.deny, none)),
      ("deny_once", (.deny, none)), ("allow_session", (.allow, some .session)),
      ("reject_session", (.deny, some .session)), ("deny_session", (.deny, some .session)),
      ("allow_always", (.allow, some .always)), ("reject_always", (.deny, some .always)),
      ("deny_always", (.deny, some .always))]

/-- The options that a request offers. -/
def options (data : Value) : List Value := ((data.field "options").map sequence).getD []

/-- Classify a selected ACP option for remembered-permission handling. -/
def rememberedChoice (tostring : Option Value → String) (data : Value) (result : Option Value) :
    Option (Verdict × Option Lifetime) :=
  match (result.bind (·.field "outcome")).filter fun chosen =>
      text? (chosen.field "outcome") == some "selected" with
  | none => none
  | some chosen =>
    match text? (chosen.field "optionId") with
    | none => none
    | some identifier =>
      ((options data).find? fun option =>
        (optionIdentifier tostring option).1 == some identifier).bind rememberedKind

/-- Build an automatic response for a remembered decision using an exact once-only option. -/
def rememberedResponse (tostring : Option Value → String) (data : Value) (verdict : Verdict) :
    Option Value :=
  (options data).findSome? fun option =>
    match (optionIdentifier tostring option).1, rememberedKind option with
    | some identifier, some (decision, none) =>
      if decision = verdict then some (selected identifier) else none
    | _, _ => none

/-- The words of an option that stands for a decision. -/
def wanted (verdict : Verdict) : List String :=
  match verdict with
  | .allow => ["allow", "approve", "yes"]
  | .deny => ["deny", "reject", "no", "cancel"]

/-- Build the standard ACP result for an automatic permission decision. -/
def response (tostring : Option Value → String) (data : Value) (verdict : Verdict) :
    Option Value :=
  let matching := (options data).findSome? fun option =>
    let (identifier, label) := optionIdentifier tostring option
    identifier.filter fun _ => (wanted verdict).any fun word =>
      decide (word.toList <:+: label.toList)
  match matching with
  | some identifier => some (selected identifier)
  | none => if verdict = .deny then some cancelled else none

end Gates

end Louiselm.Permission
