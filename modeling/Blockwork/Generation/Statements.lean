import Blockwork.Generation.Values
import Blockwork.Number.Decimal

-- Rules for the blocks that do something.
namespace Blockwork.Generation

open Python

def noTarget : String := "_"

def branchLines (below : Below) (inLoop : Bool) : Nat → Nat → Pass (List Line)
  | 0, _ => return []
  | count + 1, n => do
    let condition ← below.valueOr (Kind.conditionName n) falseExpr
    let body ← below.suite (Kind.branchName n) inLoop
    let rest ← branchLines below inLoop count (n + 1)
    let keyword := if n = 0 then "if " else "elif "
    return .flat (keyword ++ condition.render ++ ":") :: body ++ rest

def ifLines (block : Block) (below : Below) (inLoop : Bool) : Pass (List Line) := do
  let branches ← branchLines below inLoop (block.extent.items + 1) 0
  if block.extent.hasElse then
    let body ← below.suite "ELSE" inLoop
    return branches ++ .flat "else:" :: body
  else return branches

-- How often to repeat. A number is cut to its whole part here, if 64 bits hold it.
def repeatCount : Option Expr → Expr
  | none => zeroExpr
  | some e =>
    match (Double.read? e.render).bind Double.wholePart with
    | some whole =>
      if Int64.minValue.toInt ≤ whole ∧ whole ≤ Int64.maxValue.toInt then .ofInt whole
      else .apply "int" [e]
    | none => .apply "int" [e]

def repeatLines (below : Below) : Pass (List Line) := do
  let times ← below.value? "TIMES"
  let counter ← claimName "count"
  let body ← below.suite "DO" true
  let range := Expr.apply "range" [repeatCount times]
  return .flat ("for " ++ counter ++ " in " ++ range.render ++ ":") :: body

def whileLines (block : Block) (below : Below) : Pass (List Line) := do
  let value ← below.valueOr "BOOL" falseExpr
  let condition := if block.choiceIn? "MODE" = some "UNTIL" then .negation value else value
  let body ← below.suite "DO" true
  return .flat ("while " ++ condition.render ++ ":") :: body

-- Arguments of the range to count through. A step of one, and a start of zero before
-- it, go without saying.
def rangeArguments (start stop step : String) : List String :=
  if step = "1" then if start = "0" then [stop] else [start, stop] else [start, stop, step]

def countLines (block : Block) (below : Below) : Pass (List Line) := do
  let target := (← variableName? block "VAR").getD noTarget
  let start ← below.valueOr "FROM" zeroExpr
  let stop ← below.valueOr "TO" zeroExpr
  let step ← below.valueOr "BY" (.numeral "1")
  let arguments := rangeArguments start.render (stop.within .additive .loose) step.render
  let body ← below.suite "DO" true
  return .flat ("for " ++ target ++ " in range(" ++ String.intercalate ", " arguments ++ "):")
    :: body

def forEachLines (block : Block) (below : Below) : Pass (List Line) := do
  let target := (← variableName? block "VAR").getD noTarget
  let list ← below.valueOr "LIST" emptyListExpr
  let body ← below.suite "DO" true
  return .flat ("for " ++ target ++ " in " ++ list.within .relational .loose ++ ":") :: body

def flowLines (block : Block) (inLoop : Bool) : List Line :=
  if inLoop then
    [.flat (if block.choiceIn? "FLOW" = some "CONTINUE" then "continue" else "break")]
  else []

def changeSymbol : Option String → String
  | some "MINUS" => "-="
  | some "MULTIPLY" => "*="
  | some "DIVIDE" => "/="
  | _ => "+="

def changeLines (block : Block) (below : Below) : Pass (List Line) := do
  let target := (← variableName? block "VAR").getD noTarget
  let delta ← below.valueOr "DELTA" zeroExpr
  return [.flat (target ++ " " ++ changeSymbol (block.choiceIn? "OP") ++ " "
    ++ delta.within .additive .loose)]

def commentLines (text : String) : List Line :=
  if Text.allBlank text then [.flat "#"]
  else (Text.lines text).map fun line => .flat (Text.trimEnd ("# " ++ line))

def printLines (below : Below) : Pass (List Line) := do
  let value ← below.valueOr "TEXT" emptyTextExpr
  return [.flat (Expr.apply "print" [value]).render]

-- Positions count from the start of the list; any other way to count means the first
-- item.
def listSetLines (block : Block) (below : Below) : Pass (List Line) := do
  let list ← below.valueOr "LIST" (.name "list")
  let value ← below.valueOr "TO" noneExpr
  if block.choiceIn? "WHERE" ≠ some "FROM_START" then
    return [.flat ((Expr.item list zeroExpr).render ++ " = " ++ value.render)]
  else
    let position ← below.valueOr "AT" zeroExpr
    return match block.choiceIn? "MODE" with
      | some "INSERT" => [.flat (Expr.send list "insert" [position, value]).render]
      | _ => [.flat ((Expr.item list position).render ++ " = " ++ value.render)]

def assignLines (block : Block) (below : Below) : Pass (List Line) := do
  let target := (← variableName? block "VAR").getD noTarget
  let value ← below.valueOr "VALUE" noneExpr
  return [.flat (target ++ " = " ++ value.render)]

def callLines (block : Block) (below : Below) : Pass (List Line) := do
  return match ← callValue? block below with
    | some call => [.flat call.render]
    | none => []

def rule (block : Block) (below : Below) (inLoop : Bool) : Pass Code := do
  match block.kind with
  | .ifElse => return .statement (← ifLines block below inLoop)
  | .compare => return .expression (← compareValue block below)
  | .logical => return .expression (← logicalValue block below)
  | .negation => return .expression (.negation (← below.valueOr "BOOL" trueExpr))
  | .boolean =>
    return .expression (if block.choiceIn? "BOOL" = some "FALSE" then falseExpr else trueExpr)
  | .null => return .expression noneExpr
  | .ternary => return .expression (← ternaryValue below)
  | .repeatTimes => return .statement (← repeatLines below)
  | .whileUntil => return .statement (← whileLines block below)
  | .countWith => return .statement (← countLines block below)
  | .forEach => return .statement (← forEachLines block below)
  | .flow => return .statement (flowLines block inLoop)
  | .number => return .expression (numberValue block)
  | .arithmetic => return .expression (← arithmeticValue block below)
  | .changeBy => return .statement (← changeLines block below)
  | .unary => return .expression (← unaryValue block below)
  | .constant => return .expression (← constantValue block)
  | .modulo => return .expression (← moduloValue below)
  | .round => return .expression (← roundValue block below)
  | .randomInteger => return .expression (← randomIntegerValue below)
  | .randomFraction => return .expression (← randomFractionValue)
  | .aggregate => return .expression (← aggregateValue block below)
  | .comment => return .statement (commentLines (fieldText block))
  | .text => return .expression (.text (fieldText block))
  | .textJoin => return .expression (← joinValue block below)
  | .print => return .statement (← printLines below)
  | .textLength => return .expression (.apply "len" [← below.valueOr "VALUE" emptyTextExpr])
  | .listOf => return .expression (← listValue block below)
  | .listLength => return .expression (.apply "len" [← below.valueOr "VALUE" emptyListExpr])
  | .listIsEmpty =>
    return .expression (.negation (.apply "len" [← below.valueOr "VALUE" emptyListExpr]))
  | .listGet => return .expression (← listGetValue block below)
  | .listSet => return .statement (← listSetLines block below)
  | .variableGet => return .expression (.name ((← variableName? block "VAR").getD "None"))
  | .variableSet => return .statement (← assignLines block below)
  | .definition _ => return .nothing
  | .call true => return .expression ((← callValue? block below).getD noneExpr)
  | .call false => return .statement (← callLines block below)

end Blockwork.Generation
