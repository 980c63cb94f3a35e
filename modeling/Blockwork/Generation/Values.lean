import Blockwork.Generation.Pass

-- Rules for the blocks that yield a value.
namespace Blockwork.Generation

open Python

def noneExpr : Expr := .name "None"
def zeroExpr : Expr := .numeral "0"
def emptyTextExpr : Expr := .text ""
def emptyListExpr : Expr := .list []
def falseExpr : Expr := .name "False"
def trueExpr : Expr := .name "True"

def mathMember (member : String) : Expr := .attribute (.name "math") member

def compareOperator : Option String → Operator
  | some "NEQ" => .notEqual
  | some "LT" => .less
  | some "LTE" => .lessEqual
  | some "GT" => .greater
  | some "GTE" => .greaterEqual
  | _ => .equal

def compareValue (block : Block) (below : Below) : Pass Expr := do
  let a ← below.valueOr "A" zeroExpr
  let b ← below.valueOr "B" zeroExpr
  return .binary (compareOperator (block.choiceIn? "OP")) a b

-- A missing operand does not change the value of the other one.
def logicalValue (block : Block) (below : Below) : Pass Expr := do
  let isOr := block.choiceIn? "OP" == some "OR"
  let operator : Operator := if isOr then .either else .both
  let a ← below.value? "A"
  let b ← below.value? "B"
  let neutral := if isOr then falseExpr else if a.isNone && b.isNone then falseExpr else trueExpr
  return .binary operator (a.getD neutral) (b.getD neutral)

def ternaryValue (below : Below) : Pass Expr := do
  let condition ← below.valueOr "IF" falseExpr
  let value ← below.valueOr "THEN" noneExpr
  let otherwise ← below.valueOr "ELSE" noneExpr
  return .conditional value condition otherwise

def numberValue (block : Block) : Expr :=
  match block.fields.get? "NUM" with
  | some (.number value) => .ofDouble value
  | _ => zeroExpr

def arithmeticOperator : Option String → Operator
  | some "MINUS" => .subtract
  | some "MULTIPLY" => .multiply
  | some "DIVIDE" => .divide
  | some "POWER" => .power
  | _ => .add

def arithmeticValue (block : Block) (below : Below) : Pass Expr := do
  let a ← below.valueOr "A" zeroExpr
  let b ← below.valueOr "B" zeroExpr
  return .binary (arithmeticOperator (block.choiceIn? "OP")) a b

def unaryValue (block : Block) (below : Below) : Pass Expr := do
  let value ← below.valueOr "NUM" zeroExpr
  match block.choiceIn? "OP" with
  | some "NEG" => return .opposite value
  | some "ABS" => return .apply "abs" [value]
  | operation =>
    addImport "import math"
    return match operation with
      | some "LN" => .call (mathMember "log") [value]
      | some "LOG10" => .call (mathMember "log10") [value]
      | some "EXP" => .call (mathMember "exp") [value]
      | some "POW10" => .call (mathMember "pow") [.numeral "10", value]
      | _ => .call (mathMember "sqrt") [value]

def constantValue (block : Block) : Pass Expr := do
  match block.choiceIn? "CONSTANT" with
  | some "INFINITY" => return .apply "float" [.text "inf"]
  | constant =>
    addImport "import math"
    return match constant with
      | some "E" => mathMember "e"
      | some "GOLDEN_RATIO" =>
        .binary .divide (.binary .add (.numeral "1") (.call (mathMember "sqrt") [.numeral "5"]))
          (.numeral "2")
      | some "SQRT2" => .call (mathMember "sqrt") [.numeral "2"]
      | some "SQRT1_2" =>
        .call (mathMember "sqrt") [.binary .divide (.numeral "1.0") (.numeral "2")]
      | _ => mathMember "pi"

def moduloValue (below : Below) : Pass Expr := do
  let dividend ← below.valueOr "DIVIDEND" zeroExpr
  let divisor ← below.valueOr "DIVISOR" zeroExpr
  return .binary .modulo dividend divisor

def roundValue (block : Block) (below : Below) : Pass Expr := do
  let value ← below.valueOr "NUM" zeroExpr
  match block.choiceIn? "OP" with
  | some "ROUNDUP" =>
    addImport "import math"
    return .call (mathMember "ceil") [value]
  | some "ROUNDDOWN" =>
    addImport "import math"
    return .call (mathMember "floor") [value]
  | _ => return .apply "round" [value]

def randomIntegerValue (below : Below) : Pass Expr := do
  addImport "import random"
  let low ← below.valueOr "FROM" zeroExpr
  let high ← below.valueOr "TO" zeroExpr
  return .send (.name "random") "randint" [low, high]

def randomFractionValue : Pass Expr := do
  addImport "import random"
  return .send (.name "random") "random" []

def meanLines (name : String) : List Line :=
  [.flat ("def " ++ name ++ "(myList):"),
    ⟨1, "localList = [e for e in myList if isinstance(e, Number)]"⟩,
    ⟨1, "if not localList: return"⟩,
    ⟨1, "return float(sum(localList)) / len(localList)"⟩]

def aggregateValue (block : Block) (below : Below) : Pass Expr := do
  let list ← below.valueOr "LIST" emptyListExpr
  match block.choiceIn? "OP" with
  | some "MIN" => return .apply "min" [list]
  | some "MAX" => return .apply "max" [list]
  | some "AVERAGE" =>
    addImport "from numbers import Number"
    let mean ← helperFunction "math_mean" meanLines
    return .apply mean [list]
  | some "RANDOM" =>
    addImport "import random"
    return .send (.name "random") "choice" [list]
  | _ => return .apply "sum" [list]

def fieldText (block : Block) : String :=
  match block.fields.get? "TEXT" with
  | some (.text value) => value
  | _ => ""

def joinValue (block : Block) (below : Below) : Pass Expr := do
  let parts ← below.valuesOr ((List.range block.extent.items).map Kind.itemName) emptyTextExpr
  return match parts with
    | [] => emptyTextExpr
    | [a] => .apply "str" [a]
    | [a, b] => .binary .add (.apply "str" [a]) (.apply "str" [b])
    | _ => .send emptyTextExpr "join" [.apply "map" [.name "str", .list parts]]

def listValue (block : Block) (below : Below) : Pass Expr := do
  return .list (← below.valuesOr ((List.range block.extent.items).map Kind.itemName) noneExpr)

-- Positions count from the start of the list; any other way to count means the first
-- item.
def listGetValue (block : Block) (below : Below) : Pass Expr := do
  let list ← below.valueOr "VALUE" emptyListExpr
  if block.choiceIn? "WHERE" ≠ some "FROM_START" then return .item list zeroExpr
  else
    let position ← below.valueOr "AT" zeroExpr
    return match block.choiceIn? "MODE" with
      | some "GET_REMOVE" | some "REMOVE" => .send list "pop" [position]
      | _ => .item list position

def callValue? (block : Block) (below : Below) : Pass (Option Expr) := do
  match ← procedureName? block "NAME" with
  | none => return none
  | some name =>
    let args ← below.valuesOr ((List.range block.extent.items).map Kind.argumentName) noneExpr
    return some (.apply name args)

end Blockwork.Generation
