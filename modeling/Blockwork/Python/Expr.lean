import Blockwork.Number.Decimal

-- How tightly expressions of the target language bind, and when one needs
-- parentheses inside another.
namespace Blockwork.Python

inductive Order where
  | atomic
  | member
  | functionCall
  | exponentiation
  | unarySign
  | multiplicative
  | additive
  | relational
  | logicalNot
  | logicalAnd
  | logicalOr
  | conditional
  | loosest
  deriving DecidableEq

def Order.rank : Order → Nat
  | .atomic => 0
  | .member | .functionCall => 1
  | .exponentiation => 2
  | .unarySign => 3
  | .multiplicative => 4
  | .additive => 5
  | .relational => 6
  | .logicalNot => 7
  | .logicalAnd => 8
  | .logicalOr => 9
  | .conditional => 10
  | .loosest => 11

inductive Binding where
  | loose
  | strict
  deriving DecidableEq

def needsParens (child context : Order) : Binding → Bool
  | .loose => decide (context.rank < child.rank)
  | .strict => decide (context.rank ≤ child.rank) && decide (context ≠ .loosest)

-- Expressions of the target language and their text. Parentheses are not part
-- of an expression: they are added where the text would otherwise be read as
-- another expression.
inductive Operator where
  | add | subtract | multiply | divide | modulo | power
  | equal | notEqual | less | lessEqual | greater | greaterEqual
  | both | either
  deriving DecidableEq

namespace Operator

def symbol : Operator → String
  | .add => "+"
  | .subtract => "-"
  | .multiply => "*"
  | .divide => "/"
  | .modulo => "%"
  | .power => "**"
  | .equal => "=="
  | .notEqual => "!="
  | .less => "<"
  | .lessEqual => "<="
  | .greater => ">"
  | .greaterEqual => ">="
  | .both => "and"
  | .either => "or"

def order : Operator → Order
  | .add | .subtract => .additive
  | .multiply | .divide | .modulo => .multiplicative
  | .power => .exponentiation
  | .both => .logicalAnd
  | .either => .logicalOr
  | _ => .relational

-- Binding of the left operand. Powers group to the right, and comparisons would chain.
def left : Operator → Binding
  | .power | .equal | .notEqual | .less | .lessEqual | .greater | .greaterEqual => .strict
  | _ => .loose

-- Binding of the right operand. Sums and logical operators may be regrouped.
def right : Operator → Binding
  | .add | .power | .both | .either => .loose
  | _ => .strict

end Operator

inductive Expr where
  | name (id : String)
  | numeral (digits : String)
  | text (value : String)
  | list (items : List Expr)
  | call (function : Expr) (args : List Expr)
  | attribute (object : Expr) (member : String)
  | item (object position : Expr)
  | opposite (operand : Expr)
  | negation (operand : Expr)
  | binary (operator : Operator) (left right : Expr)
  | conditional (value condition otherwise : Expr)

def literalChar (escapeSingle : Bool) (c : Char) : String :=
  if c = '\\' then "\\\\"
  else if c = '\n' then "\\n"
  else if c = '\r' then "\\r"
  else if c = '\x27' ∧ escapeSingle then "\\'"
  else c.toString

def quote (s : String) : String :=
  let cs := s.toList
  if cs.contains '\x27' then
    if cs.contains '"' then "'" ++ String.join (cs.map (literalChar true)) ++ "'"
    else "\"" ++ String.join (cs.map (literalChar false)) ++ "\""
  else "'" ++ String.join (cs.map (literalChar false)) ++ "'"

namespace Expr

def order : Expr → Order
  | .name _ | .numeral _ | .text _ | .list _ => .atomic
  | .call .. => .functionCall
  | .attribute .. | .item .. => .member
  | .opposite _ => .unarySign
  | .negation _ => .logicalNot
  | .binary operator _ _ => operator.order
  | .conditional .. => .conditional

def enclose (text : String) (child context : Order) (binding : Binding) : String :=
  if needsParens child context binding then "(" ++ text ++ ")" else text

-- A minus before a text. Two of them are kept apart.
def minus (text : String) : String :=
  if text.toList.head? = some '-' then "- " ++ text else "-" ++ text

mutual

def render : Expr → String
  | .name id => id
  | .numeral digits => digits
  | .text value => quote value
  | .list items => "[" ++ String.intercalate ", " (renderAll items) ++ "]"
  | .call function args =>
    enclose function.render function.order .member .loose
      ++ "(" ++ String.intercalate ", " (renderAll args) ++ ")"
  | .attribute object member => enclose object.render object.order .member .loose ++ "." ++ member
  | .item object position =>
    enclose object.render object.order .member .loose ++ "[" ++ position.render ++ "]"
  | .opposite operand => minus (enclose operand.render operand.order .unarySign .loose)
  | .negation operand => "not " ++ enclose operand.render operand.order .logicalNot .loose
  | .binary operator left right =>
    enclose left.render left.order operator.order operator.left ++ " " ++ operator.symbol ++ " "
      ++ enclose right.render right.order operator.order operator.right
  | .conditional value condition otherwise =>
    enclose value.render value.order .conditional .strict ++ " if "
      ++ enclose condition.render condition.order .conditional .strict ++ " else "
      ++ enclose otherwise.render otherwise.order .conditional .loose

def renderAll : List Expr → List String
  | [] => []
  | e :: rest => render e :: renderAll rest

end

def within (e : Expr) (context : Order) (binding : Binding) : String :=
  enclose e.render e.order context binding

def apply (function : String) (args : List Expr) : Expr := .call (.name function) args

def send (object : Expr) (member : String) (args : List Expr) : Expr :=
  .call (.attribute object member) args

-- The number as an expression. A negative number is a minus before its magnitude, and
-- there is only one zero.
def ofDouble : Double → Expr
  | .nan => apply "float" [.text "nan"]
  | .infinite false => apply "float" [.text "inf"]
  | .infinite true => .opposite (apply "float" [.text "inf"])
  | .finite negative rank =>
    let magnitude := .numeral (Layout.plain.magnitudeText rank.val)
    if negative ∧ rank.val ≠ 0 then .opposite magnitude else magnitude

def ofInt (value : Int) : Expr :=
  if value < 0 then .opposite (.numeral (toString value.natAbs)) else .numeral (toString value.natAbs)

end Expr
end Blockwork.Python
