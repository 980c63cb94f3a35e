-- The kinds of blocks a program is made of: their tags, how they connect and
-- what they yield. Plain data; the slots of a kind are in the next module.
namespace Blockwork

inductive Connection where
  | statement
  | expression
  | topLevel
  deriving DecidableEq

inductive ValueType where
  | number
  | string
  | boolean
  | array
  deriving DecidableEq

inductive Variadic where
  | items
  | arguments
  | branches
  deriving DecidableEq

-- How far a block has grown: items, arguments or further branches, and whether a
-- conditional has a last alternative.
structure Extent where
  items : Nat := 0
  hasElse : Bool := false
  deriving DecidableEq

-- No block grows more slots, and no procedure has more parameters.
def maxItems : Nat := 1024

inductive Kind where
  -- logic
  | ifElse
  | compare
  | logical
  | negation
  | boolean
  | null
  | ternary
  -- loops
  | repeatTimes
  | whileUntil
  | countWith
  | forEach
  | flow
  -- numbers
  | number
  | arithmetic
  | changeBy
  | unary
  | constant
  | modulo
  | round
  | randomInteger
  | randomFraction
  | aggregate
  -- text
  | comment
  | text
  | textJoin
  | print
  | textLength
  -- lists
  | listOf
  | listLength
  | listIsEmpty
  | listGet
  | listSet
  -- variables and procedures
  | variableGet
  | variableSet
  | definition (returns : Bool)
  | call (returns : Bool)
  deriving DecidableEq

namespace Kind

def all : List Kind :=
  [.ifElse, .compare, .logical, .negation, .boolean, .null, .ternary,
    .repeatTimes, .whileUntil, .countWith, .forEach, .flow,
    .number, .arithmetic, .changeBy, .unary, .constant, .modulo, .round, .randomInteger,
    .randomFraction, .aggregate,
    .comment, .text, .textJoin, .print, .textLength,
    .listOf, .listLength, .listIsEmpty, .listGet, .listSet,
    .variableGet, .variableSet, .definition false, .definition true, .call false, .call true]

def tag : Kind → String
  | .ifElse => "controls_if"
  | .compare => "logic_compare"
  | .logical => "logic_operation"
  | .negation => "logic_negate"
  | .boolean => "logic_boolean"
  | .null => "logic_null"
  | .ternary => "logic_ternary"
  | .repeatTimes => "controls_repeat_ext"
  | .whileUntil => "controls_whileUntil"
  | .countWith => "controls_for"
  | .forEach => "controls_forEach"
  | .flow => "controls_flow_statements"
  | .number => "math_number"
  | .arithmetic => "math_arithmetic"
  | .changeBy => "math_assignment"
  | .unary => "math_single"
  | .constant => "math_constant"
  | .modulo => "math_modulo"
  | .round => "math_round"
  | .randomInteger => "math_random_int"
  | .randomFraction => "math_random_float"
  | .aggregate => "math_on_list"
  | .comment => "comment_block"
  | .text => "text"
  | .textJoin => "text_join"
  | .print => "text_print"
  | .textLength => "text_length"
  | .listOf => "lists_create_with"
  | .listLength => "lists_length"
  | .listIsEmpty => "lists_isEmpty"
  | .listGet => "lists_getIndex"
  | .listSet => "lists_setIndex"
  | .variableGet => "variables_get"
  | .variableSet => "variables_set"
  | .definition false => "procedures_defnoreturn"
  | .definition true => "procedures_defreturn"
  | .call false => "procedures_callnoreturn"
  | .call true => "procedures_callreturn"

def ofTag? (tag : String) : Option Kind := all.find? (·.tag == tag)

def connection : Kind → Connection
  | .definition _ => .topLevel
  | .ifElse | .repeatTimes | .whileUntil | .countWith | .forEach | .flow | .changeBy | .comment
  | .print | .listSet | .variableSet | .call false => .statement
  | _ => .expression

def output : Kind → Option ValueType
  | .compare | .logical | .negation | .boolean | .listIsEmpty => some .boolean
  | .number | .arithmetic | .unary | .constant | .modulo | .round | .randomInteger
  | .randomFraction | .aggregate | .textLength | .listLength => some .number
  | .text | .textJoin => some .string
  | .listOf => some .array
  | _ => none

def isDefinition : Kind → Bool
  | .definition _ => true
  | _ => false

def isCall : Kind → Bool
  | .call _ => true
  | _ => false

def variadic : Kind → Option Variadic
  | .ifElse => some .branches
  | .textJoin | .listOf => some .items
  | .call _ => some .arguments
  | _ => none

def defaultExtent : Kind → Extent
  | .listOf => { items := 3 }
  | .textJoin => { items := 2 }
  | _ => {}

end Kind
end Blockwork
