import Blockwork.Catalog.Kind
import Blockwork.Number.Double

-- The slots of each kind of block. A slot is a field with a value, a place for
-- one expression, or a place for a chain of statements.
namespace Blockwork

inductive FieldShape where
  | text (default : String)
  | number (default : Double)
  | dropdown (options : List String)
  | variableRef
  | procedureRef
  deriving DecidableEq

inductive SlotKind where
  | field (shape : FieldShape)
  | input (check : Option ValueType)
  | body
  deriving DecidableEq

def SlotKind.describe : SlotKind → String
  | .field _ => "field"
  | .input _ => "value input"
  | .body => "statement body"

structure Slot where
  name : String
  kind : SlotKind
  deriving DecidableEq

namespace Slot

def dropdown (name : String) (options : List String) : Slot := ⟨name, .field (.dropdown options)⟩
def variableRef (name : String) : Slot := ⟨name, .field .variableRef⟩
def procedureRef (name : String) : Slot := ⟨name, .field .procedureRef⟩
def anyInput (name : String) : Slot := ⟨name, .input none⟩
def input (name : String) (check : ValueType) : Slot := ⟨name, .input (some check)⟩
def body (name : String) : Slot := ⟨name, .body⟩

end Slot

namespace Kind

def whereOptions : List String := ["FROM_START", "FROM_END", "FIRST", "LAST", "RANDOM"]

def fixedSlots : Kind → List Slot
  | .ifElse | .null | .randomFraction | .textJoin | .listOf => []
  | .compare =>
    [.dropdown "OP" ["EQ", "NEQ", "LT", "LTE", "GT", "GTE"], .anyInput "A", .anyInput "B"]
  | .logical => [.dropdown "OP" ["AND", "OR"], .input "A" .boolean, .input "B" .boolean]
  | .negation => [.input "BOOL" .boolean]
  | .boolean => [.dropdown "BOOL" ["TRUE", "FALSE"]]
  | .ternary => [.input "IF" .boolean, .anyInput "THEN", .anyInput "ELSE"]
  | .repeatTimes => [.input "TIMES" .number, .body "DO"]
  | .whileUntil => [.dropdown "MODE" ["WHILE", "UNTIL"], .input "BOOL" .boolean, .body "DO"]
  | .countWith =>
    [.variableRef "VAR", .input "FROM" .number, .input "TO" .number, .input "BY" .number, .body "DO"]
  | .forEach => [.variableRef "VAR", .input "LIST" .array, .body "DO"]
  | .flow => [.dropdown "FLOW" ["BREAK", "CONTINUE"]]
  | .number => [⟨"NUM", .field (.number .zero)⟩]
  | .arithmetic =>
    [.dropdown "OP" ["ADD", "MINUS", "MULTIPLY", "DIVIDE", "POWER"], .input "A" .number,
      .input "B" .number]
  | .changeBy =>
    [.variableRef "VAR", .dropdown "OP" ["ADD", "MINUS", "MULTIPLY", "DIVIDE"],
      .input "DELTA" .number]
  | .unary =>
    [.dropdown "OP" ["ROOT", "ABS", "NEG", "LN", "LOG10", "EXP", "POW10"], .input "NUM" .number]
  | .constant =>
    [.dropdown "CONSTANT" ["PI", "E", "GOLDEN_RATIO", "SQRT2", "SQRT1_2", "INFINITY"]]
  | .modulo => [.input "DIVIDEND" .number, .input "DIVISOR" .number]
  | .round => [.dropdown "OP" ["ROUND", "ROUNDUP", "ROUNDDOWN"], .input "NUM" .number]
  | .randomInteger => [.input "FROM" .number, .input "TO" .number]
  | .aggregate => [.dropdown "OP" ["SUM", "MIN", "MAX", "AVERAGE", "RANDOM"], .input "LIST" .array]
  | .comment => [⟨"TEXT", .field (.text "write note here")⟩]
  | .text => [⟨"TEXT", .field (.text "")⟩]
  | .print => [.anyInput "TEXT"]
  | .textLength | .listLength | .listIsEmpty => [.anyInput "VALUE"]
  | .listGet =>
    [.dropdown "MODE" ["GET", "GET_REMOVE", "REMOVE"], .dropdown "WHERE" whereOptions,
      .input "VALUE" .array, .input "AT" .number]
  | .listSet =>
    [.dropdown "MODE" ["SET", "INSERT"], .dropdown "WHERE" whereOptions, .input "LIST" .array,
      .input "AT" .number, .anyInput "TO"]
  | .variableGet => [.variableRef "VAR"]
  | .variableSet => [.variableRef "VAR", .anyInput "VALUE"]
  | .definition false => [.procedureRef "NAME", .body "STACK"]
  | .definition true => [.procedureRef "NAME", .body "STACK", .anyInput "RETURN"]
  | .call _ => [.procedureRef "NAME"]

def itemName (n : Nat) : String := "ADD" ++ toString n
def argumentName (n : Nat) : String := "ARG" ++ toString n
def conditionName (n : Nat) : String := "IF" ++ toString n
def branchName (n : Nat) : String := "DO" ++ toString n

-- Slots that come with the extent. A conditional always has its branch 0.
def grownSlots (kind : Kind) (extent : Extent) : List Slot :=
  match kind.variadic with
  | none => []
  | some .items => (List.range extent.items).map fun n => .anyInput (itemName n)
  | some .arguments => (List.range extent.items).map fun n => .anyInput (argumentName n)
  | some .branches =>
    ((List.range (extent.items + 1)).flatMap fun n =>
      [.input (conditionName n) .boolean, .body (branchName n)])
      ++ (if extent.hasElse then [.body "ELSE"] else [])

def slots (kind : Kind) (extent : Extent) : List Slot := kind.fixedSlots ++ kind.grownSlots extent

def slot? (kind : Kind) (extent : Extent) (name : String) : Option SlotKind :=
  ((kind.slots extent).find? (·.name == name)).map (·.kind)

end Kind
end Blockwork
