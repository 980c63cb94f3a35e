import Blockwork.Graph.Block
import Blockwork.Number.Decimal
import Blockwork.Text.Printable

-- Why an edit is refused, and the texts that say so.
namespace Blockwork

inductive FieldFault where
  | notAnOption (option : String) (options : List String)
  | definitionBound
  | returnMismatch
  | wrongShape (value : FieldValue) (shape : FieldShape)
  deriving DecidableEq

-- A broken rule of a graph. No edit breaks one.
inductive Breach where
  | rootMissing (root : BlockId)
  | rootHasParent (root : BlockId)
  | rootListedTwice (root : BlockId)
  | rootUnlisted (block : BlockId)
  | slotCount (block : BlockId) (declared expected : Nat)
  | slotMissing (block : BlockId) (slot : String)
  | childMissing (block child : BlockId)
  | childElsewhere (block child : BlockId)
  | strayNext (block : BlockId)
  | parentMissing (block parent : BlockId)
  | notHeld (block parent : BlockId)
  | argumentCount (call : BlockId) (passed : Nat) (name : String) (taken : Nat)
  | callMismatch (call : BlockId) (name : String)
  | definitionUnbound (block : BlockId)
  | definitionForeign (block : BlockId)
  | definitionNested (block : BlockId)
  | definitionMissing (name : String)
  | definitionMismatch (name : String)
  deriving DecidableEq

inductive EditError where
  | blockNotFound (id : BlockId)
  | variableNotFound (id : VariableId)
  | procedureNotFound (id : ProcedureId)
  | duplicateId (id : String)
  | unknownSlot (block : BlockId) (slot : String)
  | wrongSlotKind (block : BlockId) (slot : String) (expected : String)
  | slotOccupied (block : BlockId) (slot : String)
  | nextOccupied (block : BlockId)
  | cycle (parent child : BlockId)
  | wrongConnection (block : BlockId) (expected found : Connection)
  | wrongType (block : BlockId) (slot : String) (expected found : ValueType)
  | invalidValue (block : BlockId) (slot : String) (fault : FieldFault)
  | notAttached (block : BlockId)
  | notRoot (block : BlockId)
  | notVariadic (block : BlockId)
  | tooManyItems (block : BlockId) (items : Nat)
  | tooManyParameters (count : Nat)
  | definitionWithoutProcedure
  | repeatedParameter (id : VariableId)
  | emptyName
  | nameTaken (name : String)
  | variableInUse (id : VariableId)
  | procedureInUse (id : ProcedureId)
  | broken (breach : Breach)
  deriving DecidableEq

def bracketed (items : List String) : String := "[" ++ String.intercalate ", " items ++ "]"

def Connection.name : Connection → String
  | .statement => "Statement"
  | .expression => "Expression"
  | .topLevel => "TopLevel"

def ValueType.name : ValueType → String
  | .number => "Number"
  | .string => "String"
  | .boolean => "Boolean"
  | .array => "Array"

def BlockId.shown (id : BlockId) : String := "BlockId(" ++ Text.escaped id.text ++ ")"

def VariableId.shown (id : VariableId) : String := "VariableId(" ++ Text.escaped id.text ++ ")"

def ProcedureId.shown (id : ProcedureId) : String := "ProcedureId(" ++ Text.escaped id.text ++ ")"

def FieldValue.shown : FieldValue → String
  | .text value => "Text(" ++ Text.escaped value ++ ")"
  | .number value => "Number(" ++ Layout.shown.text value ++ ")"
  | .choice option => "Choice(" ++ Text.escaped option ++ ")"
  | .variableRef id => "Variable(" ++ id.shown ++ ")"
  | .procedureRef id => "Procedure(" ++ id.shown ++ ")"
  | .empty => "Empty"

def shownOptions (options : List String) : String := bracketed (options.map Text.escaped)

def FieldShape.shown : FieldShape → String
  | .text default => "Text(" ++ Text.escaped default ++ ")"
  | .number default => "Number(" ++ Layout.shown.text default ++ ")"
  | .dropdown options => "Dropdown(" ++ shownOptions options ++ ")"
  | .variableRef => "Variable"
  | .procedureRef => "Procedure"

def FieldFault.message : FieldFault → String
  | .notAnOption option options => s!"'{option}' is not one of {shownOptions options}"
  | .definitionBound => "a definition stays bound to its procedure"
  | .returnMismatch => "call kind does not match whether the procedure returns"
  | .wrongShape value shape => s!"{value.shown} does not fit a {shape.shown} field"

def Breach.message : Breach → String
  | .rootMissing root => s!"root {root.text} does not exist"
  | .rootHasParent root => s!"root {root.text} has a parent"
  | .rootListedTwice root => s!"root {root.text} listed twice"
  | .rootUnlisted block => s!"unattached block {block.text} is not a root"
  | .slotCount block declared expected => s!"{block.text} has {declared} slots, expected {expected}"
  | .slotMissing block slot => s!"{block.text} is missing slot {slot}"
  | .childMissing block child => s!"{block.text} links to missing block {child.text}"
  | .childElsewhere block child => s!"{child.text} does not point back to {block.text}"
  | .strayNext block => s!"{block.text} cannot have a next block"
  | .parentMissing block parent => s!"{block.text} has missing parent {parent.text}"
  | .notHeld block parent => s!"{block.text} is not held by its parent {parent.text}"
  | .argumentCount call passed name taken =>
    s!"call {call.text} passes {passed} arguments to {name} which takes {taken}"
  | .callMismatch call name => s!"call {call.text} does not match {name}"
  | .definitionUnbound block => s!"definition {block.text} is unbound"
  | .definitionForeign block => s!"definition {block.text} is not bound to its procedure"
  | .definitionNested block => s!"definition {block.text} is nested"
  | .definitionMissing name => s!"procedure {name} has no definition"
  | .definitionMismatch name => s!"definition of {name} does not match it"

def EditError.message : EditError → String
  | .blockNotFound id => s!"Block not found: {id.text}"
  | .variableNotFound id => s!"Variable not found: {id.text}"
  | .procedureNotFound id => s!"Procedure not found: {id.text}"
  | .duplicateId id => s!"Id already in use: {id}"
  | .unknownSlot block slot => s!"Block {block.text} has no slot named '{slot}'"
  | .wrongSlotKind block slot expected => s!"Slot '{slot}' on block {block.text} is not a {expected}"
  | .slotOccupied block slot => s!"Target slot '{slot}' on block {block.text} is already occupied"
  | .nextOccupied block => s!"Block {block.text} already has a next block"
  | .cycle parent child => s!"Attaching {child.text} below {parent.text} would create a cycle"
  | .wrongConnection block expected found =>
    s!"Block {block.text} is a {found.name} block, expected {expected.name}"
  | .wrongType block slot expected found =>
    s!"Slot type mismatch on {block.text}.{slot}: expected {expected.name}, got {found.name}"
  | .invalidValue block slot fault => s!"Invalid value for {block.text}.{slot}: {fault.message}"
  | .notAttached block => s!"Block {block.text} is not attached to a parent"
  | .notRoot block => s!"Block {block.text} is not a top-level root"
  | .notVariadic block => s!"Block {block.text} does not have a variable shape"
  | .tooManyItems block items =>
    s!"Block {block.text} cannot grow {items} slots (limit {maxItems})"
  | .tooManyParameters count => s!"{count} parameters exceed the limit of {maxItems}"
  | .definitionWithoutProcedure => "Procedure definitions must be created through add_procedure"
  | .repeatedParameter id => s!"Variable {id.text} appears twice in a parameter list"
  | .emptyName => "Name must not be empty"
  | .nameTaken name => s!"Name already taken: {name}"
  | .variableInUse id => s!"Variable {id.text} is still referenced"
  | .procedureInUse id => s!"Procedure {id.text} is still called"
  | .broken breach => s!"Graph invariant violated: {breach.message}"

end Blockwork
