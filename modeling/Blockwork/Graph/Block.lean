import Blockwork.Catalog.Slot
import Blockwork.Dict

-- A block of a program: its kind, the values of its fields and its links to
-- other blocks. Blocks, variables and procedures are known by ids that stay the
-- same while everything else about them changes.
namespace Blockwork

structure BlockId where
  text : String
  deriving DecidableEq, Inhabited

structure VariableId where
  text : String
  deriving DecidableEq

structure ProcedureId where
  text : String
  deriving DecidableEq

structure Position where
  x : Double
  y : Double
  deriving DecidableEq

inductive FieldValue where
  | text (value : String)
  | number (value : Double)
  | choice (option : String)
  | variableRef (id : VariableId)
  | procedureRef (id : ProcedureId)
  | empty
  deriving DecidableEq

inductive Place where
  | input (slot : String)
  | body (slot : String)
  | next
  deriving DecidableEq

def Place.slotName : Place → String
  | .input slot | .body slot => slot
  | .next => ""

structure ParentLink where
  parent : BlockId
  place : Place
  deriving DecidableEq

structure Block where
  id : BlockId
  kind : Kind
  position : Option Position
  extent : Extent
  fields : Dict FieldValue
  inputs : Dict (Option BlockId)
  bodies : Dict (Option BlockId)
  next : Option BlockId
  parent : Option ParentLink
  deriving DecidableEq

namespace FieldValue

def initial : FieldShape → FieldValue
  | .text default => .text default
  | .number default => .number default
  | .dropdown (first :: _) => .choice first
  | .dropdown [] => .empty
  | .variableRef | .procedureRef => .empty

def equals : FieldValue → FieldValue → Bool
  | .number a, .number b => a.equals b
  | a, b => decide (a = b)

end FieldValue

namespace Slot

def heldField? (old : Dict FieldValue) (slot : Slot) : Option (String × FieldValue) :=
  match slot.kind with
  | .field shape => some (slot.name, (old.get? slot.name).getD (.initial shape))
  | _ => none

def heldInput? (old : Dict (Option BlockId)) (slot : Slot) : Option (String × Option BlockId) :=
  match slot.kind with
  | .input _ => some (slot.name, (old.get? slot.name).join)
  | _ => none

def heldBody? (old : Dict (Option BlockId)) (slot : Slot) : Option (String × Option BlockId) :=
  match slot.kind with
  | .body => some (slot.name, (old.get? slot.name).join)
  | _ => none

end Slot

namespace Block

-- Gives the block the slots of an extent. Slots that stay keep what they hold.
def reshape (block : Block) (extent : Extent) : Block :=
  let slots := block.kind.slots extent
  { block with
    extent := extent
    fields := .ofList (slots.filterMap (Slot.heldField? block.fields))
    inputs := .ofList (slots.filterMap (Slot.heldInput? block.inputs))
    bodies := .ofList (slots.filterMap (Slot.heldBody? block.bodies)) }

def fresh (id : BlockId) (kind : Kind) (extent : Extent) : Block :=
  reshape
    { id := id, kind := kind, position := none, extent := extent, fields := .empty,
      inputs := .empty, bodies := .empty, next := none, parent := none }
    extent

-- Children whose slots an extent does not have: of inputs, then of bodies, by slot
-- name.
def displaced (block : Block) (extent : Extent) : List BlockId :=
  let shaped := block.reshape extent
  let inputs := block.inputs.restrict fun name => !shaped.inputs.contains name
  let bodies := block.bodies.restrict fun name => !shaped.bodies.contains name
  (inputs.values ++ bodies.values).filterMap fun child => child

def held (block : Block) : Place → Option BlockId
  | .input slot => (block.inputs.get? slot).join
  | .body slot => (block.bodies.get? slot).join
  | .next => block.next

-- Puts a child at a place, or clears it. A slot that the block does not have stays
-- absent.
def hold (block : Block) (place : Place) (child : Option BlockId) : Block :=
  match place with
  | .input slot => { block with inputs := block.inputs.modify slot fun _ => child }
  | .body slot => { block with bodies := block.bodies.modify slot fun _ => child }
  | .next => { block with next := child }

def places (block : Block) : List (Place × Option BlockId) :=
  block.inputs.entries.map (fun e => (.input e.1, e.2))
    ++ block.bodies.entries.map (fun e => (.body e.1, e.2)) ++ [(.next, block.next)]

def links (block : Block) : List (Place × BlockId) :=
  block.places.filterMap fun p => p.2.map fun child => (p.1, child)

def children (block : Block) : List BlockId := block.links.map (·.2)

def variableIn? (block : Block) (field : String) : Option VariableId :=
  match block.fields.get? field with
  | some (.variableRef id) => some id
  | _ => none

def procedureIn? (block : Block) (field : String) : Option ProcedureId :=
  match block.fields.get? field with
  | some (.procedureRef id) => some id
  | _ => none

def choiceIn? (block : Block) (field : String) : Option String :=
  match block.fields.get? field with
  | some (.choice option) => some option
  | _ => none

def equals (a b : Block) : Bool :=
  let samePosition := match a.position, b.position with
    | none, none => true
    | some p, some q => p.x.equals q.x && p.y.equals q.y
    | _, _ => false
  samePosition && a.fields.agrees FieldValue.equals b.fields
    && decide ({ a with position := none, fields := .empty }
      = { b with position := none, fields := .empty })

end Block
end Blockwork
