import Blockwork.Graph.Tree

-- Moving, adding and removing blocks. An edit is a program that looks things up,
-- checks and writes, one after another. What it has written by the time it fails
-- stays in the state, so that nothing but the order of its steps protects a graph
-- from being changed by halves.
namespace Blockwork

abbrev Change (ε σ α : Type) := ExceptT ε (StateM σ) α

namespace Change

-- The answer and the state after the last step that was made.
def runOn {ε σ α : Type} (change : Change ε σ α) (state : σ) : Except ε α × σ := change.run.run state

-- What a completed change leaves and answers. The state of one that failed is dropped.
def outcome {ε σ α : Type} (change : Change ε σ α) (state : σ) : Except ε (σ × α) :=
  match change.runOn state with
  | (.ok answer, state) => .ok (state, answer)
  | (.error error, _) => .error error

end Change

namespace Graph

def after (g : Graph) (change : Change EditError Graph Unit) : Except EditError Graph :=
  (change.outcome g).map (·.1)

def lineageTo (g : Graph) : Nat → BlockId → List BlockId
  | 0, id => [id]
  | depth + 1, id =>
    id :: match (g.block? id).bind (·.parent) with
      | some link => g.lineageTo depth link.parent
      | none => []

-- A block followed by the blocks above it, up to its root.
def lineage (g : Graph) (id : BlockId) : List BlockId := g.lineageTo g.size id

-- Takes a block away from whatever holds it: a place of its parent, or the list of roots.
def unlink (g : Graph) (id : BlockId) : Graph :=
  match (g.block? id).bind (·.parent) with
  | some link =>
    (g.update id fun block => { block with parent := none }).update link.parent
      fun parent => parent.hold link.place none
  | none => { g with roots := g.roots.filter (· != id) }

def demand (parent : Block) (place : Place) : Except EditError (Connection × Option ValueType) :=
  match place with
  | .input slot =>
    match parent.kind.slot? parent.extent slot with
    | some (.input check) =>
      if (parent.held place).isSome then .error (.slotOccupied parent.id slot)
      else .ok (.expression, check)
    | some _ => .error (.wrongSlotKind parent.id slot (SlotKind.input none).describe)
    | none => .error (.unknownSlot parent.id slot)
  | .body slot =>
    match parent.kind.slot? parent.extent slot with
    | some .body =>
      if (parent.held place).isSome then .error (.slotOccupied parent.id slot)
      else .ok (.statement, none)
    | some _ => .error (.wrongSlotKind parent.id slot SlotKind.body.describe)
    | none => .error (.unknownSlot parent.id slot)
  | .next =>
    if parent.kind.connection ≠ .statement then
      .error (.wrongConnection parent.id .statement parent.kind.connection)
    else if parent.next.isSome then .error (.nextOccupied parent.id)
    else .ok (.statement, none)

def checkAttach (g : Graph) (parent : BlockId) (place : Place) (child : BlockId) :
    Except EditError Unit := do
  let parentBlock ← g.block parent
  let childBlock ← g.block child
  let (required, check) ← demand parentBlock place
  if childBlock.kind.connection ≠ required then
    throw (.wrongConnection child required childBlock.kind.connection)
  match check, childBlock.kind.output with
  | some expected, some found =>
    if expected ≠ found then throw (.wrongType parent place.slotName expected found)
  | _, _ => pure ()
  if child ∈ g.lineage parent then throw (.cycle parent child)

-- Gives a block another extent. Children that lose their slot become roots.
def reshape (g : Graph) (id : BlockId) (extent : Extent) : Graph :=
  match g.block? id with
  | none => g
  | some block =>
    let displaced := block.displaced extent
    let g := displaced.foldl (fun g child => g.update child fun b => { b with parent := none })
      (g.update id fun block => block.reshape extent)
    { g with roots := g.roots ++ displaced }

def removeTree (g : Graph) (id : BlockId) : Graph :=
  match g.tree? id with
  | none => g
  | some tree =>
    let gone := tree.ids
    let g := g.unlink id
    { g with blocks := g.blocks.restrict fun key => !gone.contains ⟨key⟩ }

end Graph

namespace Change

def attach (parent : BlockId) (place : Place) (child : BlockId) : Change EditError Graph Unit := do
  (← get).checkAttach parent place child
  modify (·.unlink child)
  modify (·.update parent fun block => block.hold place (some child))
  modify (·.update child fun block => { block with parent := some ⟨parent, place⟩ })

def detach (id : BlockId) : Change EditError Graph Unit := do
  let block ← (← get).block id
  if block.parent.isNone then throw (.notAttached id)
  modify (·.unlink id)
  modify fun g => { g with roots := g.roots ++ [id] }

def reorderRoot (id : BlockId) (index : Nat) : Change EditError Graph Unit := do
  let _ ← (← get).block id
  if id ∉ (← get).roots then throw (.notRoot id)
  modify fun g => { g with roots := g.roots.erase id }
  modify fun g => { g with roots := g.roots.take index ++ id :: g.roots.drop index }

-- Definitions come with their procedures only.
def addBlock (id : BlockId) (kind : Kind) : Change EditError Graph Unit := do
  if kind.isDefinition then throw .definitionWithoutProcedure
  if (← get).hasBlock id then throw (.duplicateId id.text)
  modify (·.addRoot (.fresh id kind kind.defaultExtent))

def setPosition (id : BlockId) (position : Position) : Change EditError Graph Unit := do
  let _ ← (← get).block id
  modify (·.update id fun block => { block with position := some position })

def setItemCount (id : BlockId) (items : Nat) : Change EditError Graph Unit := do
  let block ← (← get).block id
  match block.kind.variadic with
  | some .items | some .branches => pure ()
  | _ => throw (.notVariadic id)
  if items > maxItems then throw (.tooManyItems id items)
  modify (·.reshape id { block.extent with items := items })

def setHasElse (id : BlockId) (hasElse : Bool) : Change EditError Graph Unit := do
  let block ← (← get).block id
  if block.kind.variadic ≠ some .branches then throw (.notVariadic id)
  modify (·.reshape id { block.extent with hasElse := hasElse })

end Change
end Blockwork
