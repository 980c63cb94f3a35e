import Blockwork.Graph.Tables

-- The rules of a graph, checked one after another. Edits keep them all, so on a
-- graph made by edits the check succeeds.
namespace Blockwork.Graph

def breach (broken : Breach) : Except EditError Unit := .error (.broken broken)

def checkEach {α : Type} (items : List α) (check : α → Except EditError Unit) :
    Except EditError Unit :=
  match items with
  | [] => .ok ()
  | item :: rest => (check item).bind fun _ => checkEach rest check

-- Roots exist, have no parent and are listed once. `seen` are those before the list.
def validateRootsAfter (g : Graph) (seen : List BlockId) : List BlockId → Except EditError Unit
  | [] => .ok ()
  | root :: rest =>
    match g.block? root with
    | none => breach (.rootMissing root)
    | some block =>
      if block.parent.isSome then breach (.rootHasParent root)
      else if seen.contains root then breach (.rootListedTwice root)
      else g.validateRootsAfter (root :: seen) rest

def validateRoots (g : Graph) : Except EditError Unit := do
  g.validateRootsAfter [] g.roots
  checkEach g.blocks.values fun block =>
    if block.parent.isNone && !g.roots.contains block.id then breach (.rootUnlisted block.id)
    else .ok ()

def validateShape (block : Block) : Except EditError Unit := do
  let expected := block.kind.slots block.extent
  let declared := block.fields.size + block.inputs.size + block.bodies.size
  if declared ≠ expected.length then
    breach (.slotCount block.id declared expected.length)
  checkEach expected fun slot =>
    let present := match slot.kind with
      | .field _ => block.fields.contains slot.name
      | .input _ => block.inputs.contains slot.name
      | .body => block.bodies.contains slot.name
    if present then .ok () else breach (.slotMissing block.id slot.name)

def validateLink (g : Graph) (block : Block) (link : Place × BlockId) : Except EditError Unit :=
  let (place, childId) := link
  match g.block? childId with
  | none => breach (.childMissing block.id childId)
  | some child =>
    if child.parent ≠ some ⟨block.id, place⟩ then breach (.childElsewhere block.id childId)
    else
      let required : Connection := match place with
        | .input _ => .expression
        | _ => .statement
      let typed : Except EditError Unit := match place with
        | .input slot =>
          match block.kind.slot? block.extent slot, child.kind.output with
          | some (.input (some expected)), some found =>
            if expected ≠ found then .error (.wrongType block.id slot expected found) else .ok ()
          | _, _ => .ok ()
        | _ => .ok ()
      typed.bind fun _ =>
        if child.kind.connection ≠ required then
          .error (.wrongConnection child.id required child.kind.connection)
        else .ok ()

def validateLinks (g : Graph) (block : Block) : Except EditError Unit := do
  checkEach block.links (g.validateLink block)
  if block.next.isSome && block.kind.connection ≠ .statement then breach (.strayNext block.id)
  match block.parent with
  | none => pure ()
  | some link =>
    match g.block? link.parent with
    | none => breach (.parentMissing block.id link.parent)
    | some parent =>
      if parent.held link.place ≠ some block.id then breach (.notHeld block.id link.parent)

def validateFields (g : Graph) (block : Block) : Except EditError Unit :=
  checkEach block.fields.values fun value =>
    match value with
    | .variableRef id => if (g.variableWith? id).isNone then .error (.variableNotFound id) else .ok ()
    | .procedureRef id => if (g.procedureWith? id).isNone then .error (.procedureNotFound id) else .ok ()
    | _ => .ok ()

def validateCall (g : Graph) (block : Block) : Except EditError Unit :=
  match (block.procedureIn? "NAME").bind g.procedureWith? with
  | none => .ok ()
  | some procedure =>
    if procedure.params.length ≠ block.extent.items then
      breach (.argumentCount block.id block.extent.items procedure.name procedure.params.length)
    else if block.kind ≠ .call procedure.returns then breach (.callMismatch block.id procedure.name)
    else .ok ()

def validateDefinition (g : Graph) (block : Block) : Except EditError Unit :=
  match (block.procedureIn? "NAME").bind g.procedureWith? with
  | some procedure =>
    if procedure.definition ≠ block.id then breach (.definitionForeign block.id)
    else if block.parent.isSome then breach (.definitionNested block.id)
    else .ok ()
  | none => breach (.definitionForeign block.id)

def validateReferences (g : Graph) (block : Block) : Except EditError Unit := do
  g.validateFields block
  if block.kind.isCall then g.validateCall block
  if block.kind.isDefinition then g.validateDefinition block

def validateClimb (g : Graph) (start : BlockId) : Nat → BlockId → Except EditError Unit
  | steps, current =>
    match (g.block? current).bind (·.parent) with
    | none => .ok ()
    | some link =>
      match steps with
      | 0 => .error (.cycle link.parent start)
      | steps + 1 => g.validateClimb start steps link.parent

def validateAcyclic (g : Graph) : Except EditError Unit :=
  checkEach g.blocks.values fun block => g.validateClimb block.id g.size block.id

-- Ids differ, and names are not empty and differ. Both lists hold what came before.
def validateEntries (ids names : List String) : List (String × String) → Except EditError Unit
  | [] => .ok ()
  | (id, name) :: rest =>
    if ids.contains id then .error (.duplicateId id)
    else if (Text.trim name).isEmpty then .error .emptyName
    else if names.contains (foldName name) then .error (.nameTaken name)
    else validateEntries (id :: ids) (foldName name :: names) rest

def validateNames (g : Graph) : Except EditError Unit := do
  validateEntries [] [] (g.vars.map fun v => (v.id.text, v.name))
  validateEntries [] [] (g.procedures.map fun p => (p.id.text, p.name))

def validateProcedure (g : Graph) (procedure : Procedure) : Except EditError Unit :=
  match g.block? procedure.definition with
  | none => breach (.definitionMissing procedure.name)
  | some definition =>
    if definition.kind ≠ .definition procedure.returns
        ∨ definition.procedureIn? "NAME" ≠ some procedure.id then
      breach (.definitionMismatch procedure.name)
    else g.checkParamsAfter [] procedure.params

def validate (g : Graph) : Except EditError Unit := do
  g.validateRoots
  checkEach g.blocks.values fun block => do
    validateShape block
    g.validateLinks block
    g.validateReferences block
  g.validateAcyclic
  g.validateNames
  checkEach g.procedures g.validateProcedure

end Blockwork.Graph
