import Blockwork.Graph.Links

-- Variables, procedures and the fields that refer to them.
namespace Blockwork
namespace Graph

def checkName (name : String) (others : List String) : Except EditError String :=
  let name := Text.trim name
  if name.isEmpty then .error .emptyName
  else if others.any (sameName · name) then .error (.nameTaken name)
  else .ok name

-- `owner` has the name already, if anybody has.
def checkVariableName (g : Graph) (name : String) (owner : Option VariableId) :
    Except EditError String :=
  checkName name ((g.vars.filter fun v => some v.id ≠ owner).map (·.name))

def checkProcedureName (g : Graph) (name : String) (owner : Option ProcedureId) :
    Except EditError String :=
  checkName name ((g.procedures.filter fun p => some p.id ≠ owner).map (·.name))

-- `seen` are the parameters before the list.
def checkParamsAfter (g : Graph) (seen : List VariableId) : List VariableId → Except EditError Unit
  | [] => .ok ()
  | param :: rest =>
    if (g.variableWith? param).isNone then .error (.variableNotFound param)
    else if seen.contains param then .error (.repeatedParameter param)
    else g.checkParamsAfter (param :: seen) rest

def checkParams (g : Graph) (params : List VariableId) : Except EditError Unit :=
  if params.length > maxItems then .error (.tooManyParameters params.length)
  else g.checkParamsAfter [] params

-- In the order of the block ids, where a table of blocks without an order would give
-- them in any. It shows only in the order of the roots that fewer parameters make.
def callers (g : Graph) (procedure : ProcedureId) : List BlockId :=
  (g.blocks.values.filter fun block =>
    block.kind.isCall && block.procedureIn? "NAME" == some procedure).map (·.id)

def addVariable (g : Graph) (id : VariableId) (name : String) : Graph :=
  { g with vars := g.vars ++ [⟨id, name⟩] }

def usesVariable (g : Graph) (id : VariableId) : Bool :=
  g.blocks.values.any (fun block => block.fields.values.contains (.variableRef id))
    || g.procedures.any fun procedure => procedure.params.contains id

def addProcedure (g : Graph) (id : ProcedureId) (definition : BlockId) (name : String)
    (params : List VariableId) (returns : Bool) : Graph :=
  let block := Block.fresh definition (.definition returns) {}
  let g := g.addRoot { block with fields := block.fields.insert "NAME" (.procedureRef id) }
  { g with procedures := g.procedures ++ [⟨id, name, params, returns, definition⟩] }

def checkSignature (g : Graph) (name : String) (params : List VariableId) :
    Except EditError String := do
  let name ← g.checkProcedureName name none
  g.checkParams params
  return name

def updateProcedure (g : Graph) (id : ProcedureId) (f : Procedure → Procedure) : Graph :=
  { g with procedures := g.procedures.map fun p => if p.id = id then f p else p }

def checkValue (g : Graph) (block : Block) (slot : String) (shape : FieldShape)
    (value : FieldValue) : Except EditError Unit :=
  let refuse (fault : FieldFault) : Except EditError Unit :=
    .error (.invalidValue block.id slot fault)
  match shape, value with
  | .text _, .text _ => .ok ()
  | .number _, .number _ => .ok ()
  | .dropdown options, .choice option =>
    if options.contains option then .ok () else refuse (.notAnOption option options)
  | .variableRef, .variableRef id =>
    if (g.variableWith? id).isSome then .ok () else .error (.variableNotFound id)
  | .variableRef, .empty => .ok ()
  | .procedureRef, value =>
    if block.kind.isDefinition then refuse .definitionBound
    else match value with
      | .procedureRef id =>
        match g.procedureWith? id with
        | none => .error (.procedureNotFound id)
        | some procedure =>
          if block.kind = .call procedure.returns then .ok () else refuse .returnMismatch
      | .empty => .ok ()
      | value => refuse (.wrongShape value shape)
  | shape, value => refuse (.wrongShape value shape)

-- Arguments that a call has after its procedure was set.
def arity? (g : Graph) (shape : FieldShape) (value : FieldValue) : Option Nat :=
  match shape, value with
  | _, .procedureRef id => (g.procedureWith? id).map (·.params.length)
  | .procedureRef, .empty => some 0
  | _, _ => none

end Graph

namespace Change

def createVariable (id : VariableId) (name : String) : Change EditError Graph Unit := do
  if ((← get).variableWith? id).isSome then throw (.duplicateId id.text)
  let name ← (← get).checkVariableName name none
  modify (·.addVariable id name)

def renameVariable (id : VariableId) (name : String) : Change EditError Graph Unit := do
  if ((← get).variableWith? id).isNone then throw (.variableNotFound id)
  let name ← (← get).checkVariableName name (some id)
  modify fun g => { g with
    vars := g.vars.map fun v => if v.id = id then { v with name := name } else v }

def deleteVariable (id : VariableId) : Change EditError Graph Unit := do
  if ((← get).variableWith? id).isNone then throw (.variableNotFound id)
  if (← get).usesVariable id then throw (.variableInUse id)
  modify fun g => { g with vars := g.vars.filter (·.id != id) }

def createProcedure (id : ProcedureId) (definition : BlockId) (name : String)
    (params : List VariableId) (returns : Bool) : Change EditError Graph Unit := do
  if ((← get).procedureWith? id).isSome then throw (.duplicateId id.text)
  if (← get).hasBlock definition then throw (.duplicateId definition.text)
  let name ← (← get).checkSignature name params
  modify (·.addProcedure id definition name params returns)

def renameProcedure (id : ProcedureId) (name : String) : Change EditError Graph Unit := do
  if ((← get).procedureWith? id).isNone then throw (.procedureNotFound id)
  let name ← (← get).checkProcedureName name (some id)
  modify (·.updateProcedure id fun p => { p with name := name })

-- Every call follows its procedure in the number of arguments, one call after another.
def setParams (id : ProcedureId) (params : List VariableId) : Change EditError Graph Unit := do
  if ((← get).procedureWith? id).isNone then throw (.procedureNotFound id)
  (← get).checkParams params
  modify (·.updateProcedure id fun p => { p with params := params })
  ((← get).callers id).forM fun call => modify (·.reshape call { items := params.length })

def removeProcedure (id : ProcedureId) : Change EditError Graph Unit := do
  let some procedure := (← get).procedureWith? id | throw (.procedureNotFound id)
  if !((← get).callers id).isEmpty then throw (.procedureInUse id)
  modify (·.removeTree procedure.definition)
  modify fun g => { g with procedures := g.procedures.filter (·.id != id) }

-- A definition goes with its procedure.
def deleteTree (id : BlockId) : Change EditError Graph Unit := do
  let block ← (← get).block id
  if block.kind.isDefinition then
    match block.procedureIn? "NAME" with
    | some procedure => removeProcedure procedure
    | none => throw (.broken (.definitionUnbound id))
  else modify (·.removeTree id)

def setField (id : BlockId) (slot : String) (value : FieldValue) : Change EditError Graph Unit := do
  let block ← (← get).block id
  match block.kind.slot? block.extent slot with
  | some (.field shape) =>
    (← get).checkValue block slot shape value
    let arity := (← get).arity? shape value
    let _ ← (← get).block id
    modify (·.update id fun block => { block with fields := block.fields.insert slot value })
    match arity with
    | some items => modify (·.reshape id { items := items })
    | none => pure ()
  | some _ => throw (.wrongSlotKind id slot "field")
  | none => throw (.unknownSlot id slot)

end Change
end Blockwork
