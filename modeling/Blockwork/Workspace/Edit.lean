import Blockwork.Graph.Validity

-- A graph that is being worked on, and the edits of it. New ids are numbered by
-- one serial for blocks, variables and procedures alike. The serial never goes
-- back, so an id that was handed out once is not handed out again.
namespace Blockwork

structure Workspace where
  graph : Graph
  serial : Nat
  deriving DecidableEq

inductive Edit where
  | addBlock (kind : Kind)
  | addBlockAs (id : BlockId) (kind : Kind)
  | setField (block : BlockId) (slot : String) (value : FieldValue)
  | attach (parent : BlockId) (place : Place) (child : BlockId)
  | detach (block : BlockId)
  | reorderRoot (block : BlockId) (index : Nat)
  | setPosition (block : BlockId) (position : Position)
  | setItemCount (block : BlockId) (items : Nat)
  | setHasElse (block : BlockId) (hasElse : Bool)
  | deleteTree (block : BlockId)
  | clear
  | createVariable (name : String)
  | createVariableAs (id : VariableId) (name : String)
  | renameVariable (id : VariableId) (name : String)
  | deleteVariable (id : VariableId)
  | createProcedure (name : String) (params : List VariableId) (returns : Bool)
  | createProcedureAs (id : ProcedureId) (definition : BlockId) (name : String)
      (params : List VariableId) (returns : Bool)
  | renameProcedure (id : ProcedureId) (name : String)
  | setParams (id : ProcedureId) (params : List VariableId)
  | removeProcedure (id : ProcedureId)
  deriving DecidableEq

-- What an edit tells besides that it was made: the ids it chose.
inductive EditReply where
  | done
  | block (id : BlockId)
  | variableMade (id : VariableId)
  | procedureMade (id : ProcedureId) (definition : BlockId)
  deriving DecidableEq

-- First number from `n` on that is not taken, looking at `tries` of them before giving in.
def firstFree (taken : Nat → Bool) : Nat → Nat → Nat
  | 0, n => n
  | tries + 1, n => if taken n then firstFree taken tries (n + 1) else n

namespace Workspace

def empty : Workspace := ⟨.empty, 0⟩

instance : Inhabited Workspace := ⟨empty⟩

def blockName (n : Nat) : BlockId := ⟨"b" ++ toString n⟩
def variableName (n : Nat) : VariableId := ⟨"v" ++ toString n⟩
def procedureName (n : Nat) : ProcedureId := ⟨"p" ++ toString n⟩

-- Blocks are finite, so the search ends at a free number.
def blockSerial (g : Graph) (serial : Nat) : Nat :=
  firstFree (fun n => g.hasBlock (blockName n)) g.size (serial + 1)

def variableSerial (g : Graph) (serial : Nat) : Nat :=
  firstFree (fun n => (g.variableWith? (variableName n)).isSome) g.vars.length (serial + 1)

def procedureSerial (g : Graph) (serial : Nat) : Nat :=
  firstFree (fun n => (g.procedureWith? (procedureName n)).isSome) g.procedures.length (serial + 1)

def replace (w other : Workspace) : Workspace := ⟨other.graph, max w.serial other.serial⟩

end Workspace

-- A workspace in the middle of an edit. `shown` is how it looked each time the edit told
-- of a change, oldest first.
structure Workbench where
  workspace : Workspace
  shown : List Workspace

namespace Change

open Workspace

variable {ε α : Type}

def onGraph (change : Change ε Graph α) : Change ε Workbench α := ExceptT.mk fun bench =>
  let (result, graph) := change.runOn bench.workspace.graph
  (result, { bench with workspace := { bench.workspace with graph := graph } })

def announce : Change ε Workbench Unit :=
  modify fun bench => { bench with shown := bench.shown ++ [bench.workspace] }

def newSerial (next : Graph → Nat → Nat) : Change ε Workbench Nat := do
  let w := (← get).workspace
  let serial := next w.graph w.serial
  modify fun bench => { bench with workspace := { bench.workspace with serial := serial } }
  return serial

def keepSerial (change : Change EditError Graph Unit) : Change EditError Workbench EditReply := do
  onGraph change
  announce
  return .done

def makeVariable (name : String) : Change EditError Workbench VariableId := do
  let name ← (← get).workspace.graph.checkVariableName name none
  let id := variableName (← newSerial variableSerial)
  onGraph (modify (·.addVariable id name))
  announce
  return id

def takeOver (other : Workspace) : Change ε Workbench Unit := do
  modify fun bench => { bench with workspace := bench.workspace.replace other }
  announce

def perform : Edit → Change EditError Workbench EditReply
  | .addBlock kind => do
    if kind.isDefinition then throw .definitionWithoutProcedure
    let id := blockName (← newSerial blockSerial)
    onGraph (modify (·.addRoot (.fresh id kind kind.defaultExtent)))
    announce
    return .block id
  | .addBlockAs id kind => keepSerial (.addBlock id kind)
  | .setField block slot value => keepSerial (.setField block slot value)
  | .attach parent place child => keepSerial (.attach parent place child)
  | .detach block => keepSerial (.detach block)
  | .reorderRoot block index => keepSerial (.reorderRoot block index)
  | .setPosition block position => keepSerial (.setPosition block position)
  | .setItemCount block items => keepSerial (.setItemCount block items)
  | .setHasElse block hasElse => keepSerial (.setHasElse block hasElse)
  | .deleteTree block => keepSerial (.deleteTree block)
  | .clear => keepSerial (set Graph.empty)
  | .createVariable name => do return .variableMade (← makeVariable name)
  | .createVariableAs id name => keepSerial (.createVariable id name)
  | .renameVariable id name => keepSerial (.renameVariable id name)
  | .deleteVariable id => keepSerial (.deleteVariable id)
  | .createProcedure name params returns => do
    let name ← (← get).workspace.graph.checkSignature name params
    let id := procedureName (← newSerial procedureSerial)
    let definition := blockName (← newSerial blockSerial)
    onGraph (modify (·.addProcedure id definition name params returns))
    announce
    return .procedureMade id definition
  | .createProcedureAs id definition name params returns =>
    keepSerial (.createProcedure id definition name params returns)
  | .renameProcedure id name => keepSerial (.renameProcedure id name)
  | .setParams id params => keepSerial (.setParams id params)
  | .removeProcedure id => keepSerial (.removeProcedure id)

end Change

namespace Workspace

def make {α : Type} (w : Workspace) (change : Change EditError Workbench α) :
    Except EditError (Workspace × α) :=
  (change.outcome ⟨w, []⟩).map fun (bench, answer) => (bench.workspace, answer)

def apply (w : Workspace) (e : Edit) : Except EditError (Workspace × EditReply) := w.make (.perform e)

end Workspace
end Blockwork
