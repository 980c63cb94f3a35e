import Blockwork.Json.Writer
import Blockwork.Number.Decimal
import Blockwork.Snapshot.FormReader
import Blockwork.Workspace.Edit

-- Making a workspace from a saved form. First come the tables, then a plan of
-- all blocks, then the edits that carry the plan out. The first fault ends it.
-- Fields and slots that a kind does not have are passed over.
namespace Blockwork.Snapshot

inductive LoadError where
  | notJson
  | unknownKind (tag : String)
  | malformedField (block field : String)
  | refused (error : EditError)
  deriving DecidableEq

def LoadError.message : LoadError → String
  | .notJson => "JSON error"
  | .unknownKind tag => s!"Unknown block type: {tag}"
  | .malformedField block field => s!"Field {block}.{field} has a malformed value"
  | .refused error => s!"Invalid snapshot: {error.message}"

abbrev Load := Except LoadError

def accepted {α : Type} : Except EditError α → Load α
  | .ok result => .ok result
  | .error error => .error (.refused error)

def edit (w : Workspace) (e : Edit) : Load Workspace := accepted ((w.apply e).map (·.1))

def editAll : Workspace → List Edit → Load Workspace
  | w, [] => .ok w
  | w, e :: rest => do
    let w ← edit w e
    editAll w rest

structure Planned where
  id : BlockId
  kind : Kind
  extent : Extent
  position : Option Position
  fields : List (String × FieldValue)
  children : List (Place × BlockId)

def referenceId? (json : Json) : Option String := (json.get? "id").bind Json.text?

-- Value of a saved field, if its JSON fits the shape. Variables and procedures may be
-- given by name.
def fieldValue? (g : Graph) : FieldShape → Json → Option FieldValue
  | .text _, .text value => some (.text value)
  | .text _, .number value => some (.text value.written)
  | .number _, .number value => some (.number value.toDouble)
  | .number _, .text value => (Double.read? (Text.trim value)).map .number
  | .dropdown _, .text option => some (.choice option)
  | .variableRef, .object members =>
    (referenceId? (.object members)).map fun id => .variableRef ⟨id⟩
  | .variableRef, .text name => (g.variableNamed? name).map fun v => .variableRef v.id
  | .variableRef, .null => some .empty
  | .procedureRef, .object members =>
    (referenceId? (.object members)).map fun id => .procedureRef ⟨id⟩
  | .procedureRef, .text name => (g.procedureNamed? name).map fun p => .procedureRef p.id
  | .procedureRef, .null => some .empty
  | _, _ => none

-- Saved fields by name. A call without a name field may carry the name in its extra
-- state.
def namedFields (record : SavedRecord) (kind : Kind) : List (String × Json) :=
  record.fields.entries
    ++ if kind.isCall && !record.fields.contains "NAME" then
      match record.extra.bind (·.name) with
      | some name => [("NAME", .text name)]
      | none => []
    else []

-- Shape of a field that is to be set. The name of a definition is not.
def plannedShape? (kind : Kind) (name : String) : Option FieldShape :=
  match kind.fixedSlots.find? (·.name == name) with
  | some ⟨_, .field shape⟩ =>
    if kind.isDefinition ∧ shape = .procedureRef then none else some shape
  | _ => none

def planFields (g : Graph) (record : SavedRecord) (kind : Kind) :
    List (String × Json) → Load (List (String × FieldValue))
  | [] => .ok []
  | (name, json) :: rest =>
    match plannedShape? kind name with
    | none => planFields g record kind rest
    | some shape =>
      match fieldValue? g shape json with
      | none => .error (.malformedField record.id name)
      | some value => (planFields g record kind rest).map fun others => (name, value) :: others

def plannedArity (g : Graph) (fields : List (String × FieldValue)) : Nat :=
  match fields.lookup "NAME" with
  | some (.procedureRef id) => ((g.procedureWith? id).map (·.params.length)).getD 0
  | _ => 0

def plannedExtent (g : Graph) (record : SavedRecord) (kind : Kind)
    (fields : List (String × FieldValue)) : Extent :=
  let state := record.extra.getD {}
  match kind.variadic with
  | some .items => { items := state.itemCount.getD kind.defaultExtent.items }
  | some .branches => { items := state.elseIfCount.getD 0, hasElse := state.hasElse.getD false }
  | some .arguments => { items := plannedArity g fields }
  | none => {}

def extentKey (kind : Kind) : String :=
  if kind.variadic = some .branches then "elseIfCount" else "itemCount"

def planRecord (g : Graph) (record : SavedRecord) : Load Planned := do
  let some kind := Kind.ofTag? record.kind | throw (.unknownKind record.kind)
  let fields ← planFields g record kind (namedFields record kind)
  let extent := plannedExtent g record kind fields
  if extent.items > maxItems then throw (.malformedField record.id (extentKey kind))
  let position := match record.x, record.y with
    | some x, some y => some ⟨x, y⟩
    | _, _ => none
  return ⟨⟨record.id⟩, kind, extent, position, fields, []⟩

def plannedPlace? (planned : Planned) (name : String) : Option Place :=
  match planned.kind.slot? planned.extent name with
  | some (.input _) => some (.input name)
  | some .body => some (.body name)
  | _ => none

structure Branches where
  children : List (Place × BlockId)
  blocks : List Planned

mutual

def planBlock (g : Graph) : SavedBlock → Load (List Planned)
  | .mk record inputs next => do
    let planned ← planRecord g record
    let below ← planInputs g planned inputs
    let after ← planNext g next
    return { planned with children := below.children ++ after.children }
      :: (below.blocks ++ after.blocks)

def planInputs (g : Graph) (parent : Planned) :
    List (String × Connected SavedBlock) → Load Branches
  | [] => .ok ⟨[], []⟩
  | (name, connected) :: rest => do
    match plannedPlace? parent name with
    | none => planInputs g parent rest
    | some place =>
      let first ← planConnected g place connected
      let others ← planInputs g parent rest
      return ⟨first.children ++ others.children, first.blocks ++ others.blocks⟩

def planNext (g : Graph) : Option (Connected SavedBlock) → Load Branches
  | none => .ok ⟨[], []⟩
  | some connected => planConnected g .next connected

def planConnected (g : Graph) (place : Place) : Connected SavedBlock → Load Branches
  | ⟨some block, _⟩ => do return ⟨[(place, ⟨block.record.id⟩)], ← planBlock g block⟩
  | ⟨none, some block⟩ => do return ⟨[(place, ⟨block.record.id⟩)], ← planBlock g block⟩
  | ⟨none, none⟩ => .ok ⟨[], []⟩

end

def planAll (g : Graph) : List SavedBlock → Load (List Planned)
  | [] => .ok []
  | block :: rest => do
    let first ← planBlock g block
    let others ← planAll g rest
    return first ++ others

namespace Planned

def addEdits (planned : Planned) : List Edit :=
  if planned.kind.isDefinition then [] else [.addBlockAs planned.id planned.kind]

def extentEdits (planned : Planned) : List Edit :=
  match planned.kind.variadic with
  | some .items => [.setItemCount planned.id planned.extent.items]
  | some .branches =>
    [.setItemCount planned.id planned.extent.items, .setHasElse planned.id planned.extent.hasElse]
  | _ => []

def fieldEdits (planned : Planned) : List Edit :=
  planned.fields.map fun (name, value) => .setField planned.id name value

def linkEdits (planned : Planned) : List Edit :=
  planned.children.map (fun (place, child) => .attach planned.id place child)
    ++ planned.position.toList.map (.setPosition planned.id)

end Planned

def orderEdits (form : Form) : List Edit :=
  form.blocks.zipIdx.map fun (block, index) => .reorderRoot ⟨block.record.id⟩ index

def script (form : Form) (planned : List Planned) : List Edit :=
  planned.flatMap Planned.addEdits ++ planned.flatMap Planned.extentEdits
    ++ planned.flatMap Planned.fieldEdits ++ planned.flatMap Planned.linkEdits ++ orderEdits form

def isDefinitionTag (tag : String) : Bool :=
  tag == (Kind.definition false).tag || tag == (Kind.definition true).tag

mutual

def definitions : SavedBlock → List SavedBlock
  | .mk record inputs next =>
    (if isDefinitionTag record.kind then [.mk record inputs next] else [])
      ++ definitionsInputs inputs ++ definitionsNext next

def definitionsInputs : List (String × Connected SavedBlock) → List SavedBlock
  | [] => []
  | (_, connected) :: rest => definitionsConnected connected ++ definitionsInputs rest

def definitionsNext : Option (Connected SavedBlock) → List SavedBlock
  | none => []
  | some connected => definitionsConnected connected

def definitionsConnected : Connected SavedBlock → List SavedBlock
  | ⟨some block, _⟩ => definitions block
  | ⟨none, some block⟩ => definitions block
  | ⟨none, none⟩ => []

end

structure Definitions where
  bound : List (String × SavedBlock)
  native : List (String × SavedBlock)

def sortDefinitions (seen : List String) : List SavedBlock → Load Definitions
  | [] => .ok ⟨[], []⟩
  | definition :: rest =>
    let malformed : Load Definitions := .error (.malformedField definition.record.id "NAME")
    match definition.record.fields.get? "NAME" with
    | some (.object members) =>
      match referenceId? (.object members) with
      | none => malformed
      | some id =>
        if seen.contains id then .error (.refused (.duplicateId id))
        else (sortDefinitions (id :: seen) rest).map fun others =>
          { others with bound := (id, definition) :: others.bound }
    | some (.text name) =>
      (sortDefinitions seen rest).map fun others =>
        { others with native := (name, definition) :: others.native }
    | _ => malformed

def returnsValue (definition : SavedBlock) : Bool :=
  definition.record.kind == (Kind.definition true).tag

-- Declares listed procedures that have a definition. A definition is used once. Where several are
-- left over, the error names the first of them in the text; a table without an order may name any.
def declareListed (bound : List (String × SavedBlock)) (w : Workspace) :
    List SavedProcedure → Load Workspace
  | [] =>
    match bound with
    | [] => .ok w
    | (id, _) :: _ => .error (.refused (.procedureNotFound ⟨id⟩))
  | procedure :: rest =>
    match bound.lookup procedure.id with
    | none => declareListed bound w rest
    | some definition => do
      let w ← edit w (.createProcedureAs ⟨procedure.id⟩ ⟨definition.record.id⟩ procedure.name
        (procedure.params.map VariableId.mk) (returnsValue definition))
      declareListed (bound.filter (·.1 != procedure.id)) w rest

def resolveParam (w : Workspace) (param : SavedParam) : Load (Workspace × VariableId) :=
  match param.id.filter fun id => (w.graph.variableWith? ⟨id⟩).isSome with
  | some id => .ok (w, ⟨id⟩)
  | none =>
    match w.graph.variableNamed? param.name with
    | some v => .ok (w, v.id)
    | none =>
      match param.id with
      | some id => do
        let w ← edit w (.createVariableAs ⟨id⟩ param.name)
        return (w, ⟨id⟩)
      | none => accepted (w.make (.makeVariable param.name))

def resolveParams (w : Workspace) : List SavedParam → Load (Workspace × List VariableId)
  | [] => .ok (w, [])
  | param :: rest => do
    let (w, first) ← resolveParam w param
    let (w, others) ← resolveParams w rest
    return (w, first :: others)

def declareNative (w : Workspace) : List (String × SavedBlock) → Load Workspace
  | [] => .ok w
  | (name, definition) :: rest => do
    let record := definition.record
    let declared := (record.extra.bind (·.params)).getD []
    if declared.length > maxItems then throw (.malformedField record.id "params")
    let (w, params) ← resolveParams w declared
    let w ← edit w (.createProcedureAs ⟨record.id ++ "_procedure"⟩ ⟨record.id⟩ name params
      (returnsValue definition))
    declareNative w rest

def declareTables (form : Form) : Load Workspace := do
  let w ← editAll .empty (form.vars.map fun v => .createVariableAs ⟨v.id⟩ v.name)
  let sorted ← sortDefinitions [] (form.blocks.flatMap definitions)
  let w ← declareListed sorted.bound w form.procedures
  declareNative w sorted.native

def restore (form : Form) : Load Workspace := do
  let w ← declareTables form
  let planned ← planAll w.graph form.blocks
  editAll w (script form planned)

def load (s : String) : Load Workspace :=
  match Form.read? s with
  | some form => restore form
  | none => .error .notJson

end Blockwork.Snapshot
