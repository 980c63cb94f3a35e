import Blockwork.Graph.Tree
import Blockwork.Snapshot.Form

-- The saved form of a graph.
namespace Blockwork.Snapshot

def reference (id : String) : Json := .object [("id", .text id)]

-- JSON has no numbers for these; they are saved as words.
def numberJson : Double → Json
  | .nan => .text "NaN"
  | .infinite false => .text "Infinity"
  | .infinite true => .text "-Infinity"
  | value => .number (.real value)

def fieldJson? : FieldValue → Option Json
  | .text value => some (.text value)
  | .number value => some (numberJson value)
  | .choice option => some (.text option)
  | .variableRef id => some (reference id.text)
  | .procedureRef id => some (reference id.text)
  | .empty => none

def extraState? (block : Block) : Option ExtraState :=
  match block.kind.variadic with
  | some .items => some { itemCount := some block.extent.items }
  | some .branches =>
    if 0 < block.extent.items ∨ block.extent.hasElse then
      some {
        elseIfCount := if 0 < block.extent.items then some block.extent.items else none
        hasElse := if block.extent.hasElse then some true else none }
    else none
  | _ => none

def captureRecord (block : Block) : SavedRecord where
  kind := block.kind.tag
  id := block.id.text
  x := block.position.map (·.x)
  y := block.position.map (·.y)
  fields := .ofList (block.fields.entries.filterMap fun e => (fieldJson? e.2).map fun json => (e.1, json))
  extra := extraState? block

mutual

def captureTree : Tree → SavedBlock
  | .node block branches =>
    .mk (captureRecord block) (Dict.ofList (captureInputs branches)).entries (captureNext branches)

def captureInputs : List (Place × Tree) → List (String × Connected SavedBlock)
  | [] => []
  | (.input slot, tree) :: rest => (slot, ⟨some (captureTree tree), none⟩) :: captureInputs rest
  | (.body slot, tree) :: rest => (slot, ⟨some (captureTree tree), none⟩) :: captureInputs rest
  | (.next, _) :: rest => captureInputs rest

def captureNext : List (Place × Tree) → Option (Connected SavedBlock)
  | [] => none
  | (.next, tree) :: _ => some ⟨some (captureTree tree), none⟩
  | (.input _, _) :: rest => captureNext rest
  | (.body _, _) :: rest => captureNext rest

end

def capture (g : Graph) : Form where
  languageVersion := 0
  blocks := g.forest.map captureTree
  vars := g.vars.map fun v => ⟨v.name, v.id.text⟩
  procedures := g.procedures.map fun p => ⟨p.id.text, p.name, p.params.map (·.text), p.returns⟩

end Blockwork.Snapshot
