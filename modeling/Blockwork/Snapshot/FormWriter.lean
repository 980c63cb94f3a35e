import Blockwork.Json.Writer
import Blockwork.Snapshot.Form

-- Writing a saved form as JSON. What is absent or empty is left out, but for the
-- version and the list of blocks.
namespace Blockwork.Snapshot

def optionalMember {α : Type} (key : String) (encode : α → Json) : Option α → List (String × Json)
  | none => []
  | some value => [(key, encode value)]

def listMember (key : String) (items : List Json) : List (String × Json) :=
  if items.isEmpty then [] else [(key, .array items)]

def natJson (n : Nat) : Json := .number (.integer n)

def doubleJson (d : Double) : Json := .number (.real d)

-- A parameter without id has a null there.
def SavedParam.toJson (param : SavedParam) : Json :=
  .object [("name", .text param.name), ("id", (param.id.map Json.text).getD .null)]

def ExtraState.toJson (state : ExtraState) : Json :=
  .object (optionalMember "itemCount" natJson state.itemCount
    ++ optionalMember "elseIfCount" natJson state.elseIfCount
    ++ optionalMember "hasElse" .bool state.hasElse
    ++ optionalMember "name" .text state.name
    ++ optionalMember "params" (fun params => .array (params.map SavedParam.toJson)) state.params)

def SavedRecord.members (record : SavedRecord) : List (String × Json) :=
  [("type", .text record.kind), ("id", .text record.id)]
    ++ optionalMember "x" doubleJson record.x ++ optionalMember "y" doubleJson record.y
    ++ (if record.fields.isEmpty then [] else [("fields", .object record.fields.entries)])

mutual

def blockJson : SavedBlock → Json
  | .mk record inputs next =>
    .object (record.members
      ++ (if inputs.isEmpty then [] else [("inputs", .object (inputsJson inputs))])
      ++ nextJson next
      ++ optionalMember "extraState" ExtraState.toJson record.extra)

def inputsJson : List (String × Connected SavedBlock) → List (String × Json)
  | [] => []
  | (name, ⟨block, shadow⟩) :: rest =>
    (name, .object (childJson "block" block ++ childJson "shadow" shadow)) :: inputsJson rest

def nextJson : Option (Connected SavedBlock) → List (String × Json)
  | none => []
  | some ⟨block, shadow⟩ =>
    [("next", .object (childJson "block" block ++ childJson "shadow" shadow))]

def childJson (key : String) : Option SavedBlock → List (String × Json)
  | none => []
  | some block => [(key, blockJson block)]

end

def SavedVariable.toJson (v : SavedVariable) : Json :=
  .object [("name", .text v.name), ("id", .text v.id)]

def SavedProcedure.toJson (p : SavedProcedure) : Json :=
  .object [("id", .text p.id), ("name", .text p.name), ("params", .array (p.params.map Json.text)),
    ("returns", .bool p.returns)]

def Form.toJson (form : Form) : Json :=
  .object ([("blocks", .object [("languageVersion", natJson form.languageVersion),
      ("blocks", .array (form.blocks.map blockJson))])]
    ++ listMember "variables" (form.vars.map SavedVariable.toJson)
    ++ listMember "procedures" (form.procedures.map SavedProcedure.toJson))

def Form.compact (form : Form) : String := form.toJson.compact

def Form.pretty (form : Form) : String := form.toJson.pretty

end Blockwork.Snapshot
