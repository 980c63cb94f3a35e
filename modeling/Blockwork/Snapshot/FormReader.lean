import Blockwork.Json.Record
import Blockwork.Snapshot.Form

-- Reading a saved form from JSON text. Keys that a record does not have are
-- passed over; a record may be given as an array.
namespace Blockwork.Snapshot

open Json

def SavedParam.reading : Reading SavedParam
  | depth + 1, document => do
    match ← document.record? [["name"], ["id"]] with
    | [name, id] =>
      return ⟨← Reading.required .text depth name, ← Reading.optional .text depth id⟩
    | _ => none
  | _, _ => none

def count : Reading Nat := .natBelow UInt64.size

def ExtraState.reading : Reading ExtraState
  | depth + 1, document => do
    match ← document.record? [["itemCount"], ["elseIfCount"], ["hasElse"], ["name"], ["params"]] with
    | [itemCount, elseIfCount, hasElse, name, params] =>
      return {
        itemCount := ← Reading.optional count depth itemCount
        elseIfCount := ← Reading.optional count depth elseIfCount
        hasElse := ← Reading.optional .bool depth hasElse
        name := ← Reading.optional .text depth name
        params := ← Reading.optional (.list SavedParam.reading) depth params }
    | _ => none
  | _, _ => none

def blockFields : List (List String) :=
  [["type"], ["id"], ["x"], ["y"], ["fields"], ["inputs"], ["next"], ["extraState"]]

def unlessNull {α : Type} (item : Document → Option α) : Option Document → Option (Option α)
  | none => some none
  | some .null => some none
  | some document => (item document).map some

def unlessAbsent {α : Type} (items : Document → Option (List α)) : Option Document → Option (List α)
  | none => some []
  | some document => items document

mutual

def readBlock : Nat → Document → Option SavedBlock
  | depth + 1, document => do
    match ← document.record? blockFields with
    | [kind, id, x, y, fields, inputs, next, extra] =>
      let record : SavedRecord := {
        kind := ← Reading.required .text depth kind
        id := ← Reading.required .text depth id
        x := ← Reading.optional .double depth x
        y := ← Reading.optional .double depth y
        fields := ← Reading.withDefault (.dict Json.ofDocument?) .empty depth fields
        extra := ← Reading.optional ExtraState.reading depth extra }
      let inputs ← unlessAbsent (readInputs depth) inputs
      let next ← unlessNull (readConnected depth) next
      return .mk record inputs next
    | _ => none
  | 0, _ => none

def readInputs : Nat → Document → Option (List (String × Connected SavedBlock))
  | depth + 1, .object members =>
    (members.mapM (keyed? (readConnected depth))).map fun entries => (Dict.ofList entries).entries
  | _, _ => none

def readConnected : Nat → Document → Option (Connected SavedBlock)
  | depth + 1, document => do
    match ← document.record? [["block"], ["shadow"]] with
    | [block, shadow] =>
      return ⟨← unlessNull (readBlock depth) block, ← unlessNull (readBlock depth) shadow⟩
    | _ => none
  | 0, _ => none

end

def SavedVariable.reading : Reading SavedVariable
  | depth + 1, document => do
    match ← document.record? [["name"], ["id"]] with
    | [name, id] => return ⟨← Reading.required .text depth name, ← Reading.required .text depth id⟩
    | _ => none
  | _, _ => none

def SavedProcedure.reading : Reading SavedProcedure
  | depth + 1, document => do
    match ← document.record? [["id"], ["name"], ["params"], ["returns"]] with
    | [id, name, params, returns] =>
      return {
        id := ← Reading.required .text depth id
        name := ← Reading.required .text depth name
        params := ← Reading.withDefault (.list .text) [] depth params
        returns := ← Reading.withDefault .bool false depth returns }
    | _ => none
  | _, _ => none

def treeReading : Reading (Nat × List SavedBlock)
  | depth + 1, document => do
    match ← document.record? [["languageVersion"], ["blocks"]] with
    | [version, blocks] =>
      return (← Reading.withDefault (.natBelow UInt32.size) 0 depth version,
        ← Reading.withDefault (.list readBlock) [] depth blocks)
    | _ => none
  | _, _ => none

def Form.reading : Reading Form
  | depth + 1, document => do
    match ← document.record? [["blocks"], ["variables"], ["procedures"]] with
    | [tree, vars, procedures] =>
      let (version, blocks) ← Reading.withDefault treeReading (0, []) depth tree
      return {
        languageVersion := version
        blocks := blocks
        vars := ← Reading.withDefault (.list SavedVariable.reading) [] depth vars
        procedures := ← Reading.withDefault (.list SavedProcedure.reading) [] depth procedures }
    | _ => none
  | _, _ => none

def Form.read? (s : String) : Option Form := (Document.read? s).bind (Form.reading depthLimit)

end Blockwork.Snapshot
