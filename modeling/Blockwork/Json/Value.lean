import Blockwork.Dict
import Blockwork.Json.Reader

-- JSON as data. Objects list their members in order; where a reader made the
-- object, the order is that of the keys and the last of repeated keys counts.
namespace Blockwork

inductive Json where
  | null
  | bool (value : Bool)
  | number (value : Json.Number)
  | text (value : String)
  | array (items : List Json)
  | object (members : List (String × Json))

namespace Json

-- Nesting that readers accept, counted in containers.
def depthLimit : Nat := 127

def keyed? {α : Type} (item : Document → Option α) (member : Option String × Document) :
    Option (String × α) := do
  let key ← member.1
  let value ← item member.2
  return (key, value)

def ofDocument? : Nat → Document → Option Json
  | _, .null => some .null
  | _, .bool value => some (.bool value)
  | _, .number literal => literal.number?.map .number
  | _, .text spelled => spelled.map .text
  | 0, .array _ => none
  | depth + 1, .array items => (items.mapM (ofDocument? depth)).map .array
  | 0, .object _ => none
  | depth + 1, .object members =>
    (members.mapM (keyed? (ofDocument? depth))).map fun entries =>
      .object (Dict.ofList entries).entries

def read? (depth : Nat) (s : String) : Option Json := (Document.read? s).bind (ofDocument? depth)

def get? (json : Json) (key : String) : Option Json :=
  match json with
  | .object members => members.lookup key
  | _ => none

def text? : Json → Option String
  | .text value => some value
  | _ => none

end Json
end Blockwork
