import Blockwork.Json.Value

-- Reading documents for their content. A record has named fields in a declared
-- order and may be given as an object or as an array of its leading fields.
-- Every container that is entered uses up one level of `depth`.
namespace Blockwork.Json

-- What a place in a document has to hold, with the nesting still allowed there.
abbrev Reading (α : Type) := Nat → Document → Option α

namespace Document

def member? (names : List String) (members : List (Option String × Document)) :
    Option (Option Document) :=
  match members.filter (fun m => m.1.any names.contains) with
  | [] => some none
  | [m] => some (some m.2)
  | _ => none

-- Fields of a record by position. Members with other names are passed over unread, but
-- each key has to spell a text.
def record? (fields : List (List String)) : Document → Option (List (Option Document))
  | .object members =>
    if members.all (·.1.isSome) then fields.mapM (member? · members) else none
  | .array items =>
    if items.length ≤ fields.length then
      some (items.map some ++ List.replicate (fields.length - items.length) none)
    else none
  | _ => none

end Document

namespace Reading

variable {α : Type}

def text : Reading String
  | _, .text spelled => spelled
  | _, _ => none

def bool : Reading Bool
  | _, .bool value => some value
  | _, _ => none

def number : Reading Number
  | _, .number literal => literal.number?
  | _, _ => none

def double : Reading Double := fun depth document => (number depth document).map Number.toDouble

def natBelow (limit : Nat) : Reading Nat := fun depth document =>
  match number depth document with
  | some (.integer value) => if 0 ≤ value ∧ value < limit then some value.toNat else none
  | _ => none

def list (item : Reading α) : Reading (List α)
  | depth + 1, .array items => items.mapM (item depth)
  | _, _ => none

def nullable (item : Reading α) : Reading (Option α)
  | _, .null => some none
  | depth, document => (item depth document).map some

-- A map with text keys, the last of repeated keys counting.
def dict (item : Reading α) : Reading (Dict α)
  | depth + 1, .object members =>
    (members.mapM (keyed? (item depth))).map Dict.ofList
  | _, _ => none

def required (item : Reading α) (depth : Nat) (field : Option Document) : Option α :=
  field.bind (item depth)

def withDefault (item : Reading α) (value : α) (depth : Nat) : Option Document → Option α
  | none => some value
  | some document => item depth document

def optional (item : Reading α) : Nat → Option Document → Option (Option α) :=
  withDefault (nullable item) none

end Reading
end Blockwork.Json
