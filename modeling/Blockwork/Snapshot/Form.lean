import Blockwork.Dict
import Blockwork.Json.Value

-- The saved form of a program: a tree of blocks with the tables of variables
-- and procedures. It is what a snapshot says, not yet a program: kinds may be
-- unknown, ids repeated and references dangling.
namespace Blockwork.Snapshot

structure SavedParam where
  name : String
  id : Option String

structure ExtraState where
  itemCount : Option Nat := none
  elseIfCount : Option Nat := none
  hasElse : Option Bool := none
  name : Option String := none
  params : Option (List SavedParam) := none

-- What hangs at a place. A shadow counts where there is no block.
structure Connected (β : Type) where
  block : Option β := none
  shadow : Option β := none

structure SavedRecord where
  kind : String
  id : String
  x : Option Double := none
  y : Option Double := none
  fields : Dict Json := .empty
  extra : Option ExtraState := none

inductive SavedBlock where
  | mk (record : SavedRecord) (inputs : List (String × Connected SavedBlock))
      (next : Option (Connected SavedBlock))

namespace SavedBlock

def record : SavedBlock → SavedRecord
  | .mk record _ _ => record

def inputs : SavedBlock → List (String × Connected SavedBlock)
  | .mk _ inputs _ => inputs

def next : SavedBlock → Option (Connected SavedBlock)
  | .mk _ _ next => next

end SavedBlock

structure SavedVariable where
  name : String
  id : String

structure SavedProcedure where
  id : String
  name : String
  params : List String
  returns : Bool

structure Form where
  languageVersion : Nat := 0
  blocks : List SavedBlock := []
  vars : List SavedVariable := []
  procedures : List SavedProcedure := []

end Blockwork.Snapshot
