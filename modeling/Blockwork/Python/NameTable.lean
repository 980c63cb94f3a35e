import Blockwork.Graph.Basic
import Blockwork.Text.Spacing

-- Identifiers of the target language: letters, digits and underscores of ASCII,
-- not starting with a digit, and no keyword.
namespace Blockwork.Python

def keywords : List String :=
  ["False", "None", "True", "and", "as", "assert", "async", "await", "break", "class",
    "continue", "def", "del", "elif", "else", "except", "finally", "for", "from", "global",
    "if", "import", "in", "is", "lambda", "nonlocal", "not", "or", "pass", "raise", "return",
    "try", "while", "with", "yield"]

def isNameChar (c : Char) : Bool := c.isAlphanum || c == '_'

def legalize (name : String) : String :=
  let legal := (Text.trim name).toList.map fun c => if isNameChar c then c else '_'
  match legal with
  | [] => "unnamed"
  | first :: _ => if first.isDigit then "my_" ++ String.ofList legal else String.ofList legal

-- Who has which identifier in a program. Variables and procedures get theirs
-- when the table is built; loop counters and helper functions ask for more.
-- What was handed out stays taken.
structure NameTable where
  taken : List String
  vars : List (VariableId × String)
  procedures : List (ProcedureId × String)
  helpers : List (String × String)

-- `base` with a number behind it, from `n` on, that is not taken; looks at `tries` of
-- them.
def numbered (taken : List String) (base : String) : Nat → Nat → String
  | 0, n => base ++ toString n
  | tries + 1, n =>
    if taken.contains (base ++ toString n) then numbered taken base tries (n + 1)
    else base ++ toString n

def distinct (taken : List String) (base : String) : String :=
  if taken.contains base then numbered taken base taken.length 2 else base

namespace NameTable

def take (table : NameTable) (base : String) : String × NameTable :=
  let name := distinct table.taken base
  (name, { table with taken := name :: table.taken })

def claim (table : NameTable) (base : String) : String × NameTable := table.take (legalize base)

def addVariable (table : NameTable) (v : Variable) : NameTable :=
  let (name, table) := table.claim v.name
  { table with vars := (v.id, name) :: table.vars }

def addProcedure (table : NameTable) (p : Procedure) : NameTable :=
  let (name, table) := table.claim p.name
  { table with procedures := (p.id, name) :: table.procedures }

def build (g : Graph) (reserved : List String) : NameTable :=
  g.procedures.foldl addProcedure
    (g.vars.foldl addVariable ⟨keywords ++ reserved, [], [], []⟩)

def variableName? (table : NameTable) (id : VariableId) : Option String := table.vars.lookup id

def procedureName? (table : NameTable) (id : ProcedureId) : Option String := table.procedures.lookup id

def helperName? (table : NameTable) (key : String) : Option String := table.helpers.lookup key

def remember (table : NameTable) (key name : String) : NameTable :=
  { table with helpers := (key, name) :: table.helpers }

def isTaken (table : NameTable) (name : String) : Bool := table.taken.contains name

end NameTable
end Blockwork.Python
