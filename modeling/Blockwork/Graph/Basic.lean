import Blockwork.Graph.Error
import Blockwork.Text.Casing
import Blockwork.Text.Spacing

-- A program: its blocks by id, the heads of its chains in order, and the tables
-- of variables and procedures that the blocks refer to.
namespace Blockwork

structure Variable where
  id : VariableId
  name : String
  deriving DecidableEq

structure Procedure where
  id : ProcedureId
  name : String
  params : List VariableId
  returns : Bool
  definition : BlockId
  deriving DecidableEq

structure Graph where
  blocks : Dict Block
  roots : List BlockId
  vars : List Variable
  procedures : List Procedure
  deriving DecidableEq

-- Form of a name under which names have to differ: blanks at the ends and case do not
-- count.
def foldName (name : String) : String := Text.lowerCase (Text.trim name)

def sameName (a b : String) : Bool := foldName a == foldName b

namespace Graph

def empty : Graph := ⟨.empty, [], [], []⟩

instance : Inhabited Graph := ⟨empty⟩

def size (g : Graph) : Nat := g.blocks.size

def isEmpty (g : Graph) : Bool := g.blocks.isEmpty

def block? (g : Graph) (id : BlockId) : Option Block := g.blocks.get? id.text

def hasBlock (g : Graph) (id : BlockId) : Bool := g.blocks.contains id.text

def variableWith? (g : Graph) (id : VariableId) : Option Variable := g.vars.find? (·.id == id)

def procedureWith? (g : Graph) (id : ProcedureId) : Option Procedure := g.procedures.find? (·.id == id)

def variableNamed? (g : Graph) (name : String) : Option Variable :=
  g.vars.find? fun v => sameName v.name name

def procedureNamed? (g : Graph) (name : String) : Option Procedure :=
  g.procedures.find? fun p => sameName p.name name

def block (g : Graph) (id : BlockId) : Except EditError Block :=
  match g.block? id with
  | some block => .ok block
  | none => .error (.blockNotFound id)

def update (g : Graph) (id : BlockId) (f : Block → Block) : Graph :=
  { g with blocks := g.blocks.modify id.text f }

def addRoot (g : Graph) (block : Block) : Graph :=
  { g with blocks := g.blocks.insert block.id.text block, roots := g.roots ++ [block.id] }

def equals (g h : Graph) : Bool :=
  g.blocks.agrees Block.equals h.blocks && g.roots == h.roots && g.vars == h.vars
    && g.procedures == h.procedures

end Graph
end Blockwork
