import Blockwork.Graph.Basic

-- A block with everything that hangs below it. The size of the graph bounds the
-- depth, so no link is cut off where links form no cycle.
namespace Blockwork

inductive Tree where
  | node (block : Block) (branches : List (Place × Tree))

namespace Tree

def block : Tree → Block
  | .node block _ => block

def branches : Tree → List (Place × Tree)
  | .node _ branches => branches

mutual

def blocks : Tree → List Block
  | .node block branches => block :: blocksOf branches

def blocksOf : List (Place × Tree) → List Block
  | [] => []
  | (_, tree) :: rest => tree.blocks ++ blocksOf rest

end

def ids (tree : Tree) : List BlockId := tree.blocks.map (·.id)

end Tree

namespace Graph

def treeTo (g : Graph) : Nat → Block → Tree
  | 0, block => .node block []
  | depth + 1, block =>
    .node block (block.links.filterMap fun link =>
      (g.block? link.2).map fun child => (link.1, g.treeTo depth child))

def tree (g : Graph) (block : Block) : Tree := g.treeTo g.size block

def tree? (g : Graph) (id : BlockId) : Option Tree := (g.block? id).map g.tree

def forest (g : Graph) : List Tree := g.roots.filterMap g.tree?

end Graph
end Blockwork
