import Mathlib
import Blockwork.Proofs.Ancestry

-- The tree of a block has exactly the blocks below it, each once, and the trees
-- of the roots have all blocks of the graph.
namespace Blockwork

theorem Tree.blocksOf_eq (branches : List (Place × Tree)) :
    blocksOf branches = branches.flatMap fun p => p.2.blocks := by
  induction branches with
  | nil => rfl
  | cons head rest ih => rw [blocksOf, ih, List.flatMap_cons]

theorem Tree.ids_node (block : Block) (branches : List (Place × Tree)) :
    (node block branches).ids = block.id :: branches.flatMap fun p => p.2.ids := by
  rw [ids, blocks, blocksOf_eq, List.map_cons, List.map_flatMap]
  rfl

namespace Graph

open Wiring

variable {g : Graph}

def branchesTo (g : Graph) (depth : Nat) (block : Block) : List (Place × Tree) :=
  block.links.filterMap fun link =>
    (g.block? link.2).map fun child => (link.1, g.treeTo depth child)

theorem mem_branchesTo {depth : Nat} {block : Block} {place : Place} {tree : Tree} :
    (place, tree) ∈ g.branchesTo depth block ↔ ∃ child c, block.held place = some child ∧
      g.block? child = some c ∧ tree = g.treeTo depth c := by
  unfold branchesTo
  simp only [List.mem_filterMap, Prod.exists, Option.map_eq_some_iff, Prod.mk.injEq]
  constructor
  · rintro ⟨_, child, member, c, found, rfl, rfl⟩
    exact ⟨child, c, Block.mem_links.mp member, found, rfl⟩
  · rintro ⟨child, c, holds, found, rfl⟩
    exact ⟨place, child, Block.mem_links.mpr holds, c, found, rfl, rfl⟩

theorem treeTo_blocks (depth : Nat) (block : Block) : (g.treeTo (depth + 1) block).blocks
    = block :: (g.branchesTo depth block).flatMap fun p => p.2.blocks := by
  rw [treeTo, Tree.blocks, Tree.blocksOf_eq]
  rfl

-- A block is in a tree of some depth if going up leads to the top in as many steps.
theorem Linked.mem_treeTo (linked : g.Linked) (built : g.Built) {depth : Nat} {top b : Block}
    (found : g.block? top.id = some top) : b ∈ (g.treeTo depth top).blocks ↔
      g.block? b.id = some b ∧ ∃ n ≤ depth, g.wiring.Climb n b.id top.id := by
  induction depth generalizing top with
  | zero =>
    rw [treeTo, Tree.blocks, Tree.blocksOf, List.mem_singleton]
    constructor
    · rintro rfl
      exact ⟨found, 0, Nat.le_refl 0, .here _⟩
    · rintro ⟨known, n, none, climb⟩
      obtain rfl : n = 0 := by omega
      generalize low : b.id = x at *
      cases climb
      exact Option.some.inj (known.symm.trans found)
  | succ depth ih =>
    rw [treeTo_blocks, List.mem_cons, List.mem_flatMap]
    constructor
    · rintro (rfl | ⟨⟨place, tree⟩, branch, member⟩)
      · exact ⟨found, 0, Nat.zero_le _, .here _⟩
      · obtain ⟨child, c, holds, below, rfl⟩ := mem_branchesTo.mp branch
        obtain ⟨t, wired, above, _⟩ := linked.down _ _ place child (wiring_of_block found) holds
        have same := (built child c below).1
        obtain ⟨known, n, bound, climb⟩ := (ih (same ▸ below)).mp member
        refine ⟨known, n + 1, by omega, climb.append (.up (same ▸ wired) above (.here _))⟩
    · rintro ⟨known, n, bound, climb⟩
      cases n with
      | zero =>
        generalize low : b.id = x at *
        cases climb
        exact .inl (Option.some.inj (known.symm.trans found))
      | succ n =>
        obtain ⟨mid, s, place, lower, wired, above⟩ := climb.last
        obtain ⟨c, below, rfl⟩ := block_of_wiring wired
        have same := (built mid c below).1
        obtain ⟨t, parent, holds⟩ := linked.up mid _ _ wired above
        obtain ⟨top', found', rfl⟩ := block_of_wiring parent
        cases found.symm.trans found'
        refine .inr ⟨(place, g.treeTo depth c), mem_branchesTo.mpr ⟨mid, c, holds, below, rfl⟩, ?_⟩
        exact (ih (same ▸ below)).mpr ⟨known, n, by omega, same ▸ lower⟩

theorem Linked.mem_tree (linked : g.Linked) (built : g.Built) {top b : Block}
    (found : g.block? top.id = some top) :
    b ∈ (g.tree top).blocks ↔ g.block? b.id = some b ∧ g.wiring.Above top.id b.id := by
  unfold tree
  rw [linked.mem_treeTo built found]
  refine and_congr_right fun known => ⟨fun ⟨n, _, climb⟩ => ⟨n, climb⟩, fun ⟨n, climb⟩ => ?_⟩
  have bound := linked.climb_lt_size climb (by simp [known])
  exact ⟨n, by omega, climb⟩

theorem Linked.mem_tree_ids (linked : g.Linked) (built : g.Built) {top : Block} {x : BlockId}
    (found : g.block? top.id = some top) :
    x ∈ (g.tree top).ids ↔ (g.block? x).isSome ∧ g.wiring.Above top.id x := by
  unfold Tree.ids
  simp only [List.mem_map, linked.mem_tree built found]
  constructor
  · rintro ⟨b, ⟨known, above⟩, rfl⟩
    exact ⟨by simp [known], above⟩
  · rintro ⟨present, above⟩
    obtain ⟨b, known⟩ := Option.isSome_iff_exists.mp present
    have same := (built x b known).1
    exact ⟨b, ⟨same ▸ known, same ▸ above⟩, same⟩

-- A tree that follows every link of its blocks.
inductive Full (g : Graph) : Tree → Prop where
  | node {block : Block} {branches : List (Place × Tree)} (found : g.block? block.id = some block)
      (whole : branches.map (fun p => (p.1, p.2.block.id)) = block.links)
      (below : ∀ p ∈ branches, Full g p.2) : Full g (.node block branches)

theorem treeTo_block (depth : Nat) (block : Block) : (g.treeTo depth block).block = block := by
  cases depth <;> rfl

theorem Linked.child (linked : g.Linked) (built : g.Built) {block : Block}
    (found : g.block? block.id = some block) {place : Place} {child : BlockId}
    (holds : block.held place = some child) : ∃ c, g.block? c.id = some c ∧ c.id = child ∧
      c.parent = some ⟨block.id, place⟩ ∧ g.wiring.Climb 1 c.id block.id := by
  obtain ⟨t, wired, above, _⟩ := linked.down _ _ place child (wiring_of_block found) holds
  obtain ⟨c, known, rfl⟩ := block_of_wiring wired
  have same := (built child c known).1
  exact ⟨c, same ▸ known, same, above, .up (same ▸ wired) above (.here _)⟩

-- The depth is enough where no way up to the block is longer.
theorem Linked.treeTo_full (linked : g.Linked) (built : g.Built) {depth : Nat} {block : Block}
    (found : g.block? block.id = some block)
    (enough : ∀ n x, (g.block? x).isSome → g.wiring.Climb n x block.id → n ≤ depth) :
    g.Full (g.treeTo depth block) := by
  induction depth generalizing block with
  | zero =>
    refine .node found ?_ (by simp)
    cases links : block.links with
    | nil => rfl
    | cons link rest =>
      have member : (link.1, link.2) ∈ block.links := by simp [links]
      obtain ⟨c, known, _, _, climb⟩ := linked.child built found (Block.mem_links.mp member)
      have bound := enough 1 c.id (by rw [known]; rfl) climb
      omega
  | succ depth ih =>
    have whole : (g.branchesTo depth block).map (fun p => (p.1, p.2.block.id)) = block.links := by
      unfold branchesTo
      rw [List.map_filterMap]
      have same : ∀ link ∈ block.links, (Option.map (fun p : Place × Tree => (p.1, p.2.block.id))
          ((g.block? link.2).map fun child => (link.1, g.treeTo depth child))) = some link := by
        rintro ⟨place, child⟩ member
        obtain ⟨c, known, rfl, _⟩ := linked.child built found (Block.mem_links.mp member)
        simp [known, treeTo_block]
      rw [List.filterMap_congr same, List.filterMap_some]
    refine .node found whole ?_
    rintro ⟨place, tree⟩ branch
    obtain ⟨child, c, holds, known, rfl⟩ := mem_branchesTo.mp branch
    obtain ⟨c', known', rfl, _, climb⟩ := linked.child built found holds
    cases known.symm.trans known'
    refine ih known fun n x present lower => ?_
    have bound := enough _ x present (lower.append climb)
    omega

theorem Linked.tree_full (linked : g.Linked) (built : g.Built) {block : Block}
    (found : g.block? block.id = some block) : g.Full (g.tree block) := by
  refine linked.treeTo_full built found fun n x present climb => ?_
  exact Nat.le_of_lt (linked.climb_lt_size climb present)

theorem Full.found {tree : Tree} (full : g.Full tree) : g.block? tree.block.id = some tree.block := by
  cases full with
  | node found => exact found

-- A branch of a full tree is the tree of the child at its place.
theorem Full.branch {block : Block} {branches : List (Place × Tree)} (full : g.Full (.node block branches))
    {place : Place} {tree : Tree} (branch : (place, tree) ∈ branches) :
    block.held place = some tree.block.id := by
  cases full with
  | node found whole below =>
    refine Block.mem_links.mp ?_
    rw [← whole]
    exact List.mem_map.mpr ⟨(place, tree), branch, rfl⟩

theorem Full.places_nodup {block : Block} {branches : List (Place × Tree)}
    (full : g.Full (.node block branches)) : (branches.map (·.1)).Nodup := by
  cases full with
  | node found whole below =>
    have places := block.links_nodup
    rw [← whole, List.map_map] at places
    exact places

theorem Full.mem {tree : Tree} (full : g.Full tree) (linked : g.Linked) (built : g.Built) {b : Block}
    (member : b ∈ tree.blocks) : g.block? b.id = some b ∧ g.wiring.Above tree.block.id b.id := by
  induction full with
  | @node block branches found whole below ih =>
    rw [Tree.blocks, Tree.blocksOf_eq, List.mem_cons, List.mem_flatMap] at member
    rcases member with rfl | ⟨⟨place, tree⟩, branch, inside⟩
    · exact ⟨found, .refl _⟩
    · obtain ⟨known, n, lower⟩ := ih _ branch inside
      have holds := (Full.node found whole below).branch branch
      obtain ⟨c, _, same, _, climb⟩ := linked.child built found holds
      exact ⟨known, n + 1, lower.append (same ▸ climb)⟩

-- Subtrees of one block have nothing in common, and the block is in none of them.
theorem Full.nodup {tree : Tree} (full : g.Full tree) (linked : g.Linked) (built : g.Built) :
    tree.ids.Nodup := by
  induction full with
  | @node block branches found whole below ih =>
    have full := Full.node found whole below
    have inside : ∀ p ∈ branches, ∀ x ∈ p.2.ids, g.wiring.Above p.2.block.id x := by
      rintro p branch x member
      obtain ⟨b, listed, rfl⟩ := List.mem_map.mp member
      exact ((below p branch).mem linked built listed).2
    have apart : ∀ p ∈ branches, ¬g.wiring.Above p.2.block.id block.id := by
      rintro ⟨place, tree⟩ branch above
      obtain ⟨c, known, same, parent, _⟩ := linked.child built found (full.branch branch)
      exact linked.not_above_parent (wiring_of_block known) parent (same ▸ above)
    rw [Tree.ids_node, List.nodup_cons]
    refine ⟨?_, List.nodup_flatMap.mpr ⟨fun p branch => ih p branch, ?_⟩⟩
    · rw [List.mem_flatMap]
      rintro ⟨p, branch, member⟩
      exact apart p branch (inside p branch _ member)
    · refine List.Pairwise.imp_of_mem ?_ (List.pairwise_map.mp full.places_nodup)
      rintro ⟨a, s⟩ ⟨b, t⟩ first second different
      rw [Function.onFun, List.disjoint_left]
      intro x left right
      obtain ⟨c, knownC, sameC, parentC, _⟩ := linked.child built found (full.branch first)
      obtain ⟨d, knownD, sameD, parentD, _⟩ := linked.child built found (full.branch second)
      have other : c.id ≠ d.id := by
        intro same
        rw [same, knownD] at knownC
        cases knownC
        rw [parentC] at parentD
        simp at parentD
        exact different parentD
      rcases above_chain (inside _ first x left) (inside _ second x right) with above | above
      · rw [← sameC, ← sameD, above_parent (wiring_of_block knownD) parentD other.symm] at above
        exact apart _ first (sameC ▸ above)
      · rw [← sameC, ← sameD, above_parent (wiring_of_block knownC) parentC other] at above
        exact apart _ second (sameD ▸ above)

-- The forest: a full tree for every root, and together all blocks.
theorem Linked.forest_roots (linked : g.Linked) (built : g.Built) :
    g.forest.map (·.block.id) = g.roots := by
  unfold forest
  rw [List.map_filterMap]
  have same : ∀ id ∈ g.roots, (g.tree? id).map (·.block.id) = some id := by
    intro id listed
    obtain ⟨s, wired, _⟩ := (linked.rooted id).mp listed
    obtain ⟨block, found, _⟩ := block_of_wiring wired
    simp [tree?, found, tree, treeTo_block, (built id block found).1]
  rw [List.filterMap_congr same, List.filterMap_some]

theorem mem_forest (built : g.Built) {tree : Tree} (member : tree ∈ g.forest) :
    g.block? tree.block.id = some tree.block ∧ tree = g.tree tree.block ∧ tree.block.id ∈ g.roots := by
  obtain ⟨id, listed, planted⟩ := List.mem_filterMap.mp member
  obtain ⟨block, found, rfl⟩ := Option.map_eq_some_iff.mp planted
  have own : (g.tree block).block = block := treeTo_block _ _
  have same := (built id block found).1
  rw [own]
  exact ⟨same.symm ▸ found, rfl, same.symm ▸ listed⟩

theorem Linked.forest_full (linked : g.Linked) (built : g.Built) {tree : Tree}
    (member : tree ∈ g.forest) : g.Full tree := by
  obtain ⟨found, same, _⟩ := mem_forest built member
  rw [same]
  exact linked.tree_full built found

theorem Linked.forest_nodup (linked : g.Linked) (built : g.Built) :
    ((g.forest.flatMap Tree.blocks).map (·.id)).Nodup := by
  rw [List.map_flatMap]
  refine List.nodup_flatMap.mpr ⟨fun t member => (linked.forest_full built member).nodup linked built, ?_⟩
  have roots : (g.forest.map (·.block.id)).Nodup := by
    rw [linked.forest_roots built]
    exact linked.nodup
  refine List.Pairwise.imp_of_mem ?_ (List.pairwise_map.mp roots)
  intro s t first second different
  rw [Function.onFun, List.disjoint_left]
  intro x left right
  have above : ∀ tree ∈ g.forest, x ∈ tree.ids → g.wiring.Above tree.block.id x := by
    intro tree member inside
    obtain ⟨b, listed, rfl⟩ := List.mem_map.mp inside
    exact ((linked.forest_full built member).mem linked built listed).2
  have root : ∀ tree ∈ g.forest, ∀ top, g.wiring.Above top tree.block.id ↔ tree.block.id = top := by
    intro tree member top
    obtain ⟨_, _, listed⟩ := mem_forest built member
    obtain ⟨u, wired, free⟩ := (linked.rooted _).mp listed
    exact above_root wired free
  rcases above_chain (above s first left) (above t second right) with upper | upper
  · exact different ((root t second _).mp upper).symm
  · exact different ((root s first _).mp upper)

theorem Linked.mem_forest_blocks (linked : g.Linked) (built : g.Built) {b : Block} :
    b ∈ g.forest.flatMap Tree.blocks ↔ g.block? b.id = some b := by
  rw [List.mem_flatMap]
  constructor
  · rintro ⟨tree, member, inside⟩
    exact ((linked.forest_full built member).mem linked built inside).1
  · intro found
    obtain ⟨root, listed, above⟩ := linked.root_above found
    obtain ⟨top, known, _⟩ := linked.root.mp listed
    have same := (built root top known).1
    refine ⟨g.tree top, List.mem_filterMap.mpr ⟨root, listed, by rw [tree?, known]; rfl⟩, ?_⟩
    exact (linked.mem_tree built (same.symm ▸ known)).mpr ⟨found, same.symm ▸ above⟩

end Graph
end Blockwork
