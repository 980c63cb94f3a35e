import Mathlib
import Blockwork.Proofs.Trees

-- The shape of a graph. Each block only knows its parent and its children; that
-- the blocks form a forest follows from the rules of links.
namespace Blockwork.Graph

open Wiring

-- A way down, with the links that it follows.
inductive Path (g : Graph) : BlockId → List ParentLink → BlockId → Prop where
  | here {id : BlockId} {block : Block} (found : g.block? id = some block) : Path g id [] id
  | down {id child low : BlockId} {block : Block} {place : Place} {steps : List ParentLink}
      (found : g.block? id = some block) (holds : block.held place = some child)
      (rest : Path g child steps low) : Path g id (⟨id, place⟩ :: steps) low

variable {g : Graph}

theorem Path.found {top low : BlockId} {steps : List ParentLink} (path : g.Path top steps low) :
    ∃ block, g.block? low = some block := by
  induction path with
  | here found => exact ⟨_, found⟩
  | down _ _ _ ih => exact ih

theorem Path.extend {top mid low : BlockId} {steps : List ParentLink} {block child : Block}
    {place : Place} (path : g.Path top steps mid) (found : g.block? mid = some block)
    (holds : block.held place = some low) (below : g.block? low = some child) :
    g.Path top (steps ++ [⟨mid, place⟩]) low := by
  induction path with
  | here _ => exact .down found holds (.here below)
  | down known held _ ih => exact .down known held (ih found)

-- The last link of a way that has one.
theorem Path.last {top low : BlockId} {steps : List ParentLink} (path : g.Path top steps low) :
    (steps = [] ∧ top = low) ∨ ∃ before mid place block, steps = before ++ [⟨mid, place⟩] ∧
      g.Path top before mid ∧ g.block? mid = some block ∧ block.held place = some low := by
  induction path with
  | here _ => exact .inl ⟨rfl, rfl⟩
  | @down id child low block place steps found holds rest ih =>
    right
    rcases ih with ⟨rfl, rfl⟩ | ⟨before, mid, place', block', rfl, upper, known, held⟩
    · exact ⟨[], id, place, block, rfl, .here found, found, holds⟩
    · exact ⟨⟨id, place⟩ :: before, mid, place', block', rfl, .down found holds upper, known, held⟩

theorem Linked.held_not_root (linked : g.Linked) {id child : BlockId} {block : Block} {place : Place}
    (found : g.block? id = some block) (holds : block.held place = some child) : child ∉ g.roots := by
  obtain ⟨t, wired, attached, _⟩ := linked.down _ _ place child (wiring_of_block found) holds
  exact linked.not_root_of_attached wired attached

-- Two ways from roots to one block are the same, from the last link to the first.
theorem Linked.path_unique (linked : g.Linked) {root root' low : BlockId}
    {steps steps' : List ParentLink} (listed : root ∈ g.roots) (listed' : root' ∈ g.roots)
    (path : g.Path root steps low) (path' : g.Path root' steps' low) :
    root = root' ∧ steps = steps' := by
  induction steps using List.reverseRecOn generalizing low steps' with
  | nil =>
    rcases path.last with ⟨_, rfl⟩ | ⟨before, mid, place, block, ended, _⟩
    · rcases path'.last with ⟨rfl, rfl⟩ | ⟨_, _, _, _, _, _, found, holds⟩
      · exact ⟨rfl, rfl⟩
      · exact absurd listed (linked.held_not_root found holds)
    · simp at ended
  | append_singleton before link ih =>
    rcases path.last with ⟨ended, _⟩ | ⟨upper, mid, place, block, same, way, found, holds⟩
    · simp at ended
    · obtain ⟨rfl, ending⟩ := List.append_inj' same rfl
      cases ending
      rcases path'.last with ⟨_, rfl⟩ | ⟨upper', mid', place', block', rfl, way', found', holds'⟩
      · exact absurd listed' (linked.held_not_root found holds)
      · obtain ⟨rfl, rfl⟩ :=
          linked.single (wiring_of_block found) holds (wiring_of_block found') holds'
        obtain ⟨same, steps⟩ := ih way way'
        exact ⟨same, by rw [steps]⟩

-- The rank grows along a way, so no block comes twice.
theorem Linked.path_nodup (linked : g.Linked) {top low : BlockId} {steps : List ParentLink}
    (path : g.Path top steps low) : (steps.map (·.parent) ++ [low]).Nodup := by
  obtain ⟨rank, grows⟩ := linked.grounded
  suffices both : (steps.map (·.parent) ++ [low]).Nodup ∧
      ∀ id ∈ steps.map (·.parent) ++ [low], rank top ≤ rank id from both.1
  induction path with
  | here _ => simp
  | @down id child low block place steps found holds rest ih =>
    obtain ⟨distinct, lower⟩ := ih
    obtain ⟨t, wired, attached, _⟩ := linked.down _ _ place child (wiring_of_block found) holds
    have step : rank id < rank child := grows child t ⟨id, place⟩ wired attached
    have below : ∀ x ∈ steps.map (·.parent) ++ [low], rank id < rank x := by
      intro x member
      exact Nat.lt_of_lt_of_le step (lower x member)
    constructor
    · apply List.nodup_cons.mpr
      exact ⟨fun again => Nat.lt_irrefl _ (below id again), distinct⟩
    · intro x member
      rcases List.mem_cons.mp member with rfl | member
      · exact Nat.le_refl _
      · exact Nat.le_of_lt (below x member)

theorem Linked.path_of_climb (linked : g.Linked) {n : Nat} {low top : BlockId} {block : Block}
    (climb : g.wiring.Climb n low top) (found : g.block? low = some block) :
    ∃ steps, g.Path top steps low := by
  induction climb generalizing block with
  | here id => exact ⟨[], .here found⟩
  | @up n id top s link wired attached rest ih =>
    obtain ⟨t, parent, holds⟩ := linked.up id s link wired attached
    obtain ⟨above, known, rfl⟩ := block_of_wiring parent
    obtain ⟨steps, path⟩ := ih known
    exact ⟨_, path.extend known holds found⟩

theorem Linked.path_from_root (linked : g.Linked) {id : BlockId} {block : Block}
    (found : g.block? id = some block) : ∃ root ∈ g.roots, ∃ steps, g.Path root steps id := by
  obtain ⟨root, listed, n, climb⟩ := linked.root_above found
  exact ⟨root, listed, linked.path_of_climb climb found⟩

-- The blocks that ways from the roots lead to are those of the graph.
theorem Linked.reached_count (linked : g.Linked) :
    {id | ∃ root ∈ g.roots, ∃ steps, g.Path root steps id}.ncard = g.size := by
  let keys : List BlockId := (g.blocks.entries.map (·.1)).map BlockId.mk
  have distinct : keys.Nodup := g.blocks.keys_nodup.map fun a b same => BlockId.mk.inj same
  have same : {id | ∃ root ∈ g.roots, ∃ steps, g.Path root steps id} = keys.toFinset := by
    ext id
    rw [Set.mem_ofPred_eq, Finset.mem_coe, List.mem_toFinset, List.mem_map]
    constructor
    · rintro ⟨root, _, steps, path⟩
      obtain ⟨block, found⟩ := path.found
      exact ⟨id.text, Dict.mem_keys.mpr (Option.isSome_of_mem found), rfl⟩
    · rintro ⟨key, member, rfl⟩
      obtain ⟨block, found⟩ := Option.isSome_iff_exists.mp (Dict.mem_keys.mp member)
      exact linked.path_from_root found
  rw [same, Set.ncard_coe_finset, List.toFinset_card_of_nodup distinct, List.length_map, List.length_map]
  rfl

-- The forest as a whole: one way from one root to each block, no way that comes by
-- a block twice, no blocks beyond the roots, and a short way up.
structure Forested (g : Graph) : Prop where
  single : ∀ id block, g.block? id = some block →
    ∃! way : BlockId × List ParentLink, way.1 ∈ g.roots ∧ g.Path way.1 way.2 id
  simple : ∀ top steps low, g.Path top steps low → (steps.map (·.parent) ++ [low]).Nodup
  count : {id | ∃ root ∈ g.roots, ∃ steps, g.Path root steps id}.ncard = g.size
  climbs : ∀ id block, g.block? id = some block →
    ∃ n < g.size, ∃ root ∈ g.roots, g.wiring.Climb n id root

theorem Linked.forested (linked : g.Linked) : g.Forested where
  single id block found := by
    obtain ⟨root, listed, steps, path⟩ := linked.path_from_root found
    refine ⟨(root, steps), ⟨listed, path⟩, ?_⟩
    intro way other
    obtain ⟨same, links⟩ := linked.path_unique other.1 listed other.2 path
    exact Prod.ext same links
  simple _ _ _ path := linked.path_nodup path
  count := linked.reached_count
  climbs id block found := by
    obtain ⟨root, listed, n, climb⟩ := linked.root_above found
    exact ⟨n, linked.climb_lt_size climb (by simp [found]), root, listed, climb⟩

end Blockwork.Graph
