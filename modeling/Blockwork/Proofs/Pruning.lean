import Mathlib
import Blockwork.Proofs.Moves
import Blockwork.Proofs.Trees

-- Edits that take places or blocks away: another extent for a block, and the
-- removal of a block with all that hangs below it.
namespace Blockwork
namespace Graph

variable {g g' : Graph}

-- Reshaping cuts the links to the displaced children and gives the block its new extent.
theorem block?_clearAll (children : List BlockId) (g : Graph) (x : BlockId) :
    (children.foldl (fun g child => g.update child fun b => { b with parent := none }) g).block? x
      = if x ∈ children then (g.block? x).map fun b => { b with parent := none } else g.block? x := by
  induction children generalizing g with
  | nil => simp
  | cons child rest ih =>
    rw [List.foldl_cons, ih, block?_update]
    by_cases first : x = child
    · subst first
      cases g.block? x <;> simp
    · simp [first]

theorem clearAll_tables (children : List BlockId) (g : Graph) :
    let cleared := children.foldl (fun g child => g.update child fun b => { b with parent := none }) g
    cleared.roots = g.roots ∧ cleared.vars = g.vars ∧ cleared.procedures = g.procedures := by
  induction children generalizing g with
  | nil => exact ⟨rfl, rfl, rfl⟩
  | cons child rest ih => exact ih _

theorem block?_reshape {id : BlockId} {block : Block} (found : g.block? id = some block)
    (extent : Extent) (x : BlockId) : (g.reshape id extent).block? x = (g.block? x).map fun b =>
      let shaped := if x = id then b.reshape extent else b
      if x ∈ block.displaced extent then { shaped with parent := none } else shaped := by
  unfold reshape
  rw [found]
  refine (block?_clearAll _ _ x).trans ?_
  rw [block?_update]
  cases g.block? x with
  | none => simp
  | some b =>
    by_cases lost : x ∈ block.displaced extent
    · simp only [if_pos lost]
      split <;> rfl
    · simp only [if_neg lost]
      split <;> rfl

theorem reshape_roots {id : BlockId} {block : Block} (found : g.block? id = some block)
    (extent : Extent) : (g.reshape id extent).roots = g.roots ++ block.displaced extent := by
  unfold reshape
  rw [found]
  exact congrArg (· ++ _) (clearAll_tables _ _).1

theorem reshape_tables (g : Graph) (id : BlockId) (extent : Extent) :
    (g.reshape id extent).vars = g.vars ∧ (g.reshape id extent).procedures = g.procedures := by
  unfold reshape
  split
  · exact ⟨rfl, rfl⟩
  · exact (clearAll_tables _ _).2

theorem Built.reshape (built : g.Built) {id : BlockId} {block : Block}
    (found : g.block? id = some block) {extent : Extent} (allowed : block.kind.Allows extent) :
    (g.reshape id extent).Built := by
  intro x b known
  rw [block?_reshape found] at known
  obtain ⟨old, before, rfl⟩ := Option.map_eq_some_iff.mp known
  obtain ⟨same, proper⟩ := built x old before
  have shaped : (if x = id then old.reshape extent else old).id = x ∧
      (if x = id then old.reshape extent else old).Proper := by
    split
    · next here =>
      subst here
      cases found.symm.trans before
      exact ⟨same, Block.reshape_proper proper allowed⟩
    · exact ⟨same, proper⟩
  obtain ⟨keyed, fine⟩ := shaped
  dsimp only
  split
  · exact ⟨keyed, ⟨fine.shaped.fields, fine.shaped.inputs, fine.shaped.bodies⟩, fine.fitting,
      fine.allowed⟩
  · exact ⟨keyed, fine⟩

theorem reshape_contents (built : g.Built) {id : BlockId} {block : Block}
    (found : g.block? id = some block) (extent : Extent) (x : BlockId) :
    (g.reshape id extent).contents x = (g.contents x).map fun c =>
      { c with extent := if x = id then extent else c.extent } := by
  unfold contents
  rw [block?_reshape found]
  cases known : g.block? x with
  | none => rfl
  | some b =>
    have fields := Block.reshape_fields_eq (built x b known).2.shaped extent
    refine congrArg some ?_
    dsimp only
    split <;> split <;> simp [Block.content, fields]

theorem Linked.mem_displaced (linked : g.Linked) {id x : BlockId} {block b : Block} {place : Place}
    {child : BlockId} {extent : Extent} (found : g.block? id = some block) (known : g.block? x = some b)
    (holds : b.held place = some child) :
    child ∈ block.displaced extent ↔ x = id ∧ b.kind.hasPlace extent place = false := by
  rw [Block.mem_displaced]
  constructor
  · rintro ⟨other, held, lost⟩
    obtain ⟨rfl, rfl⟩ := Wiring.Linked.single linked (wiring_of_block known) holds
      (wiring_of_block found) held
    cases found.symm.trans known
    exact ⟨rfl, lost⟩
  · rintro ⟨rfl, lost⟩
    cases found.symm.trans known
    exact ⟨place, holds, lost⟩

theorem Linked.reshape_wiring (linked : g.Linked) {id : BlockId} {block : Block}
    (found : g.block? id = some block) (extent : Extent) :
    (g.reshape id extent).wiring = (g.wiring.cut (block.displaced extent)).regrow id extent := by
  funext x
  cases known : g.block? x with
  | none => simp [wiring, block?_reshape found, known, Wiring.regrow, Wiring.cut]
  | some b =>
    have held : ∀ place, (if x = id then b.reshape extent else b).held place
        = (b.held place).filter (· ∉ block.displaced extent) := by
      intro place
      cases holds : b.held place with
      | none =>
        split
        · rw [Block.reshape_held, holds]
          simp
        · exact holds
      | some child =>
        have lost : child ∈ block.displaced extent ↔ x = id ∧ b.kind.hasPlace extent place = false :=
          linked.mem_displaced found known holds
        rw [Option.filter_some]
        split
        · next here =>
          rw [Block.reshape_held, holds]
          cases has : b.kind.hasPlace extent place <;> simp [lost, here, has]
        · next other => simp [lost, other, holds]
    rw [Wiring.regrow_of_some (Wiring.cut_of_some (wiring_of_block known)), wiring,
      block?_reshape found, known]
    refine congrArg some ?_
    dsimp only
    split
    · next gone =>
      simp only [Block.stance, Stance.mk.injEq]
      refine ⟨?_, ?_, trivial, funext fun place => ?_⟩
      · split <;> rfl
      · split <;> rfl
      · exact (by cases place <;> rfl : Block.held _ place = _).trans (held place)
    · next kept =>
      simp only [Block.stance, Stance.mk.injEq]
      refine ⟨?_, ?_, ?_, funext held⟩
      all_goals split <;> rfl

theorem Linked.reshape (linked : g.Linked) (built : g.Built) {id : BlockId} {block : Block}
    (found : g.block? id = some block) (extent : Extent) : (g.reshape id extent).Linked := by
  have wired := wiring_of_block found
  have distinct : (block.displaced extent).Nodup := by
    rw [Block.displaced_eq]
    refine Block.children_nodup (fun p q child first second => ?_) _
    exact (Wiring.Linked.single linked wired first wired second).2
  have cut : (g.wiring.cut (block.displaced extent)).Linked (g.roots ++ block.displaced extent) := by
    refine Wiring.Linked.cut linked distinct fun x member => ?_
    obtain ⟨place, holds, _⟩ := Block.mem_displaced.mp member
    obtain ⟨t, child, above, _⟩ := linked.down id _ place x wired holds
    exact ⟨t, _, child, above⟩
  unfold Graph.Linked
  rw [linked.reshape_wiring found, reshape_roots found]
  refine cut.regrow fun s slot child expected known holds asked => ?_
  -- The input was there before, and an input never changes the type that it asks for.
  obtain ⟨t, old, rfl⟩ := Wiring.cut_eq_some known
  cases wired.symm.trans old
  have held : block.held (.input slot) = some child := (Option.filter_eq_some_iff.mp holds).1
  have has := Block.hasPlace_of_held (built id block found).2.shaped held
  obtain ⟨check, sort⟩ := Kind.hasPlace_input.mp has
  have same := Kind.slot?_stable sort asked
  exact same ▸ sort

-- Removing a block removes the blocks below it.
theorem tree?_of_block {id : BlockId} {block : Block} (found : g.block? id = some block) :
    g.tree? id = some (g.tree block) := by rw [tree?, found]; rfl

theorem block?_removeTree {id : BlockId} {block : Block} (found : g.block? id = some block)
    (x : BlockId) : (g.removeTree id).block? x
      = if x ∈ (g.tree block).ids then none else (g.unlink id).block? x := by
  unfold removeTree
  rw [tree?_of_block found]
  simp only [block?, Dict.get?_restrict]
  by_cases gone : x ∈ (g.tree block).ids <;> simp [gone]

theorem removeTree_roots {id : BlockId} {block : Block} (found : g.block? id = some block) :
    (g.removeTree id).roots = (g.unlink id).roots := by
  unfold removeTree
  rw [tree?_of_block found]

theorem removeTree_tables (g : Graph) (id : BlockId) :
    (g.removeTree id).vars = g.vars ∧ (g.removeTree id).procedures = g.procedures := by
  unfold removeTree
  split
  · exact ⟨rfl, rfl⟩
  · exact ⟨unlink_vars g id, unlink_procedures g id⟩

theorem Built.removeTree (built : g.Built) {id : BlockId} {block : Block}
    (found : g.block? id = some block) : (g.removeTree id).Built := by
  intro x b known
  rw [block?_removeTree found] at known
  split at known
  · cases known
  · exact built.unlink id x b known

theorem removeTree_contents {id : BlockId} {block : Block} (found : g.block? id = some block)
    (x : BlockId) : (g.removeTree id).contents x
      = if x ∈ (g.tree block).ids then none else g.contents x := by
  rw [contents, block?_removeTree found, ← unlink_contents g id]
  split <;> rfl

section

variable (linked : g.Linked) (built : g.Built) {id : BlockId} {block : Block}
  (found : g.block? id = some block)

include linked built found

theorem Linked.mem_tree_wired {x : BlockId} {s : Stance} (wired : g.wiring x = some s) :
    x ∈ (g.tree block).ids ↔ g.wiring.Above id x := by
  have same := (built id block found).1
  obtain ⟨b, known, _⟩ := block_of_wiring wired
  rw [linked.mem_tree_ids built (same.symm ▸ found), same]
  simp [known]

theorem Linked.mem_tree_root {x : BlockId} (listed : x ∈ g.roots) : x ∈ (g.tree block).ids ↔ x = id := by
  obtain ⟨s, wired, free⟩ := (linked.rooted x).mp listed
  rw [linked.mem_tree_wired built found wired]
  exact Wiring.above_root wired free

-- A tree is whole: below its top, a block is in it exactly if its parent is.
theorem Linked.mem_tree_parent {x : BlockId} {s : Stance} {link : ParentLink} (other : x ≠ id)
    (wired : g.wiring x = some s) (above : s.parent = some link) :
    x ∈ (g.tree block).ids ↔ link.parent ∈ (g.tree block).ids := by
  obtain ⟨t, parent, _⟩ := linked.up x s link wired above
  rw [linked.mem_tree_wired built found wired, linked.mem_tree_wired built found parent]
  exact Wiring.above_parent wired above other

theorem Linked.removeTree : (g.removeTree id).Linked := by
  have wired : (g.removeTree id).wiring = (g.unlink id).wiring.drop (g.tree block).ids := by
    funext x
    rw [wiring, block?_removeTree found, Wiring.drop]
    split <;> rfl
  unfold Graph.Linked
  rw [wired, removeTree_roots found]
  cases attached : block.parent with
  | none =>
    have dropped := Wiring.Linked.drop linked fun x s link known above => by
      refine linked.mem_tree_parent built found ?_ known above
      rintro rfl
      cases (wiring_of_block found).symm.trans known
      exact Option.some_ne_none _ (above.symm.trans attached)
    rw [unlink_root found attached]
    have roots : g.roots.filter (· != id) = g.roots.filter (· ∉ (g.tree block).ids) := by
      refine List.filter_congr fun x listed => ?_
      rw [Bool.eq_iff_iff, bne_iff_ne, decide_eq_true_eq, linked.mem_tree_root built found listed]
    rw [roots]
    exact dropped
  | some link =>
    have dropped := (linked.cut_attached found attached).drop fun x t link' known above => by
      obtain ⟨s, old, rfl⟩ := Wiring.cut_eq_some known
      by_cases here : x ∈ [id]
      · simp [here] at above
      · simp only [here, if_false] at above
        exact linked.mem_tree_parent built found (by simpa using here) old above
    rw [linked.unlink_wiring found attached, unlink_attached found attached]
    have absent := linked.not_root_of_attached (wiring_of_block found) attached
    have roots : (g.roots ++ [id]).filter (· ∉ (g.tree block).ids) = g.roots := by
      have first : id ∈ (g.tree block).ids :=
        (linked.mem_tree_wired built found (wiring_of_block found)).mpr (.refl _)
      have others : g.roots.filter (· ∉ (g.tree block).ids) = g.roots := by
        rw [List.filter_eq_self]
        intro x listed
        rw [decide_eq_true_eq, linked.mem_tree_root built found listed]
        rintro rfl
        exact absent listed
      rw [List.filter_append, others]
      simp [first]
    rw [roots] at dropped
    exact dropped

end

end Graph
end Blockwork
