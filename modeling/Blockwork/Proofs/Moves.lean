import Mathlib
import Blockwork.Proofs.Ancestry
import Blockwork.Proofs.EditRules

-- Edits that move blocks. Each is one of the changes of a wiring, and leaves
-- kinds, extents and fields as they are.
namespace Blockwork

-- What a block is by itself, without its links and its position.
structure Content where
  kind : Kind
  extent : Extent
  fields : Dict FieldValue

def Block.content (block : Block) : Content := ⟨block.kind, block.extent, block.fields⟩

namespace Graph

variable {g g' : Graph}

def contents (g : Graph) (id : BlockId) : Option Content := (g.block? id).map Block.content

theorem contents_of_block {id : BlockId} {block : Block} (found : g.block? id = some block) :
    g.contents id = some block.content := by rw [contents, found]; rfl

theorem block_of_contents {id : BlockId} {c : Content} (found : g.contents id = some c) :
    ∃ block, g.block? id = some block ∧ block.content = c := Option.map_eq_some_iff.mp found

theorem update_contents {id : BlockId} {f : Block → Block} (keeps : ∀ b, (f b).content = b.content) :
    (g.update id f).contents = g.contents := by
  funext x
  simp only [contents, block?_update]
  split
  · cases g.block? x <;> simp [keeps]
  · rfl

theorem update_built {id : BlockId} {f : Block → Block} (built : g.Built)
    (keeps : ∀ b, g.block? id = some b → b.Proper → (f b).id = b.id ∧ (f b).Proper) :
    (g.update id f).Built := by
  intro x block found
  rw [block?_update] at found
  split at found
  · next here =>
    subst here
    obtain ⟨old, known, rfl⟩ := Option.map_eq_some_iff.mp found
    obtain ⟨same, proper⟩ := built x old known
    obtain ⟨same', proper'⟩ := keeps old known proper
    exact ⟨same'.trans same, proper'⟩
  · exact built x block found

theorem update_wiring (g : Graph) (id : BlockId) (f : Block → Block) (x : BlockId) :
    (g.update id f).wiring x
      = if x = id then (g.block? x).map (fun b => (f b).stance) else g.wiring x := by
  unfold wiring
  rw [block?_update]
  split
  · cases g.block? x <;> rfl
  · rfl

-- Taking an attached block off its place cuts exactly the link to it.
theorem unlink_attached {id : BlockId} {block : Block} {link : ParentLink}
    (found : g.block? id = some block) (attached : block.parent = some link) :
    g.unlink id = (g.update id fun block => { block with parent := none }).update link.parent
      fun parent => parent.hold link.place none := by
  unfold unlink
  rw [found, Option.bind_some, attached]

theorem filter_kept {held : Option BlockId} {id : BlockId} (other : held ≠ some id) :
    held.filter (· ∉ [id]) = held := by
  cases held with
  | none => rfl
  | some c =>
    have different : c ≠ id := fun same => other (congrArg some same)
    simp [Option.filter, different]

theorem Linked.unlink_wiring (linked : g.Linked) {id : BlockId} {block : Block} {link : ParentLink}
    (found : g.block? id = some block) (attached : block.parent = some link) :
    (g.unlink id).wiring = g.wiring.cut [id] := by
  have wired := wiring_of_block found
  have apart : id ≠ link.parent := by
    intro same
    exact linked.not_above_parent wired attached (same ▸ .refl _)
  obtain ⟨s, parent, holds⟩ := linked.up id _ link wired attached
  have elsewhere : ∀ x b place, g.block? x = some b → b.held place = some id →
      x = link.parent ∧ place = link.place := fun x b place known held =>
    linked.single (wiring_of_block known) held parent holds
  rw [unlink_attached found attached]
  funext x
  rw [update_wiring, block?_update]
  cases known : g.block? x with
  | none =>
    have absent : g.wiring x = none := by rw [wiring, known]; rfl
    simp [update_wiring, known, absent, Wiring.cut]
  | some b =>
    rw [Wiring.cut_of_some (wiring_of_block known)]
    by_cases atParent : x = link.parent
    · have other : x ≠ id := fun same => apart (same.symm.trans atParent)
      rw [if_pos atParent, if_neg other, Option.map_some, Option.some.injEq]
      have outside : x ∉ [id] := by simpa using other
      simp only [Block.stance, Block.hold_kind, Block.hold_extent, Block.hold_parent,
        Stance.mk.injEq, true_and, outside, if_false]
      funext place
      rw [Block.held_hold_none]
      split
      · next same =>
        have held : b.held place = some id := by
          obtain ⟨b', known', rfl⟩ := block_of_wiring parent
          rw [← atParent, known] at known'
          cases known'
          rw [same]
          exact holds
        simp [held, Option.filter]
      · next different =>
        exact (filter_kept fun held => different (elsewhere x b place known held).2).symm
    · have kept : ∀ place, (b.held place).filter (· ∉ [id]) = b.held place := fun place =>
        filter_kept fun held => atParent (elsewhere x b place known held).1
      rw [if_neg atParent, update_wiring]
      by_cases here : x = id
      · rw [if_pos here, known, Option.map_some, Option.some.injEq]
        have inside : x ∈ [id] := by simpa using here
        simp only [Block.stance, Stance.mk.injEq, inside, if_true, true_and]
        exact funext fun place => (kept place).symm
      · rw [if_neg here, wiring_of_block known, Option.some.injEq]
        have outside : x ∉ [id] := by simpa using here
        simp only [Block.stance, Stance.mk.injEq, outside, if_false, true_and]
        exact funext fun place => (kept place).symm

theorem unlink_contents (g : Graph) (id : BlockId) : (g.unlink id).contents = g.contents := by
  unfold unlink
  split
  · rw [update_contents, update_contents]
    · intro b; rfl
    · intro b; simp [Block.content]
  · rfl

theorem Built.unlink (built : g.Built) (id : BlockId) : (g.unlink id).Built := by
  unfold Graph.unlink
  split
  · refine update_built (update_built built ?_) ?_
    · intro b _ proper
      exact ⟨rfl, ⟨proper.shaped.fields, proper.shaped.inputs, proper.shaped.bodies⟩, proper.fitting,
        proper.allowed⟩
    · intro b _ proper
      exact ⟨Block.hold_id _ _ _, Block.hold_proper proper _ _⟩
  · exact built

theorem unlink_vars (g : Graph) (id : BlockId) : (g.unlink id).vars = g.vars := by
  unfold unlink; split <;> rfl

theorem unlink_procedures (g : Graph) (id : BlockId) : (g.unlink id).procedures = g.procedures := by
  unfold unlink; split <;> rfl

theorem Asks.accepts {parent child : Block} {place : Place} (asked : Asks parent place child.kind) :
    parent.stance.Accepts place child.stance := by
  cases place with
  | input slot =>
    obtain ⟨connects, check, sort, typed⟩ := asked
    refine ⟨connects, fun expected found sort' yields => ?_⟩
    cases sort.symm.trans sort'
    exact typed expected found rfl yields
  | body slot => exact asked.1
  | next => exact asked

theorem Asks.hasPlace {parent : Block} {child : Kind} {place : Place} (asked : Asks parent place child) :
    parent.kind.hasPlace parent.extent place = true := by
  cases place with
  | input slot =>
    obtain ⟨_, check, sort, _⟩ := asked
    exact Kind.hasPlace_input.mpr ⟨check, sort⟩
  | body slot => exact Kind.hasPlace_body.mpr asked.2
  | next => rfl

theorem hook_wiring (built : g.Built) {parent child : BlockId} {place : Place} {block : Block}
    (found : g.block? parent = some block) (has : block.kind.hasPlace block.extent place = true)
    (apart : child ≠ parent) :
    ((g.update parent fun b => b.hold place (some child)).update child
      fun b => { b with parent := some ⟨parent, place⟩ }).wiring = g.wiring.hook parent place child := by
  funext x
  rw [update_wiring, update_wiring, block?_update]
  cases known : g.block? x with
  | none =>
    have absent : g.wiring x = none := by rw [wiring, known]; rfl
    simp [absent, Wiring.hook]
  | some b =>
    rw [Wiring.hook_of_some (wiring_of_block known)]
    by_cases here : x = child
    · have other : x ≠ parent := fun same => apart (here.symm.trans same)
      simp only [here, if_true, apart, if_false, Option.map_some, Block.stance, Option.some.injEq,
        Stance.mk.injEq, true_and, false_and]
      rfl
    · rw [if_neg here]
      by_cases atParent : x = parent
      · rw [if_pos atParent, Option.map_some, Option.some.injEq]
        have same : b = block := by
          rw [atParent, found] at known
          exact (Option.some.inj known).symm
        subst same
        simp only [Block.stance, Block.hold_kind, Block.hold_extent, Block.hold_parent, here, if_false,
          Stance.mk.injEq, true_and]
        funext other
        by_cases at' : other = place
        · subst at'
          rw [Block.held_hold_same (built x b known).2.shaped has]
          simp [atParent]
        · rw [Block.held_hold_ne b _ at']
          simp [at']
      · rw [if_neg atParent, wiring_of_block known, Option.some.injEq]
        simp [Block.stance, here, atParent]

theorem unlink_root {id : BlockId} {block : Block} (found : g.block? id = some block)
    (free : block.parent = none) : g.unlink id = { g with roots := g.roots.filter (· != id) } := by
  unfold unlink
  rw [found, Option.bind_some, free]

theorem Linked.cut_attached (linked : g.Linked) {id : BlockId} {block : Block} {link : ParentLink}
    (found : g.block? id = some block) (attached : block.parent = some link) :
    (g.wiring.cut [id]).Linked (g.roots ++ [id]) := by
  refine Wiring.Linked.cut linked (by simp) fun x member => ?_
  rw [List.mem_singleton] at member
  exact ⟨_, link, member ▸ wiring_of_block found, attached⟩

theorem Linked.attached (linked : g.Linked) (built : g.Built) {parent child : BlockId} {place : Place}
    (checked : g.checkAttach parent place child = .ok ()) : (g.attached parent place child).Linked := by
  obtain ⟨p, c, foundParent, foundChild, empty, asked, above⟩ := checkAttach_eq_ok.mp checked
  rw [linked.mem_lineage (by simp [foundParent])] at above
  have apart : child ≠ parent := by
    rintro rfl
    exact above (.refl _)
  -- The parent keeps its kind, its extent and the free place when the child leaves its old one.
  have unlinked := built.unlink child
  have same : (g.unlink child).contents parent = some p.content := by
    rw [unlink_contents, contents_of_block foundParent]
  obtain ⟨p', foundParent', content⟩ := block_of_contents same
  have has : p'.kind.hasPlace p'.extent place = true := by
    have kind : p'.kind = p.kind := congrArg Content.kind content
    have extent : p'.extent = p.extent := congrArg Content.extent content
    rw [kind, extent]
    exact asked.hasPlace
  have wired : (g.attached parent place child).wiring
      = (g.unlink child).wiring.hook parent place child := hook_wiring unlinked foundParent' has apart
  unfold Graph.Linked
  rw [wired]
  cases attached : c.parent with
  | none =>
    have hooked := Wiring.Linked.hook linked (wiring_of_block foundParent) empty
      (wiring_of_block foundChild) attached asked.accepts above
    have roots : (g.attached parent place child).roots = g.roots.filter (· != child) := by
      unfold Graph.attached
      rw [unlink_root foundChild attached]
      rfl
    rw [roots, unlink_root foundChild attached]
    exact hooked
  | some link =>
    have wiredChild := wiring_of_block foundChild
    rw [linked.unlink_wiring foundChild attached]
    have hooked : ((g.wiring.cut [child]).hook parent place child).Linked
        ((g.roots ++ [child]).filter (· != child)) := by
      refine Wiring.Linked.hook (linked.cut_attached foundChild attached) (Wiring.cut_of_some (wiring_of_block foundParent)) ?_
        (Wiring.cut_of_some wiredChild) (by simp) ?_ ?_
      · simp [Block.stance, empty]
      · have accepts := asked.accepts
        cases place <;> exact accepts
      · rintro ⟨n, climb⟩
        exact above ⟨n, climb.of_cut⟩
    have absent := linked.not_root_of_attached wiredChild attached
    have roots : (g.roots ++ [child]).filter (· != child) = (g.attached parent place child).roots := by
      have others : g.roots.filter (· != child) = g.roots := by
        rw [List.filter_eq_self]
        intro x listed
        exact bne_iff_ne.mpr fun same => absent (same ▸ listed)
      have kept : (g.attached parent place child).roots = g.roots := by
        unfold Graph.attached
        rw [unlink_attached foundChild attached]
        rfl
      rw [kept, List.filter_append, others]
      simp
    rw [← roots]
    exact hooked

theorem attached_contents (g : Graph) (parent : BlockId) (place : Place) (child : BlockId) :
    (g.attached parent place child).contents = g.contents := by
  unfold attached
  rw [update_contents, update_contents, unlink_contents]
  · intro b; simp [Block.content]
  · intro b; rfl

theorem Built.attached (built : g.Built) (parent : BlockId) (place : Place) (child : BlockId) :
    (g.attached parent place child).Built := by
  refine update_built (update_built (built.unlink child) ?_) ?_
  · intro b _ proper
    exact ⟨Block.hold_id _ _ _, Block.hold_proper proper _ _⟩
  · intro b _ proper
    exact ⟨rfl, ⟨proper.shaped.fields, proper.shaped.inputs, proper.shaped.bodies⟩, proper.fitting,
      proper.allowed⟩

theorem Linked.detached (linked : g.Linked) {id : BlockId} {block : Block} {link : ParentLink}
    (found : g.block? id = some block) (attached : block.parent = some link) :
    { g.unlink id with roots := (g.unlink id).roots ++ [id] }.Linked := by
  have cut := linked.cut_attached found attached
  have roots : (g.unlink id).roots = g.roots := by
    rw [unlink_attached found attached]
    rfl
  rw [← linked.unlink_wiring found attached] at cut
  rw [roots]
  exact cut

theorem Linked.reordered (linked : g.Linked) {id : BlockId} (listed : id ∈ g.roots) (index : Nat) :
    { g with roots := (g.roots.erase id).take index ++ id :: (g.roots.erase id).drop index }.Linked := by
  have moved : g.roots.Perm
      ((g.roots.erase id).take index ++ id :: (g.roots.erase id).drop index) := by
    refine (List.perm_cons_erase listed).trans (.trans ?_ List.perm_middle.symm)
    rw [List.take_append_drop]
  exact Wiring.Linked.perm linked moved

-- A change that links cannot see.
theorem update_same_wiring {id : BlockId} {f : Block → Block} (keeps : ∀ b, (f b).stance = b.stance) :
    (g.update id f).wiring = g.wiring := by
  funext x
  rw [update_wiring]
  split
  · rw [wiring]
    simp only [keeps]
  · rfl

theorem Linked.update (linked : g.Linked) {id : BlockId} {f : Block → Block}
    (keeps : ∀ b, (f b).stance = b.stance) : (g.update id f).Linked := by
  unfold Graph.Linked
  rw [update_same_wiring keeps]
  exact linked

theorem Linked.addRoot (linked : g.Linked) {block : Block} (new : g.block? block.id = none)
    (free : block.parent = none) (bare : ∀ place, block.held place = none) :
    (g.addRoot block).Linked := by
  have wired : (g.addRoot block).wiring = g.wiring.add block.id block.stance := by
    funext x
    rw [wiring, block?_addRoot, Wiring.add]
    split <;> rfl
  unfold Graph.Linked
  rw [wired]
  exact Wiring.Linked.add linked (by rw [wiring, new]; rfl) free bare

theorem Built.addRoot (built : g.Built) {block : Block} (proper : block.Proper) :
    (g.addRoot block).Built := by
  intro x b found
  rw [block?_addRoot] at found
  split at found
  · next here =>
    cases found
    exact ⟨here.symm, proper⟩
  · exact built x b found

end Graph
end Blockwork
