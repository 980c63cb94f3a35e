import Mathlib
import Blockwork.Graph.Validity
import Blockwork.Proofs.Linkage

-- The wiring of a graph, and the searches that follow it up and down. Both are
-- bounded by the number of blocks, and that bound is never met.
namespace Blockwork.Graph

open Wiring

theorem text_inj {a b : BlockId} : a.text = b.text ↔ a = b := by
  constructor
  · intro same; cases a; cases b; exact congrArg _ same
  · intro same; rw [same]

@[simp] theorem block?_update (g : Graph) (id : BlockId) (f : Block → Block) (x : BlockId) :
    (g.update id f).block? x = if x = id then (g.block? x).map f else g.block? x := by
  simp [update, block?, text_inj]

@[simp] theorem block?_addRoot (g : Graph) (block : Block) (x : BlockId) :
    (g.addRoot block).block? x = if x = block.id then some block else g.block? x := by
  simp [addRoot, block?, text_inj]

@[simp] theorem roots_update (g : Graph) (id : BlockId) (f : Block → Block) :
    (g.update id f).roots = g.roots := rfl
@[simp] theorem vars_update (g : Graph) (id : BlockId) (f : Block → Block) :
    (g.update id f).vars = g.vars := rfl
@[simp] theorem procedures_update (g : Graph) (id : BlockId) (f : Block → Block) :
    (g.update id f).procedures = g.procedures := rfl

theorem hasBlock_eq (g : Graph) (id : BlockId) : g.hasBlock id = (g.block? id).isSome := rfl

def wiring (g : Graph) : Wiring := fun id => (g.block? id).map Block.stance

def Linked (g : Graph) : Prop := g.wiring.Linked g.roots

theorem wiring_of_block {g : Graph} {id : BlockId} {block : Block} (found : g.block? id = some block) :
    g.wiring id = some block.stance := by rw [wiring, found]; rfl

theorem block_of_wiring {g : Graph} {id : BlockId} {s : Stance} (found : g.wiring id = some s) :
    ∃ block, g.block? id = some block ∧ block.stance = s := Option.map_eq_some_iff.mp found

-- Blocks are kept under their own ids, and each is as edits make it.
def Built (g : Graph) : Prop := ∀ id block, g.block? id = some block → block.id = id ∧ block.Proper

theorem mem_blocks {g : Graph} (built : g.Built) {block : Block} :
    block ∈ g.blocks.values ↔ g.block? block.id = some block := by
  rw [Dict.mem_values]
  constructor
  · rintro ⟨key, found⟩
    have same := (built ⟨key⟩ block found).1
    rw [same]
    exact found
  · intro found
    exact ⟨_, found⟩

-- Different ids with blocks are no more than there are blocks.
theorem length_le_size {g : Graph} {ids : List BlockId} (distinct : ids.Nodup)
    (present : ∀ x ∈ ids, (g.block? x).isSome) : ids.length ≤ g.size := by
  have keys : (ids.map (·.text)).Nodup := distinct.map fun _ _ same => text_inj.mp same
  have inside : ids.map (·.text) ⊆ g.blocks.entries.map (·.1) := by
    intro key member
    obtain ⟨x, listed, rfl⟩ := List.mem_map.mp member
    exact Dict.mem_keys.mpr (present x listed)
  have bound := keys.length_le_of_subset inside
  simpa [size, Dict.size] using bound

theorem Linked.climb_path {g : Graph} {rank : BlockId → Nat}
    (linked : g.Linked)
    (grows : ∀ id s link, g.wiring id = some s → s.parent = some link → rank link.parent < rank id)
    {n : Nat} {id top : BlockId} (climb : g.wiring.Climb n id top) (present : (g.block? id).isSome) :
    ∃ path : List BlockId, path.length = n + 1 ∧ path.Nodup ∧
      ∀ x ∈ path, (g.block? x).isSome ∧ rank x ≤ rank id := by
  induction climb with
  | here id => exact ⟨[id], rfl, by simp, by simp [present]⟩
  | @up n id top s link found attached _ ih =>
    obtain ⟨t, parent, _⟩ := linked.up id s link found attached
    obtain ⟨block, known, _⟩ := block_of_wiring parent
    obtain ⟨path, length, distinct, bounded⟩ := ih (by rw [known]; rfl)
    have step := grows id s link found attached
    refine ⟨id :: path, by simp [length], List.nodup_cons.mpr ⟨?_, distinct⟩, ?_⟩
    · intro again
      have bound := (bounded id again).2
      omega
    · intro x member
      rcases List.mem_cons.mp member with rfl | member
      · exact ⟨present, Nat.le_refl _⟩
      · have bound := bounded x member
        exact ⟨bound.1, by omega⟩

theorem Linked.climb_lt_size {g : Graph} (linked : g.Linked) {n : Nat} {id top : BlockId}
    (climb : g.wiring.Climb n id top) (present : (g.block? id).isSome) : n < g.size := by
  obtain ⟨rank, grows⟩ := linked.grounded
  obtain ⟨path, length, distinct, bounded⟩ := linked.climb_path grows climb present
  have bound := length_le_size distinct fun x member => (bounded x member).1
  omega

theorem Linked.root {g : Graph} (linked : g.Linked) {id : BlockId} :
    id ∈ g.roots ↔ ∃ block, g.block? id = some block ∧ block.parent = none := by
  rw [linked.rooted id]
  constructor
  · rintro ⟨s, wired, free⟩
    obtain ⟨block, found, rfl⟩ := block_of_wiring wired
    exact ⟨block, found, free⟩
  · rintro ⟨block, found, free⟩
    exact ⟨_, wiring_of_block found, free⟩

theorem Linked.root_above {g : Graph} (linked : g.Linked) {id : BlockId} {block : Block}
    (found : g.block? id = some block) : ∃ root ∈ g.roots, g.wiring.Above root id := by
  obtain ⟨rank, grows⟩ := linked.grounded
  -- The way up gets shorter with every step, measured by the rank.
  induction height : rank id using Nat.strong_induction_on generalizing id block with
  | _ n ih =>
    cases attached : block.parent with
    | none => exact ⟨id, linked.root.mpr ⟨block, found, attached⟩, .refl id⟩
    | some link =>
      have wired := wiring_of_block found
      obtain ⟨t, parent, _⟩ := linked.up id _ link wired attached
      obtain ⟨above, known, _⟩ := block_of_wiring parent
      have lower := grows id _ link wired attached
      obtain ⟨root, listed, way⟩ := ih (rank link.parent) (height ▸ lower) known rfl
      exact ⟨root, listed, .step wired attached way⟩

theorem above_of_mem_lineageTo {g : Graph} {depth : Nat} {id top : BlockId}
    (member : top ∈ g.lineageTo depth id) : g.wiring.Above top id := by
  induction depth generalizing id with
  | zero =>
    rw [lineageTo, List.mem_singleton] at member
    exact member ▸ .refl _
  | succ depth ih =>
    rw [lineageTo] at member
    rcases List.mem_cons.mp member with rfl | member
    · exact .refl _
    · split at member
      · next link attached =>
        obtain ⟨block, found, above⟩ := Option.bind_eq_some_iff.mp attached
        exact .step (wiring_of_block found) above (ih member)
      · cases member

theorem mem_lineageTo_of_climb {g : Graph} {n depth : Nat} {id top : BlockId}
    (climb : g.wiring.Climb n id top) (enough : n ≤ depth) : top ∈ g.lineageTo depth id := by
  induction climb generalizing depth with
  | here id => cases depth <;> simp [lineageTo]
  | @up n id top s link found attached _ ih =>
    obtain ⟨depth, rfl⟩ : ∃ d, depth = d + 1 := ⟨depth - 1, by omega⟩
    obtain ⟨block, known, rfl⟩ := block_of_wiring found
    have attached : block.parent = some link := attached
    rw [lineageTo, known, Option.bind_some, attached]
    exact List.mem_cons_of_mem _ (ih (by omega))

-- The lineage of a block is complete.
theorem Linked.mem_lineage {g : Graph} (linked : g.Linked) {id top : BlockId}
    (present : (g.block? id).isSome) : top ∈ g.lineage id ↔ g.wiring.Above top id := by
  refine ⟨above_of_mem_lineageTo, ?_⟩
  rintro ⟨n, climb⟩
  exact mem_lineageTo_of_climb climb (Nat.le_of_lt (linked.climb_lt_size climb present))

theorem validateClimb_ok {g : Graph} {start : BlockId} {steps : Nat} {id : BlockId}
    (ends : ∀ top, ¬g.wiring.Climb (steps + 1) id top) : g.validateClimb start steps id = .ok () := by
  induction steps generalizing id with
  | zero =>
    rw [validateClimb]
    split
    · rfl
    · next link attached =>
      obtain ⟨block, found, above⟩ := Option.bind_eq_some_iff.mp attached
      exact absurd (.up (wiring_of_block found) above (.here _)) (ends link.parent)
  | succ steps ih =>
    rw [validateClimb]
    split
    · rfl
    · next link attached =>
      obtain ⟨block, found, above⟩ := Option.bind_eq_some_iff.mp attached
      exact ih fun top climb => ends top (.up (wiring_of_block found) above climb)

theorem Linked.validateClimb_size {g : Graph} (linked : g.Linked) {id start : BlockId}
    (present : (g.block? id).isSome) : g.validateClimb start g.size id = .ok () := by
  refine validateClimb_ok fun top climb => ?_
  have bound := linked.climb_lt_size climb present
  omega

end Blockwork.Graph
