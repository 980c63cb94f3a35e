import Mathlib
import Blockwork.Proofs.Removal

-- Blocks that get other slots, one or many in a row. Children whose slots go become roots, and none
-- is lost; slots that were only added can be taken away again without a trace.
namespace Blockwork

-- What an edit settles of a block. Its slots follow from that and its kind.
structure Shape where
  extent : Extent
  fields : Dict FieldValue

theorem Kind.hasPlace_mono {kind : Kind} {small large : Extent} (items : small.items ≤ large.items)
    (otherwise : small.hasElse = true → large.hasElse = true) {place : Place}
    (has : kind.hasPlace small place = true) : kind.hasPlace large place = true := by
  cases place with
  | input slot =>
    obtain ⟨check, sort⟩ := hasPlace_input.mp has
    exact hasPlace_input.mpr ⟨check, slot?_eq_some.mpr (slots_mono items otherwise (slot?_eq_some.mp sort))⟩
  | body slot =>
    have sort := hasPlace_body.mp has
    exact hasPlace_body.mpr (slot?_eq_some.mpr (slots_mono items otherwise (slot?_eq_some.mp sort)))
  | next => rfl

namespace Block

-- The block has the slots of its new extent, and children stay where their place stays.
structure Reshaped (block block' : Block) (shape : Shape) : Prop where
  id : block'.id = block.id
  kind : block'.kind = block.kind
  position : block'.position = block.position
  extent : block'.extent = shape.extent
  fields : block'.fields = shape.fields
  slots : block'.Shaped
  held : ∀ place, block'.held place
    = if block.kind.hasPlace shape.extent place then block.held place else none

theorem held_withParent (block : Block) (parent : Option ParentLink) (place : Place) :
    { block with parent := parent }.held place = block.held place := by cases place <;> rfl

theorem reshape_withParent (block : Block) (parent : Option ParentLink) (extent : Extent) :
    { block with parent := parent }.reshape extent = { block.reshape extent with parent := parent } := rfl

theorem reshape_reshaped (block : Block) {fields : Dict FieldValue} (extent : Extent)
    (parent : Option ParentLink) (shaped : { block with fields := fields }.Shaped) :
    block.Reshaped { { block with fields := fields }.reshape extent with parent := parent }
      ⟨extent, fields⟩ where
  id := rfl
  kind := rfl
  position := rfl
  extent := rfl
  fields := reshape_fields_eq shaped extent
  slots :=
    have now := reshape_shaped { block with fields := fields } extent
    ⟨now.fields, now.inputs, now.bodies⟩
  held place := by
    rw [held_withParent, reshape_held]
    cases place <;> rfl

-- Slots are settled by kind and extent, so the same extent changes nothing.
theorem reshape_same {block : Block} (shaped : block.Shaped) : block.reshape block.extent = block := by
  refine eq_of_held (reshape_shaped _ _) shaped rfl rfl rfl rfl (reshape_fields_eq shaped _) rfl
    fun place => ?_
  rw [reshape_held]
  cases holds : block.held place with
  | none => exact ite_self _
  | some child => rw [if_pos (hasPlace_of_held shaped holds)]

end Block

namespace Graph

variable {g g' : Graph}

theorem eq_of_blocks (blocks : ∀ x, g.block? x = g'.block? x) (roots : g.roots = g'.roots)
    (vars : g.vars = g'.vars) (procedures : g.procedures = g'.procedures) : g = g' := by
  have same : g.blocks = g'.blocks := Dict.ext_get? fun key => blocks ⟨key⟩
  cases g
  cases g'
  simp_all

theorem reshape_same (built : g.Built) {id : BlockId} {block : Block}
    (found : g.block? id = some block) : g.reshape id block.extent = g := by
  have shaped := (built id block found).2.shaped
  have none : block.displaced block.extent = [] := by
    rw [List.eq_nil_iff_forall_not_mem]
    intro child member
    obtain ⟨place, holds, lost⟩ := Block.mem_displaced.mp member
    rw [Block.hasPlace_of_held shaped holds] at lost
    cases lost
  have blocks : ∀ x, (g.reshape id block.extent).block? x = g.block? x := by
    intro x
    rw [block?_reshape found, none]
    cases known : g.block? x with
    | none => rfl
    | some b =>
      by_cases here : x = id
      · subst here
        cases found.symm.trans known
        simp [Block.reshape_same shaped]
      · simp [here]
  have roots : (g.reshape id block.extent).roots = g.roots := by
    rw [reshape_roots found, none, List.append_nil]
  obtain ⟨vars, procedures⟩ := reshape_tables g id block.extent
  exact eq_of_blocks blocks roots vars procedures

-- The children that a list of blocks has no place for once they have the extent.
def displacedBy (g : Graph) (extent : Extent) (ids : List BlockId) : List BlockId :=
  ids.flatMap fun id => (g.block? id).elim [] (·.displaced extent)

-- A block can lose its parent when another one is reshaped, and that changes nothing in its slots.
theorem displacedBy_reshape {id : BlockId} {block : Block} (found : g.block? id = some block)
    (extent : Extent) {ids : List BlockId} (others : id ∉ ids) :
    (g.reshape id extent).displacedBy extent ids = g.displacedBy extent ids := by
  refine List.flatMap_congr fun x member => ?_
  have other : x ≠ id := fun same => others (same ▸ member)
  rw [block?_reshape found]
  cases g.block? x with
  | none => rfl
  | some b =>
    simp only [other, if_false, Option.map_some, Option.elim_some]
    split <;> rfl

-- Blocks that are reshaped one after another: each gets its slots, and all displaced children
-- follow the roots.
theorem reshapeAll_eq (extent : Extent) {ids : List BlockId} (distinct : ids.Nodup)
    (present : ∀ x ∈ ids, (g.block? x).isSome) :
    let all := ids.foldl (fun g id => g.reshape id extent) g
    (∀ x, all.block? x = (g.block? x).map fun b =>
      let shaped := if x ∈ ids then b.reshape extent else b
      if x ∈ g.displacedBy extent ids then { shaped with parent := none } else shaped) ∧
    all.roots = g.roots ++ g.displacedBy extent ids := by
  induction ids generalizing g with
  | nil => simp [displacedBy]
  | cons id rest ih =>
    obtain ⟨new, tail⟩ := List.nodup_cons.mp distinct
    obtain ⟨block, found⟩ := Option.isSome_iff_exists.mp (present id List.mem_cons_self)
    have still : ∀ y ∈ rest, ((g.reshape id extent).block? y).isSome := by
      intro y member
      rw [block?_reshape found, Option.isSome_map]
      exact present y (List.mem_cons_of_mem _ member)
    have lost : g.displacedBy extent (id :: rest)
        = block.displaced extent ++ g.displacedBy extent rest := by simp [displacedBy, found]
    obtain ⟨blocks, roots⟩ := ih tail still
    rw [displacedBy_reshape found extent new] at blocks roots
    rw [List.foldl_cons, lost]
    refine ⟨fun x => ?_, by rw [roots, reshape_roots found, List.append_assoc]⟩
    rw [blocks, block?_reshape found, Option.map_map]
    congr 1
    funext b
    simp only [Function.comp_apply, List.mem_append, List.mem_cons]
    by_cases here : x = id
    · subst here
      by_cases first : x ∈ block.displaced extent <;>
        by_cases later : x ∈ g.displacedBy extent rest <;> simp [new, first, later]
    · by_cases inside : x ∈ rest <;> by_cases first : x ∈ block.displaced extent <;>
        by_cases later : x ∈ g.displacedBy extent rest <;>
        simp [here, inside, first, later, Block.reshape_withParent]

theorem reshapeAll_tables (ids : List BlockId) (extent : Extent) (g : Graph) :
    (ids.foldl (fun g id => g.reshape id extent) g).vars = g.vars ∧
      (ids.foldl (fun g id => g.reshape id extent) g).procedures = g.procedures := by
  induction ids generalizing g with
  | nil => exact ⟨rfl, rfl⟩
  | cons id rest ih =>
    obtain ⟨vars, procedures⟩ := reshape_tables g id extent
    exact ⟨(ih _).1.trans vars, (ih _).2.trans procedures⟩

-- The block has the child at the place.
def HoldsAt (g : Graph) (high : BlockId) (place : Place) (low : BlockId) : Prop :=
  ∃ block, g.block? high = some block ∧ block.held place = some low

-- What reshaping makes of each block and of the roots, if `shapes` tells which blocks get another
-- shape and `lost` are the children that have no place any more.
structure Reshaped (g g' : Graph) (shapes : Block → Option Shape) (lost : List BlockId) : Prop where
  absent : ∀ x, g.block? x = none → g'.block? x = none
  shaped : ∀ x b shape, g.block? x = some b → shapes b = some shape → ∃ b', g'.block? x = some b' ∧
    b.Reshaped b' shape ∧ b'.parent = if x ∈ lost then none else b.parent
  kept : ∀ x b, g.block? x = some b → shapes b = none →
    g'.block? x = some { b with parent := if x ∈ lost then none else b.parent }
  displaced : ∀ y, y ∈ lost ↔ ∃ x b shape place, g.block? x = some b ∧ shapes b = some shape ∧
    b.held place = some y ∧ b.kind.hasPlace shape.extent place = false
  roots : g'.roots = g.roots ++ lost

namespace Reshaped

variable {shapes : Block → Option Shape} {lost : List BlockId}

theorem present (reshaped : g.Reshaped g' shapes lost) {x : BlockId} {b : Block}
    (found : g.block? x = some b) :
    ∃ b', g'.block? x = some b' ∧ b'.parent = if x ∈ lost then none else b.parent := by
  cases given : shapes b with
  | none => exact ⟨_, reshaped.kept x b found given, rfl⟩
  | some shape =>
    obtain ⟨b', found', _, parent⟩ := reshaped.shaped x b shape found given
    exact ⟨b', found', parent⟩

theorem now (reshaped : g.Reshaped g' shapes lost) {x : BlockId} {b b' : Block} {shape : Shape}
    (found : g.block? x = some b) (given : shapes b = some shape) (found' : g'.block? x = some b') :
    b.Reshaped b' shape := by
  obtain ⟨b'', same, now, _⟩ := reshaped.shaped x b shape found given
  cases found'.symm.trans same
  exact now

-- A block has one place at most, so it is lost exactly when that one goes.
theorem mem_lost (reshaped : g.Reshaped g' shapes lost) (linked : g.Linked) {x y : BlockId} {b : Block}
    {place : Place} (found : g.block? x = some b) (holds : b.held place = some y) :
    y ∈ lost ↔ ∃ shape, shapes b = some shape ∧ b.kind.hasPlace shape.extent place = false := by
  rw [reshaped.displaced]
  constructor
  · rintro ⟨x', b', shape, place', found', given, holds', without⟩
    obtain ⟨rfl, rfl⟩ := Wiring.Linked.single linked (wiring_of_block found) holds
      (wiring_of_block found') holds'
    cases found.symm.trans found'
    exact ⟨shape, given, without⟩
  · rintro ⟨shape, given, without⟩
    exact ⟨x, b, shape, place, found, given, holds, without⟩

theorem held_iff (reshaped : g.Reshaped g' shapes lost) (linked : g.Linked) {x y : BlockId}
    {b b' : Block} {place : Place} (found : g.block? x = some b) (found' : g'.block? x = some b') :
    b'.held place = some y ↔ b.held place = some y ∧ y ∉ lost := by
  cases given : shapes b with
  | none =>
    cases found'.symm.trans (reshaped.kept x b found given)
    rw [Block.held_withParent]
    refine (and_iff_left_of_imp fun holds => ?_).symm
    rw [reshaped.mem_lost linked found holds]
    rintro ⟨shape, other, _⟩
    cases given.symm.trans other
  | some shape =>
    rw [(reshaped.now found given found').held, Option.ite_none_right_eq_some, and_comm]
    refine and_congr_right fun holds => ?_
    rw [reshaped.mem_lost linked found holds]
    simp [given]

theorem links (reshaped : g.Reshaped g' shapes lost) (linked : g.Linked) (x : BlockId) (place : Place)
    (y : BlockId) : g'.HoldsAt x place y ↔ g.HoldsAt x place y ∧ y ∉ lost := by
  constructor
  · rintro ⟨b', found', holds⟩
    cases found : g.block? x with
    | none =>
      rw [reshaped.absent x found] at found'
      cases found'
    | some b =>
      obtain ⟨old, stays⟩ := (reshaped.held_iff linked found found').mp holds
      exact ⟨⟨b, found, old⟩, stays⟩
  · rintro ⟨⟨b, found, holds⟩, stays⟩
    obtain ⟨b', found', _⟩ := reshaped.present found
    exact ⟨b', found', (reshaped.held_iff linked found found').mpr ⟨holds, stays⟩⟩

-- No link on a way down is cut if none of the blocks on it is reshaped.
theorem below (reshaped : g.Reshaped g' shapes lost) (linked : g.Linked) {y x : BlockId}
    (plain : ∀ x b, Relation.ReflTransGen g.Holds y x → g.block? x = some b → shapes b = none)
    (way : Relation.TransGen g.Holds y x) :
    Relation.TransGen g'.Holds y x ∧ g'.block? x = g.block? x := by
  have step : ∀ high low, Relation.ReflTransGen g.Holds y high → g.Holds high low →
      g'.Holds high low ∧ g'.block? low = g.block? low := by
    rintro high low above ⟨b, place, found, holds⟩
    have stays : low ∉ lost := by
      rw [reshaped.mem_lost linked found holds]
      rintro ⟨shape, given, _⟩
      cases (plain high b above found).symm.trans given
    obtain ⟨b', found', holds'⟩ :=
      (reshaped.links linked high place low).mpr ⟨⟨b, found, holds⟩, stays⟩
    obtain ⟨c, _, known, _⟩ := linked.holds_iff.mp ⟨b, place, found, holds⟩
    have same := reshaped.kept low c known (plain low c (above.tail ⟨b, place, found, holds⟩) known)
    rw [if_neg stays] at same
    exact ⟨⟨b', place, found', holds'⟩, same.trans known.symm⟩
  induction way with
  | single last =>
    obtain ⟨link, same⟩ := step _ _ .refl last
    exact ⟨.single link, same⟩
  | tail upper last ih =>
    obtain ⟨link, same⟩ := step _ _ upper.to_reflTransGen last
    exact ⟨ih.1.tail link, same⟩

end Reshaped

-- Reshaping as a whole: no block goes, children without a place are roots without a parent, each
-- listed once, no other link is cut and none is made, and what hangs below stays.
structure LosesNothing (g g' : Graph) (shapes : Block → Option Shape) (lost : List BlockId) : Prop
    extends g.Reshaped g' shapes lost where
  ids : ∀ x, (g'.block? x).isSome = (g.block? x).isSome
  freed : ∀ y ∈ lost, ∃ b, g'.block? y = some b ∧ b.parent = none
  once : (g.roots ++ lost).Nodup
  links : ∀ x place y, g'.HoldsAt x place y ↔ g.HoldsAt x place y ∧ y ∉ lost
  below : ∀ y ∈ lost, (∀ x b, Relation.ReflTransGen g.Holds y x → g.block? x = some b → shapes b = none) →
    ∀ x, Relation.TransGen g.Holds y x → Relation.TransGen g'.Holds y x ∧ g'.block? x = g.block? x

theorem Reshaped.losesNothing {shapes : Block → Option Shape} {lost : List BlockId}
    (reshaped : g.Reshaped g' shapes lost) (linked : g.Linked) (linked' : g'.Linked) :
    g.LosesNothing g' shapes lost where
  toReshaped := reshaped
  ids x := by
    cases found : g.block? x with
    | none => rw [reshaped.absent x found]
    | some b =>
      obtain ⟨b', found', _⟩ := reshaped.present found
      rw [found']
      rfl
  freed y member := by
    obtain ⟨x, b, _, place, found, _, holds, _⟩ := (reshaped.displaced y).mp member
    obtain ⟨c, _, known, _⟩ := linked.holds_iff.mp ⟨b, place, found, holds⟩
    obtain ⟨c', known', parent⟩ := reshaped.present known
    exact ⟨c', known', parent.trans (if_pos member)⟩
  once := reshaped.roots ▸ linked'.nodup
  links := reshaped.links linked
  below y _ plain x way := reshaped.below linked plain way

-- Fields may be written first; slots do not depend on them.
theorem Built.reshapeAll_reshaped {base : Graph} (built : base.Built) {shapes : Block → Option Shape}
    {extent : Extent} {ids : List BlockId} (distinct : ids.Nodup)
    (written : ∀ x, base.block? x = (g.block? x).map fun b =>
      (shapes b).elim b fun shape => { b with fields := shape.fields })
    (roots : base.roots = g.roots)
    (listed : ∀ x, x ∈ ids ↔ ∃ b shape, g.block? x = some b ∧ shapes b = some shape)
    (same : ∀ x b shape, g.block? x = some b → shapes b = some shape → shape.extent = extent) :
    g.Reshaped (ids.foldl (fun g id => g.reshape id extent) base) shapes (base.displacedBy extent ids) := by
  have wrote : ∀ x b shape, g.block? x = some b → shapes b = some shape →
      base.block? x = some { b with fields := shape.fields } := by
    intro x b shape found given
    rw [written, found, Option.map_some, given]
    rfl
  have present : ∀ x ∈ ids, (base.block? x).isSome := by
    intro x member
    obtain ⟨b, shape, found, given⟩ := (listed x).mp member
    simp [wrote x b shape found given]
  obtain ⟨blocks, rooted⟩ := reshapeAll_eq (g := base) extent distinct present
  refine ⟨fun x gone => ?_, fun x b shape found given => ?_, fun x b found given => ?_, fun y => ?_, ?_⟩
  · rw [blocks, written, gone]
    rfl
  · have inside := (listed x).mpr ⟨b, shape, found, given⟩
    have slots := (built x _ (wrote x b shape found given)).2.shaped
    obtain rfl := same x b shape found given
    refine ⟨_, (blocks x).trans (congrArg _ (wrote x b shape found given)), ?_⟩
    simp only [inside, if_true]
    split
    · exact ⟨b.reshape_reshaped shape.extent none slots, rfl⟩
    · exact ⟨b.reshape_reshaped shape.extent b.parent slots, rfl⟩
  · have outside : x ∉ ids := by
      rw [listed]
      rintro ⟨b', shape, found', given'⟩
      cases found.symm.trans found'
      cases given.symm.trans given'
    rw [blocks, written, found]
    simp only [Option.map_some, given, Option.elim_none, outside, if_false]
    split <;> rfl
  · rw [displacedBy, List.mem_flatMap]
    constructor
    · rintro ⟨x, member, lost⟩
      obtain ⟨b, shape, found, given⟩ := (listed x).mp member
      rw [wrote x b shape found given] at lost
      obtain ⟨place, holds, without⟩ := Block.mem_displaced.mp lost
      obtain rfl := same x b shape found given
      exact ⟨x, b, shape, place, found, given, by cases place <;> exact holds, without⟩
    · rintro ⟨x, b, shape, place, found, given, holds, without⟩
      refine ⟨x, (listed x).mpr ⟨b, shape, found, given⟩, ?_⟩
      obtain rfl := same x b shape found given
      rw [wrote x b shape found given]
      exact Block.mem_displaced.mpr ⟨place, by cases place <;> exact holds, without⟩
  · rw [rooted, roots]

theorem Built.reshape_reshaped {base : Graph} (built : base.Built) {shapes : Block → Option Shape}
    {shape : Shape} {id : BlockId} {block : Block} (found : g.block? id = some block)
    (given : shapes block = some shape)
    (others : ∀ x b, g.block? x = some b → x ≠ id → shapes b = none)
    (here : base.block? id = some { block with fields := shape.fields })
    (elsewhere : ∀ x, x ≠ id → base.block? x = g.block? x) (roots : base.roots = g.roots) :
    ∃ lost, g.Reshaped (base.reshape id shape.extent) shapes lost := by
  have only : ∀ x b s, g.block? x = some b → shapes b = some s → x = id ∧ s = shape := by
    intro x b s known wanted
    have at' : x = id := by
      by_contra other
      cases (others x b known other).symm.trans wanted
    subst at'
    cases found.symm.trans known
    exact ⟨rfl, Option.some.inj (wanted.symm.trans given)⟩
  refine ⟨_, built.reshapeAll_reshaped (List.nodup_singleton id) (fun x => ?_) roots (fun x => ?_)
    fun x b s known wanted => by rw [(only x b s known wanted).2]⟩
  · by_cases at' : x = id
    · subst at'
      rw [here, found, Option.map_some, given]
      rfl
    · rw [elsewhere x at']
      cases known : g.block? x with
      | none => rfl
      | some b => simp [others x b known at']
  · rw [List.mem_singleton]
    constructor
    · rintro rfl
      exact ⟨block, shape, found, given⟩
    · rintro ⟨b, s, known, wanted⟩
      exact (only x b s known wanted).1

-- No block that is reshaped gets smaller.
def Grows (g : Graph) (shapes : Block → Option Shape) : Prop :=
  ∀ x b shape, g.block? x = some b → shapes b = some shape →
    b.extent.items ≤ shape.extent.items ∧ (b.extent.hasElse = true → shape.extent.hasElse = true)

namespace Reshaped

variable {g'' : Graph} {shapes shapes' : Block → Option Shape} {lost lost' : List BlockId}

theorem grown (reshaped : g.Reshaped g' shapes lost) (built : g.Built) (grows : g.Grows shapes) :
    lost = [] := by
  rw [List.eq_nil_iff_forall_not_mem]
  intro y member
  obtain ⟨x, b, shape, place, found, given, holds, without⟩ := (reshaped.displaced y).mp member
  have has := Block.hasPlace_of_held (built x b found).2.shaped holds
  obtain ⟨items, otherwise⟩ := grows x b shape found given
  rw [Kind.hasPlace_mono items otherwise has] at without
  cases without

-- The slots that were added are empty, so their end displaces nobody.
theorem returned (first : g.Reshaped g' shapes lost) (second : g'.Reshaped g'' shapes' lost')
    (built : g.Built)
    (back : ∀ x b b', g.block? x = some b → g'.block? x = some b' →
      shapes' b' = (shapes b).map fun _ => ⟨b.extent, b.fields⟩) : lost' = [] := by
  rw [List.eq_nil_iff_forall_not_mem]
  intro y member
  obtain ⟨x, b', shape', place, found', given', holds', without⟩ := (second.displaced y).mp member
  cases found : g.block? x with
  | none => cases (first.absent x found).symm.trans found'
  | some b =>
    have again := back x b b' found found'
    rw [given'] at again
    obtain ⟨shape, given, rfl⟩ := Option.map_eq_some_iff.mp again.symm
    have now := first.now found given found'
    rw [now.held, Option.ite_none_right_eq_some] at holds'
    rw [now.kind, Block.hasPlace_of_held (built x b found).2.shaped holds'.2] at without
    cases without

theorem restored (first : g.Reshaped g' shapes lost) (second : g'.Reshaped g'' shapes' lost')
    (built : g.Built) (grows : g.Grows shapes)
    (back : ∀ x b b', g.block? x = some b → g'.block? x = some b' →
      shapes' b' = (shapes b).map fun _ => ⟨b.extent, b.fields⟩) :
    (∀ x, g''.block? x = g.block? x) ∧ g''.roots = g.roots := by
  obtain rfl := first.grown built grows
  obtain rfl := first.returned second built back
  refine ⟨fun x => ?_, by rw [second.roots, first.roots, List.append_nil, List.append_nil]⟩
  cases found : g.block? x with
  | none => exact second.absent x (first.absent x found)
  | some b =>
    cases given : shapes b with
    | none =>
      have found' := first.kept x b found given
      have given' := back x b _ found found'
      rw [given] at given'
      exact second.kept x b found' given'
    | some shape =>
      obtain ⟨b', found', now, parent⟩ := first.shaped x b shape found given
      have given' := back x b b' found found'
      rw [given] at given'
      obtain ⟨b'', found'', then', parent'⟩ := second.shaped x b' _ found' given'
      have slots := (built x b found).2.shaped
      have held : ∀ place, b''.held place = b.held place := by
        intro place
        rw [then'.held, now.held, now.kind]
        cases holds : b.held place with
        | none => simp
        | some child =>
          have has := Block.hasPlace_of_held slots holds
          obtain ⟨items, otherwise⟩ := grows x b shape found given
          rw [if_pos has, if_pos (Kind.hasPlace_mono items otherwise has)]
      rw [found'']
      refine congrArg some (Block.eq_of_held then'.slots slots ?_ ?_ ?_ then'.extent then'.fields ?_ held)
      · exact then'.id.trans now.id
      · exact then'.kind.trans now.kind
      · exact then'.position.trans now.position
      · exact parent'.trans parent

end Reshaped

end Graph
end Blockwork
