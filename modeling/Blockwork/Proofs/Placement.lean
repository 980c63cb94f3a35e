import Mathlib
import Blockwork.Proofs.Reachability

-- Putting a block at a place: exactly when this is possible, and all that changes.
-- A move touches links only, so a moved graph is told by the links of its blocks.
namespace Blockwork

theorem exists_of_isOk {ε α : Type} {x : Except ε α} (accepted : x.isOk = true) : ∃ a, x = .ok a := by
  cases x with
  | error e => cases accepted
  | ok a => exact ⟨a, rfl⟩

namespace Dict

variable {α β γ : Type}

theorem mapEntries_self (d : Dict α) : d.mapEntries (fun _ value => value) = d := by
  ext1 key
  rw [get?_mapEntries]
  exact Option.map_id_apply

theorem mapEntries_mapEntries (d : Dict α) (f : String → α → β) (h : String → β → γ) :
    (d.mapEntries f).mapEntries h = d.mapEntries fun key value => h key (f key value) := by
  ext1 key
  rw [get?_mapEntries, get?_mapEntries, get?_mapEntries, Option.map_map]
  rfl

end Dict

namespace Block

-- The block with another parent and other children at its places.
def rewire (block : Block) (parent : Option ParentLink)
    (hold : Place → Option BlockId → Option BlockId) : Block :=
  { block with
    parent := parent
    inputs := block.inputs.mapEntries fun slot child => hold (.input slot) child
    bodies := block.bodies.mapEntries fun slot child => hold (.body slot) child
    next := hold .next block.next }

@[simp] theorem parent_rewire (block : Block) (parent : Option ParentLink)
    (hold : Place → Option BlockId → Option BlockId) : (block.rewire parent hold).parent = parent := rfl

theorem rewire_rewire (block : Block) (p q : Option ParentLink)
    (first second : Place → Option BlockId → Option BlockId) :
    (block.rewire p first).rewire q second
      = block.rewire q fun place child => second place (first place child) := by
  simp only [rewire, Dict.mapEntries_mapEntries]

theorem rewire_parent (block : Block) (parent : Option ParentLink) :
    block.rewire parent (fun _ child => child) = { block with parent := parent } := by
  simp only [rewire, Dict.mapEntries_self]

theorem hold_eq_rewire (block : Block) (place : Place) (child : Option BlockId) :
    block.hold place child
      = block.rewire block.parent fun other old => if other = place then child else old := by
  cases place <;> simp [hold, rewire, Dict.modify, Dict.mapEntries_self]

-- Places that the block does not have stay absent, so nothing can be put there.
theorem rewire_held {block : Block} (shaped : block.Shaped) {place : Place}
    (has : block.kind.hasPlace block.extent place = true) (parent : Option ParentLink)
    (hold : Place → Option BlockId → Option BlockId) :
    (block.rewire parent hold).held place = hold place (block.held place) := by
  cases place with
  | input slot =>
    obtain ⟨old, found⟩ := Option.isSome_iff_exists.mp
      ((shaped.inputs slot).mpr (Kind.hasPlace_input.mp has))
    simp [rewire, held, found]
  | body slot =>
    obtain ⟨old, found⟩ := Option.isSome_iff_exists.mp
      ((shaped.bodies slot).mpr (Kind.hasPlace_body.mp has))
    simp [rewire, held, found]
  | next => rfl

-- The kind of the block has the place. Only statements are followed by others.
def Declares (block : Block) : Place → Prop
  | .input slot => ∃ check, ⟨slot, .input check⟩ ∈ block.kind.slots block.extent
  | .body slot => ⟨slot, .body⟩ ∈ block.kind.slots block.extent
  | .next => block.kind.connection = .statement

end Block

-- How a block connects that can stand at the place.
def Place.connection : Place → Connection
  | .input _ => .expression
  | .body _ | .next => .statement

namespace Graph

variable {g g' : Graph}

-- The parent of the first block is the second one.
def HangsBelow (g : Graph) (low high : BlockId) : Prop :=
  ∃ block place, g.block? low = some block ∧ block.parent = some ⟨high, place⟩

theorem above_iff {id top : BlockId} :
    g.wiring.Above top id ↔ Relation.ReflTransGen g.HangsBelow id top := by
  constructor
  · rintro ⟨n, climb⟩
    induction climb with
    | here id => exact .refl
    | @up n id top s link found attached _ ih =>
      obtain ⟨block, known, rfl⟩ := block_of_wiring found
      exact .head ⟨block, link.place, known, attached⟩ ih
  · intro chain
    induction chain using Relation.ReflTransGen.head_induction_on with
    | refl => exact .refl _
    | head step _ ih =>
      obtain ⟨block, place, found, attached⟩ := step
      exact .step (wiring_of_block found) attached ih

-- What has to be the case for a block to be put at a place of another one.
structure Attachable (g : Graph) (parent : BlockId) (place : Place) (child : BlockId) (p c : Block) :
    Prop where
  parentFound : g.block? parent = some p
  childFound : g.block? child = some c
  declared : p.Declares place
  free : p.held place = none
  connects : c.kind.connection = place.connection
  typed : ∀ slot expected found, place = .input slot →
    ⟨slot, .input (some expected)⟩ ∈ p.kind.slots p.extent → c.kind.output = some found →
    expected = found
  apart : child ≠ parent
  notAbove : ¬Relation.TransGen g.HangsBelow parent child

theorem asks_iff {parent : Block} {place : Place} {child : Kind} : Asks parent place child ↔
    parent.Declares place ∧ child.connection = place.connection ∧
      ∀ slot expected found, place = .input slot →
        ⟨slot, .input (some expected)⟩ ∈ parent.kind.slots parent.extent →
        child.output = some found → expected = found := by
  cases place with
  | input slot =>
    simp only [Asks, Block.Declares, Place.connection, Kind.slot?_eq_some]
    constructor
    · rintro ⟨connects, check, sort, typed⟩
      refine ⟨⟨check, sort⟩, connects, ?_⟩
      rintro _ expected found ⟨⟩ sort' yields
      have same : check = some expected := by
        have both := (Kind.slot?_eq_some.mpr sort).symm.trans (Kind.slot?_eq_some.mpr sort')
        cases both
        rfl
      exact typed expected found same yields
    · rintro ⟨⟨check, sort⟩, connects, typed⟩
      refine ⟨connects, check, sort, ?_⟩
      rintro expected found rfl yields
      exact typed slot expected found rfl sort yields
  | body slot => simp [Asks, Block.Declares, Place.connection, Kind.slot?_eq_some, and_comm]
  | next => simp [Asks, Block.Declares, Place.connection, and_comm]

theorem Linked.checkAttach_iff (linked : g.Linked) {parent child : BlockId} {place : Place} :
    g.checkAttach parent place child = .ok () ↔ ∃ p c, g.Attachable parent place child p c := by
  rw [checkAttach_eq_ok]
  refine exists_congr fun p => exists_congr fun c => ?_
  constructor
  · rintro ⟨foundParent, foundChild, free, asked, outside⟩
    rw [linked.mem_lineage (by simp [foundParent]), above_iff,
      Relation.reflTransGen_iff_eq_or_transGen, not_or] at outside
    obtain ⟨declared, connects, typed⟩ := asks_iff.mp asked
    exact ⟨foundParent, foundChild, declared, free, connects, typed, outside.1, outside.2⟩
  · rintro ⟨foundParent, foundChild, declared, free, connects, typed, apart, notAbove⟩
    refine ⟨foundParent, foundChild, free, asks_iff.mpr ⟨declared, connects, typed⟩, ?_⟩
    rw [linked.mem_lineage (by simp [foundParent]), above_iff,
      Relation.reflTransGen_iff_eq_or_transGen, not_or]
    exact ⟨apart, notAbove⟩

-- What moves do to blocks, told by links.
def linkOf (g : Graph) (id : BlockId) : Option ParentLink := (g.block? id).bind (·.parent)

theorem linkOf_of_block {id : BlockId} {block : Block} (found : g.block? id = some block) :
    g.linkOf id = block.parent := by rw [linkOf, found, Option.bind_some]

theorem Linked.holder (linked : g.Linked) {id : BlockId} {link : ParentLink}
    (attached : g.linkOf id = some link) :
    ∃ p, g.block? link.parent = some p ∧ p.held link.place = some id := by
  obtain ⟨block, found, above⟩ := Option.bind_eq_some_iff.mp attached
  obtain ⟨s, wired, holds⟩ := linked.up id _ link (wiring_of_block found) above
  obtain ⟨p, known, rfl⟩ := block_of_wiring wired
  exact ⟨p, known, holds⟩

theorem update_rewired (g : Graph) (id : BlockId) {f : Block → Block} {parent : Block → Option ParentLink}
    {hold : Place → Option BlockId → Option BlockId} (rewires : ∀ b, f b = b.rewire (parent b) hold)
    (x : BlockId) : (g.update id f).block? x = (g.block? x).map fun b =>
      b.rewire (if x = id then parent b else b.parent)
        fun place child => if x = id then hold place child else child := by
  rw [block?_update]
  split
  · next here =>
    rw [funext rewires]
  · next other =>
    simp only [Block.rewire_parent]
    exact Option.map_id_apply.symm

theorem block?_unlink (g : Graph) (id x : BlockId) : (g.unlink id).block? x = (g.block? x).map fun b =>
    b.rewire (if x = id then none else b.parent)
      fun place child => if g.linkOf id = some ⟨x, place⟩ then none else child := by
  cases attached : g.linkOf id with
  | some link =>
    have split : g.unlink id = (g.update id fun block => { block with parent := none }).update link.parent
        fun parent => parent.hold link.place none := by
      unfold unlink
      rw [show (g.block? id).bind (·.parent) = some link from attached]
    rw [split, update_rewired _ _ (fun b => Block.hold_eq_rewire b _ _),
      update_rewired _ _ (fun b => (Block.rewire_parent b none).symm), Option.map_map]
    congr 1
    funext b
    simp only [Function.comp_apply, Block.rewire_rewire, Block.parent_rewire, ite_self]
    congr 1
    funext place child
    obtain ⟨parent, here⟩ := link
    have there : some (⟨parent, here⟩ : ParentLink) = some ⟨x, place⟩ ↔ x = parent ∧ place = here := by
      simp [eq_comm]
    simp only [there]
    by_cases at' : x = parent <;> simp [at']
  | none =>
    have split : g.unlink id = { g with roots := g.roots.filter (· != id) } := by
      unfold unlink
      rw [show (g.block? id).bind (·.parent) = none from attached]
    have kept : ∀ b, g.block? x = some b → (if x = id then none else b.parent) = b.parent := by
      intro b found
      split
      · next here => rw [← linkOf_of_block found, here, attached]
      · rfl
    rw [split]
    change g.block? x = _
    cases found : g.block? x with
    | none => rfl
    | some b => simp [kept b found, Block.rewire_parent]

theorem block?_hook (g : Graph) (parent child : BlockId) (place : Place) (x : BlockId) :
    ((g.update parent fun b => b.hold place (some child)).update child
      fun b => { b with parent := some ⟨parent, place⟩ }).block? x = (g.block? x).map fun b =>
      b.rewire (if x = child then some ⟨parent, place⟩ else b.parent)
        fun other old => if x = parent ∧ other = place then some child else old := by
  rw [update_rewired _ _ (fun b => (Block.rewire_parent b _).symm),
    update_rewired _ _ (fun b => Block.hold_eq_rewire b _ _), Option.map_map]
  congr 1
  funext b
  simp only [Function.comp_apply, Block.rewire_rewire, Block.parent_rewire, ite_self]
  congr 1
  funext other old
  by_cases here : x = parent <;> simp [here]

theorem attached_rewired (g : Graph) (parent : BlockId) (place : Place) (child x : BlockId) :
    (g.attached parent place child).block? x = (g.block? x).map fun b =>
      b.rewire (if x = child then some ⟨parent, place⟩ else b.parent) fun other old =>
        if x = parent ∧ other = place then some child
        else if g.linkOf child = some ⟨x, other⟩ then none else old := by
  rw [attached, block?_hook, block?_unlink, Option.map_map]
  congr 1
  funext b
  simp only [Function.comp_apply, Block.rewire_rewire, Block.parent_rewire]
  congr 1
  split <;> rfl

-- All that a move changes: the place that the block leaves is empty, or the block is no root any
-- more, and its new place and its parent name each other.
structure Moved (g g' : Graph) (parent : BlockId) (place : Place) (child : BlockId) : Prop where
  blocks : ∀ x, g'.block? x = (g.block? x).map fun b =>
    b.rewire (if x = child then some ⟨parent, place⟩ else b.parent) fun other old =>
      if x = parent ∧ other = place then some child
      else if g.linkOf child = some ⟨x, other⟩ then none else old
  placed : ∃ p, g'.block? parent = some p ∧ p.held place = some child
  linked : g'.linkOf child = some ⟨parent, place⟩
  vacated : ∀ link, g.linkOf child = some link →
    ∃ p, g'.block? link.parent = some p ∧ p.held link.place = none
  roots : g'.roots = if g.linkOf child = none then g.roots.erase child else g.roots
  vars : g'.vars = g.vars
  procedures : g'.procedures = g.procedures

theorem attached_roots (linked : g.Linked) (parent : BlockId) (place : Place) (child : BlockId) :
    (g.attached parent place child).roots
      = if g.linkOf child = none then g.roots.erase child else g.roots := by
  have same : (g.attached parent place child).roots = (g.unlink child).roots := rfl
  rw [same, linked.nodup.erase_eq_filter]
  unfold unlink
  cases attached : g.linkOf child with
  | none => rw [show (g.block? child).bind (·.parent) = none from attached]; rfl
  | some link => rw [show (g.block? child).bind (·.parent) = some link from attached]; rfl

theorem WellFormed.attached_moved (wf : g.WellFormed) {parent child : BlockId} {place : Place}
    {p c : Block} (can : g.Attachable parent place child p c) :
    g.Moved (g.attached parent place child) parent place child := by
  have rewired := attached_rewired g parent place child
  have has : p.kind.hasPlace p.extent place = true :=
    (asks_iff.mpr ⟨can.declared, can.connects, can.typed⟩).hasPlace
  refine ⟨rewired, ?_, ?_, ?_, attached_roots wf.linked _ _ _, unlink_vars g child,
    unlink_procedures g child⟩
  · refine ⟨_, (rewired parent).trans (congrArg _ can.parentFound), ?_⟩
    rw [Block.rewire_held (wf.built parent p can.parentFound).2.shaped has]
    simp
  · rw [linkOf, rewired, can.childFound]
    exact if_pos rfl
  · intro link attached
    -- The old place is held, so it is not the new one, which is empty.
    obtain ⟨old, found, holds⟩ := wf.linked.holder attached
    have shaped := (wf.built _ old found).2.shaped
    have other : ¬(link.parent = parent ∧ link.place = place) := by
      rintro ⟨rfl, rfl⟩
      cases found.symm.trans can.parentFound
      rw [can.free] at holds
      cases holds
    refine ⟨_, (rewired link.parent).trans (congrArg _ found), ?_⟩
    rw [Block.rewire_held shaped (Block.hasPlace_of_held shaped holds), if_neg other, if_pos attached]

end Graph

-- A block can be put at a place exactly when both blocks exist, the place is there and empty, and
-- the block fits and is not above it. Then nothing changes but the links of the move.
theorem attach_exactly {w : Workspace} (reached : w.Reachable) (parent : BlockId) (place : Place)
    (child : BlockId) :
    ((∃ w' reply, w.apply (.attach parent place child) = .ok (w', reply)) ↔
      ∃ p c, w.graph.Attachable parent place child p c) ∧
    ∀ w' reply, w.apply (.attach parent place child) = .ok (w', reply) →
      reply = .done ∧ w'.serial = w.serial ∧ w.graph.Moved w'.graph parent place child := by
  have wf := reached.wellFormed
  have exact' : ∀ w' reply, w.apply (.attach parent place child) = .ok (w', reply) ↔
      (∃ p c, w.graph.Attachable parent place child p c) ∧ reply = .done ∧
        w' = ⟨w.graph.attached parent place child, w.serial⟩ := by
    intro w' reply
    rw [Workspace.apply, Change.perform, Workspace.keepSerial_iff]
    simp only [Graph.attach_eq_ok, wf.linked.checkAttach_iff, Prod.mk.injEq]
    constructor
    · rintro ⟨_, ⟨can, rfl⟩, rfl, rfl⟩
      exact ⟨can, rfl, rfl⟩
    · rintro ⟨can, rfl, rfl⟩
      exact ⟨_, ⟨can, rfl⟩, rfl, rfl⟩
  constructor
  · constructor
    · rintro ⟨w', reply, made⟩
      exact ((exact' w' reply).mp made).1
    · intro can
      exact ⟨_, _, (exact' _ _).mpr ⟨can, rfl, rfl⟩⟩
  · intro w' reply made
    obtain ⟨⟨p, c, can⟩, rfl, rfl⟩ := (exact' w' reply).mp made
    exact ⟨rfl, rfl, wf.attached_moved can⟩

-- A statement in a body moves behind the block that holds it, and that block not behind the statement.
theorem statement_moves_behind_its_holder :
    let w := (Editing.Session.runAll {} false
      [.edit (.addBlock .ifElse), .edit (.addBlock .print),
        .edit (.attach ⟨"b1"⟩ (.body "DO0") ⟨"b2"⟩)]).1.workspace
    (∃ w', w.apply (.attach ⟨"b1"⟩ .next ⟨"b2"⟩) = .ok (w', .done) ∧
      w.graph.Moved w'.graph ⟨"b1"⟩ .next ⟨"b2"⟩) ∧
    ¬∃ p c, w.graph.Attachable ⟨"b2"⟩ .next ⟨"b1"⟩ p c := by
  have moves : ∀ w : Workspace, w.Reachable → (w.apply (.attach ⟨"b1"⟩ .next ⟨"b2"⟩)).isOk = true →
      ∃ w', w.apply (.attach ⟨"b1"⟩ .next ⟨"b2"⟩) = .ok (w', .done) ∧
        w.graph.Moved w'.graph ⟨"b1"⟩ .next ⟨"b2"⟩ := by
    intro w reached accepted
    obtain ⟨⟨w', reply⟩, made⟩ := exists_of_isOk accepted
    obtain ⟨rfl, _, moved⟩ := (attach_exactly reached _ _ _).2 w' reply made
    exact ⟨w', made, moved⟩
  have refused : ∀ w : Workspace, w.Reachable → (w.apply (.attach ⟨"b2"⟩ .next ⟨"b1"⟩)).isOk = false →
      ¬∃ p c, w.graph.Attachable ⟨"b2"⟩ .next ⟨"b1"⟩ p c := by
    intro w reached failed can
    obtain ⟨w', reply, made⟩ := (attach_exactly reached _ _ _).1.mpr can
    rw [made] at failed
    cases failed
  have reached := Editing.Session.runAll_reachable false
  exact ⟨moves _ (reached _) (by decide +kernel), refused _ (reached _) (by decide +kernel)⟩

end Blockwork
