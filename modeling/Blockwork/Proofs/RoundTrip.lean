import Mathlib
import Blockwork.Generation.Program
import Blockwork.Proofs.SavedTables

-- A saved graph is restored as it was. After the blocks have their fields they
-- are linked one by one, laid out, and the roots are put in order.
namespace Blockwork

theorem Graph.block?_attached {g : Graph} {parent child : BlockId} {place : Place} {c : Block}
    (found : g.block? child = some c) (free : c.parent = none) (x : BlockId) :
    (g.attached parent place child).block? x = (g.block? x).map fun b =>
      let held := if x = parent then b.hold place (some child) else b
      if x = child then { held with parent := some ⟨parent, place⟩ } else held := by
  unfold attached
  rw [unlink_root found free, block?_update, block?_update]
  have same : { g with roots := g.roots.filter (· != child) }.block? x = g.block? x := rfl
  rw [same]
  cases g.block? x with
  | none => simp
  | some b =>
    by_cases atParent : x = parent
    · simp only [if_pos atParent, Option.map_some]
      split <;> rfl
    · simp only [if_neg atParent, Option.map_some]
      split <;> rfl

namespace Snapshot

open Blockwork.Graph

variable {g : Graph}

-- The blocks of the graph with some links made and some blocks laid out.
def partly (g : Graph) (linked placed : List BlockId) (x : BlockId) : Option Block :=
  (g.block? x).map (Block.strip linked placed)

theorem climb_of_partly {w : Workspace} {linked placed : List BlockId}
    (holds : Holds g w (partly g linked placed)) {n : Nat} {low top : BlockId}
    (climb : w.graph.wiring.Climb n low top) : g.wiring.Climb n low top := by
  induction climb with
  | here id => exact .here id
  | @up n id top s link found attached _ ih =>
    obtain ⟨b, known, rfl⟩ := block_of_wiring found
    rw [holds.blocks] at known
    obtain ⟨block, there, rfl⟩ := Option.map_eq_some_iff.mp known
    have above : block.parent = some link := by
      have parent : (if block.id ∈ linked then block.parent else none) = some link := attached
      split at parent
      · exact parent
      · cases parent
    exact .up (wiring_of_block there) above ih

theorem filter_more {held : Option BlockId} {child : BlockId} (linked : List BlockId)
    (other : held ≠ some child) : held.filter (· ∈ child :: linked) = held.filter (· ∈ linked) := by
  cases held with
  | none => rfl
  | some c =>
    have different : c ≠ child := fun same => other (congrArg some same)
    simp [Option.filter, different]

-- The link to a child whose place is known.
section

-- One more child is linked: what this is for the child, for its parent and for all other blocks.
variable {linked placed : List BlockId} {block : Block} {child : BlockId} (shaped : block.Shaped)

include shaped

theorem strip_child (own : block.id = child) (unheld : ∀ place, block.held place ≠ some child) :
    { block.strip linked placed with parent := block.parent } = block.strip (child :: linked) placed := by
  have before := Block.strip_shaped shaped linked placed
  refine Block.eq_of_held ⟨before.fields, before.inputs, before.bodies⟩
    (Block.strip_shaped shaped _ placed) rfl rfl rfl rfl rfl (by simp [Block.strip, own]) fun place => ?_
  rw [Block.strip_held, filter_more linked (unheld place), ← Block.strip_held linked placed]
  cases place <;> rfl

theorem strip_parent (different : block.id ≠ child) {place : Place} (held : block.held place = some child)
    (only : ∀ other, block.held other = some child → other = place) :
    (block.strip linked placed).hold place (some child) = block.strip (child :: linked) placed := by
  have before := Block.strip_shaped shaped linked placed
  refine Block.eq_of_held (Block.hold_shaped before _ _) (Block.strip_shaped shaped _ placed)
    (Block.hold_id _ _ _) (Block.hold_kind _ _ _) (Block.hold_position _ _ _) (Block.hold_extent _ _ _)
    (Block.hold_fields _ _ _) ((Block.hold_parent _ _ _).trans (by simp [Block.strip, different]))
    fun other => ?_
  by_cases there : other = place
  · rw [there, Block.held_hold_same before (Block.hasPlace_of_held shaped held), Block.strip_held, held]
    simp [Option.filter]
  · rw [Block.held_hold_ne _ _ there, Block.strip_held, Block.strip_held,
      filter_more linked fun same => there (only other same)]

theorem strip_other (different : block.id ≠ child) (unheld : ∀ place, block.held place ≠ some child) :
    block.strip linked placed = block.strip (child :: linked) placed := by
  refine Block.eq_of_held (Block.strip_shaped shaped linked placed) (Block.strip_shaped shaped _ placed)
    rfl rfl rfl rfl rfl (by simp [Block.strip, different]) fun place => ?_
  rw [Block.strip_held, Block.strip_held, filter_more linked (unheld place)]

end

theorem attach_step (wf : g.WellFormed) {w : Workspace} {linked placed : List BlockId}
    (holds : Holds g w (partly g linked placed)) {block : Block} {place : Place} {child : BlockId}
    (known : g.block? block.id = some block) (held : block.held place = some child)
    (loose : child ∉ linked) :
    ∃ w', editAll w [.attach block.id place child] = .ok w' ∧
      Holds g w' (partly g (child :: linked) placed) := by
  obtain ⟨c, foundChild, rfl, above, _⟩ := wf.linked.child wf.built known held
  have wired := wiring_of_block foundChild
  have parentNow : w.graph.block? block.id = some (block.strip linked placed) := by
    rw [holds.blocks, partly, known]
    rfl
  have childNow : w.graph.block? c.id = some (c.strip linked placed) := by
    rw [holds.blocks, partly, foundChild]
    rfl
  have free : (c.strip linked placed).parent = none := if_neg loose
  have empty : (block.strip linked placed).held place = none := by
    rw [Block.strip_held, held]
    simp [loose]
  have asked : Asks (block.strip linked placed) place (c.strip linked placed).kind := by
    obtain ⟨t, wired', _, accepts⟩ := wf.linked.down _ _ place c.id (wiring_of_block known) held
    cases wired.symm.trans wired'
    have fine : Asks block place c.kind := wf.asks known held accepts
    cases place <;> exact fine
  have apart : c.id ∉ w.graph.lineage block.id := by
    intro listed
    obtain ⟨n, climb⟩ := above_of_mem_lineageTo listed
    exact wf.linked.not_above_parent wired above ⟨n, climb_of_partly holds climb⟩
  have checked := checkAttach_eq_ok.mpr
    ⟨_, _, parentNow, childNow, empty, asked, apart⟩
  refine holds.edit rfl (attach_eq_ok.mpr ⟨checked, rfl⟩) (unlink_vars _ _) (unlink_procedures _ _)
    fun x => ?_
  rw [block?_attached childNow free, holds.blocks, partly, partly, Option.map_map]
  cases here : g.block? x with
  | none => rfl
  | some d =>
    obtain ⟨own, proper⟩ := wf.built x d here
    -- A place holds the child only if it is the one that is being linked.
    have only : ∀ other, d.held other = some c.id → x = block.id ∧ other = place := fun other held' =>
      Wiring.Linked.single wf.linked (wiring_of_block here) held' (wiring_of_block known) held
    have different : c.id ≠ block.id := by
      intro same
      exact wf.linked.not_above_parent wired above (same ▸ .refl _)
    refine congrArg some ?_
    simp only [Function.comp_apply]
    by_cases atChild : x = c.id
    · have elsewhere : x ≠ block.id := fun same => different (atChild.symm.trans same)
      rw [if_pos atChild, if_neg elsewhere]
      rw [atChild, foundChild] at here
      cases here
      rw [← above]
      exact strip_child proper.shaped rfl fun other same => elsewhere (only other same).1
    · rw [if_neg atChild]
      by_cases atParent : x = block.id
      · rw [if_pos atParent]
        rw [atParent, known] at here
        cases here
        exact strip_parent proper.shaped different.symm held fun other same => (only other same).2
      · rw [if_neg atParent]
        exact strip_other proper.shaped (own ▸ atChild) fun other same => atParent (only other same).1

theorem attachAll (wf : g.WellFormed) {w : Workspace} {linked placed : List BlockId}
    (holds : Holds g w (partly g linked placed)) {block : Block}
    (known : g.block? block.id = some block) {links : List (Place × BlockId)}
    (held : ∀ link ∈ links, block.held link.1 = some link.2) (once : links.Nodup)
    (loose : ∀ link ∈ links, link.2 ∉ linked) :
    ∃ w' linked', editAll w (links.map fun link => .attach block.id link.1 link.2) = .ok w' ∧
      Holds g w' (partly g linked' placed) ∧
      ∀ x, x ∈ linked' ↔ x ∈ linked ∨ ∃ place, (place, x) ∈ links := by
  induction links generalizing w linked with
  | nil => exact ⟨w, linked, rfl, holds, by simp⟩
  | cons link rest ih =>
    obtain ⟨place, child⟩ := link
    obtain ⟨new, tail⟩ := List.nodup_cons.mp once
    rw [List.forall_mem_cons] at held loose
    obtain ⟨mid, first, settled⟩ := attach_step wf holds known held.1 loose.1
    -- The same child does not come again at another place.
    have later : ∀ other ∈ rest, other.2 ∉ child :: linked := by
      rintro ⟨place', child'⟩ member again
      rcases List.mem_cons.mp again with same | old
      · have there := held.2 _ member
        have wired := wiring_of_block known
        have same : child' = child := same
        subst same
        obtain ⟨_, rfl⟩ := Wiring.Linked.single wf.linked wired held.1 wired there
        exact new member
      · exact loose.2 _ member old
    obtain ⟨w', linked', second, reached, members⟩ := ih settled held.2 tail later
    refine ⟨w', linked', (editAll_append first).trans second, reached, fun x => ?_⟩
    rw [members, List.mem_cons]
    constructor
    · rintro ((rfl | old) | ⟨place', member⟩)
      · exact .inr ⟨place, List.mem_cons_self⟩
      · exact .inl old
      · exact .inr ⟨place', List.mem_cons_of_mem _ member⟩
    · rintro (old | ⟨place', member⟩)
      · exact .inl (.inr old)
      · rcases List.mem_cons.mp member with same | member
        · cases same
          exact .inl (.inl rfl)
        · exact .inr ⟨place', member⟩

theorem place_step {w : Workspace} {linked placed : List BlockId}
    (holds : Holds g w (partly g linked placed)) (built : g.Built) {block : Block}
    (known : g.block? block.id = some block) :
    ∃ w', editAll w (block.position.toList.map (.setPosition block.id)) = .ok w' ∧
      Holds g w' (partly g linked (block.id :: placed)) := by
  have now : w.graph.block? block.id = some (block.strip linked placed) := by
    rw [holds.blocks, partly, known]
    rfl
  have others : ∀ x, x ≠ block.id →
      partly g linked (block.id :: placed) x = partly g linked placed x := by
    intro x other
    unfold partly
    cases here : g.block? x with
    | none => rfl
    | some d =>
      have different : d.id ≠ block.id := fun same => other ((built x d here).1.symm.trans same)
      simp [Block.strip, different]
  cases position : block.position with
  | none =>
    refine ⟨w, rfl, holds.wf, holds.vars, holds.procedures, fun x => ?_⟩
    rw [holds.blocks]
    by_cases here : x = block.id
    · simp [partly, here, known, Block.strip, position]
    · exact (others x here).symm
  | some p =>
    refine holds.edit rfl (setPosition_eq_ok.mpr ⟨⟨_, now⟩, rfl⟩) rfl rfl fun x => ?_
    rw [block?_update]
    split
    · next here => simp [here, now, partly, known, Block.strip, position]
    · next other => rw [holds.blocks, others x other]

theorem linkAll (wf : g.WellFormed) {order : List Block} {planned : List Planned}
    (plans : List.Forall₂ Plans order planned) (distinct : (order.map (·.id)).Nodup)
    (known : ∀ b ∈ order, g.block? b.id = some b) {w : Workspace} {linked placed : List BlockId}
    (holds : Holds g w (partly g linked placed))
    (loose : ∀ b ∈ order, ∀ place child, b.held place = some child → child ∉ linked) :
    ∃ w' linked' placed', editAll w (planned.flatMap Planned.linkEdits) = .ok w' ∧
      Holds g w' (partly g linked' placed') ∧ (∀ x ∈ linked, x ∈ linked') ∧
      (∀ x ∈ placed, x ∈ placed') ∧ ∀ b ∈ order, b.id ∈ placed' ∧
        ∀ place child, b.held place = some child → child ∈ linked' := by
  induction plans generalizing w linked placed with
  | nil => exact ⟨w, linked, placed, rfl, holds, fun _ => id, fun _ => id, by simp⟩
  | @cons block p rest ps one _ ih =>
    obtain ⟨new, tail⟩ := List.nodup_cons.mp distinct
    rw [List.forall_mem_cons] at known loose
    have held : ∀ link ∈ p.children, block.held link.1 = some link.2 := fun link member =>
      (one.children link.1 link.2).mp member
    obtain ⟨mid, linked', first, settled, members⟩ := attachAll wf holds known.1 held one.once
      fun link member => loose.1 _ _ (held link member)
    obtain ⟨mid', second, settled'⟩ := place_step settled wf.built known.1
    -- Children of other blocks are still loose: a child has one place only.
    have later : ∀ b ∈ rest, ∀ place child, b.held place = some child → child ∉ linked' := by
      intro b member place child holds' inside
      rcases (members child).mp inside with old | ⟨place', link⟩
      · exact loose.2 b member place child holds' old
      · obtain ⟨same, _⟩ := Wiring.Linked.single wf.linked (wiring_of_block (known.2 b member)) holds'
          (wiring_of_block known.1) ((one.children place' child).mp link)
        exact new (List.mem_map.mpr ⟨b, member, same⟩)
    obtain ⟨w', linked'', placed'', third, reached, more, laid, all⟩ := ih tail known.2 settled' later
    have edits : p.linkEdits = (p.children.map fun link => .attach block.id link.1 link.2)
        ++ block.position.toList.map (.setPosition block.id) := by
      rw [Planned.linkEdits, one.id, one.position]
    refine ⟨w', linked'', placed'', ?_, reached, ?_, ?_, ?_⟩
    · rw [List.flatMap_cons, edits, List.append_assoc, editAll_append first, editAll_append second]
      exact third
    · exact fun x old => more x ((members x).mpr (.inl old))
    · exact fun x old => laid x (List.mem_cons_of_mem _ old)
    · refine List.forall_mem_cons.mpr ⟨⟨laid _ List.mem_cons_self, fun place child holds' => ?_⟩, all⟩
      exact more child ((members child).mpr (.inr ⟨place, (one.children place child).mpr holds'⟩))

-- The next root is taken out of what comes after the roots already in order.
theorem reorder_step {roots before after : List BlockId} {id : BlockId} {later : List BlockId}
    (same : roots.Perm (before ++ id :: later)) (once : roots.Nodup)
    (split : roots = before ++ after) :
    ∃ rest, (roots.erase id).take before.length ++ id :: (roots.erase id).drop before.length
      = before ++ id :: rest := by
  have distinct := same.nodup_iff.mp once
  have outside : id ∉ before := by
    intro inside
    rw [List.nodup_append] at distinct
    exact distinct.2.2 id inside id List.mem_cons_self rfl
  refine ⟨(after.erase id), ?_⟩
  rw [split, List.erase_append_right _ outside, List.take_left, List.drop_left]

theorem orderAll {target : List BlockId} {w : Workspace} {before : List BlockId}
    (wf : w.graph.WellFormed) (same : w.graph.roots.Perm (before ++ target))
    (split : ∃ after, w.graph.roots = before ++ after) :
    ∃ w', editAll w ((target.zipIdx before.length).map fun e => .reorderRoot e.1 e.2) = .ok w' ∧
      w'.graph = { w.graph with roots := before ++ target } := by
  induction target generalizing w before with
  | nil =>
    obtain ⟨after, whole⟩ := split
    have short : after = [] := by
      have lengths := same.length_eq
      rw [whole] at lengths
      simpa using lengths
    refine ⟨w, rfl, ?_⟩
    rw [short] at whole
    rw [← whole]
  | cons id later ih =>
    obtain ⟨after, whole⟩ := split
    have listed : id ∈ w.graph.roots := same.symm.subset (by simp)
    obtain ⟨block, found, _⟩ := wf.linked.root.mp listed
    obtain ⟨rest, moved⟩ := reorder_step same wf.linked.nodup whole
    have made : w.graph.after (.reorderRoot id before.length)
        = .ok { w.graph with roots := before ++ id :: rest } :=
      reorderRoot_eq_ok.mpr ⟨⟨block, found⟩, listed, by rw [moved]⟩
    have applied : w.apply (.reorderRoot id before.length)
        = .ok (⟨{ w.graph with roots := before ++ id :: rest }, w.serial⟩, .done) :=
      Workspace.keepSerial_made made
    have wf' := Workspace.apply_wellFormed wf applied
    have perm : (before ++ id :: rest).Perm w.graph.roots := by
      rw [← moved]
      refine List.perm_middle.trans ?_
      rw [List.take_append_drop]
      exact (List.perm_cons_erase listed).symm
    have count : before.length + 1 = (before ++ [id]).length := by simp
    have again : before ++ id :: rest = (before ++ [id]) ++ rest := by simp
    have ahead : (before ++ id :: rest).Perm ((before ++ [id]) ++ later) := by
      rw [List.append_assoc]
      exact perm.trans same
    obtain ⟨w', second, reached⟩ := ih wf' ahead ⟨rest, again⟩
    refine ⟨w', ?_, ?_⟩
    · rw [List.zipIdx_cons, List.map_cons, editAll, edit_eq_ok.mpr ⟨_, applied⟩, count]
      exact second
    · rw [reached]
      simp

-- All stages up to the links: the blocks are there and filled.
theorem buildAll (wf : g.WellFormed) {order : List Block} {planned : List Planned}
    (plans : List.Forall₂ Plans order planned) (distinct : (order.map (·.id)).Nodup)
    (known : ∀ b, b ∈ order ↔ g.block? b.id = some b) {w : Workspace}
    (holds : Holds g w fun x => (g.block? x).bind fun b =>
      if b.kind.isDefinition then some (b.strip [] []) else none) :
    ∃ w', editAll w (planned.flatMap Planned.addEdits ++ planned.flatMap Planned.extentEdits
      ++ planned.flatMap Planned.fieldEdits) = .ok w' ∧ Holds g w' (partly g [] []) := by
  have there : ∀ b ∈ order, g.block? b.id = some b := fun b => (known b).mp
  obtain ⟨w₁, blocks₁, first, holds₁, added, kept₁⟩ := phase
    (fun _ _ _ _ plans _ holds ready => add_step plans holds ready) plans distinct there holds
    (fun b member => by rw [there b member]; rfl)
  obtain ⟨w₂, blocks₂, second, holds₂, grown, kept₂⟩ := phase
    (fun _ _ _ _ plans known holds ready => grow_step wf plans known holds ready) plans distinct
    there holds₁ added
  obtain ⟨w₃, blocks₃, third, holds₃, filled, kept₃⟩ := phase
    (fun _ _ _ _ plans known holds ready => fill_step wf plans known holds ready) plans distinct
    there holds₂ grown
  refine ⟨w₃, ?_, holds₃.wf, holds₃.vars, holds₃.procedures, fun x => ?_⟩
  · rw [List.append_assoc, editAll_append first, editAll_append second]
    exact third
  · rw [holds₃.blocks, partly]
    cases found : g.block? x with
    | some b =>
      obtain ⟨rfl, _⟩ := wf.built x b found
      exact filled b ((known b).mpr found)
    | none =>
      have outside : x ∉ order.map (·.id) := by
        intro listed
        obtain ⟨b, member, rfl⟩ := List.mem_map.mp listed
        rw [there b member] at found
        cases found
      rw [kept₃ x outside, kept₂ x outside, kept₁ x outside, found]
      rfl

theorem orderEdits_capture (wf : g.WellFormed) : orderEdits (capture g)
    = (g.roots.zipIdx ([] : List BlockId).length).map fun e => .reorderRoot e.1 e.2 := by
  rw [orderEdits, capture, ← wf.linked.forest_roots wf.built]
  simp [List.zipIdx_map, captureTree_id, Function.comp_def]

-- Carrying out a plan of all blocks, in whatever order it lists them, gives the graph.
theorem script_ok (wf : g.WellFormed) {w₀ : Workspace} {form : Form} {planned : List Planned}
    (holds₀ : Holds g w₀ fun x => (g.block? x).bind fun b =>
      if b.kind.isDefinition then some (b.strip [] []) else none)
    (covers : Covers planned (g.forest.flatMap Tree.blocks)) (order : orderEdits form = orderEdits (capture g)) :
    ∃ w, editAll w₀ (script form planned) = .ok w ∧ w.graph = g := by
  obtain ⟨blocks, perm, plans⟩ := covers
  have distinct : (blocks.map (·.id)).Nodup :=
    (perm.map _).nodup_iff.mpr (wf.linked.forest_nodup wf.built)
  have known : ∀ b, b ∈ blocks ↔ g.block? b.id = some b := fun b =>
    perm.mem_iff.trans (wf.linked.mem_forest_blocks wf.built)
  obtain ⟨w₁, built, holds₁⟩ := buildAll wf plans distinct known holds₀
  obtain ⟨w₂, linked, placed, joined, holds₂, _, _, all⟩ := linkAll wf plans distinct
    (fun b => (known b).mp) holds₁ (by simp)
  -- With all links made the blocks are those of the graph.
  have same : ∀ x, w₂.graph.block? x = g.block? x := by
    intro x
    rw [holds₂.blocks, partly]
    cases found : g.block? x with
    | none => rfl
    | some b =>
      obtain ⟨rfl, proper⟩ := wf.built x b found
      obtain ⟨laid, children⟩ := all b ((known b).mpr found)
      refine congrArg some (Block.strip_all proper.shaped laid (fun attached => ?_) children)
      obtain ⟨link, above⟩ := Option.ne_none_iff_exists'.mp attached
      obtain ⟨s, wired, held⟩ := wf.linked.up _ _ link (wiring_of_block found) above
      obtain ⟨parent, found', rfl⟩ := block_of_wiring wired
      obtain ⟨own, _⟩ := wf.built _ parent found'
      exact (all parent ((known parent).mpr (own ▸ found'))).2 link.place b.id held
  have blocks : w₂.graph.blocks = g.blocks := Dict.ext_get? fun key => same ⟨key⟩
  have roots : w₂.graph.roots.Perm ([] ++ g.roots) := by
    refine (List.perm_ext_iff_of_nodup holds₂.wf.linked.nodup wf.linked.nodup).mpr fun x => ?_
    rw [holds₂.wf.linked.root, wf.linked.root, same]
  obtain ⟨w₃, ordered, reached⟩ := orderAll holds₂.wf roots ⟨_, rfl⟩
  refine ⟨w₃, ?_, ?_⟩
  · rw [script, List.append_assoc, editAll_append built, editAll_append joined, order, orderEdits_capture wf]
    exact ordered
  · rw [reached, List.nil_append]
    show Graph.mk w₂.graph.blocks g.roots w₂.graph.vars w₂.graph.procedures = g
    rw [blocks, holds₂.vars, holds₂.procedures]

theorem restore_capture (wf : g.WellFormed) : ∃ w, restore (capture g) = .ok w ∧ w.graph = g := by
  obtain ⟨w₀, declared, holds₀⟩ := declareTables_ok wf
  obtain ⟨planned, made, covers⟩ := planAll_ok wf holds₀.procedures
    fun tree => wf.linked.forest_full wf.built
  obtain ⟨w, carried, reached⟩ := script_ok wf holds₀ covers rfl
  exact ⟨w, bind_eq_ok.mpr ⟨w₀, declared, bind_eq_ok.mpr ⟨planned, made, carried⟩⟩, reached⟩

end Snapshot

-- Without not-a-number everything equals itself.
theorem Dict.agrees_self {α : Type} {same : α → α → Bool} {d : Dict α}
    (self : ∀ v ∈ d.values, same v v = true) : d.agrees same d = true := by
  have entries : ∀ entries : List (String × α), (∀ e ∈ entries, same e.2 e.2 = true) →
      agreeing same entries entries = true := by
    intro entries
    induction entries with
    | nil => exact fun _ => rfl
    | cons e rest ih =>
      intro all
      rw [List.forall_mem_cons] at all
      rw [agreeing, all.1, ih all.2]
      simp
  refine entries d.entries fun e member => self e.2 ?_
  exact Dict.mem_values.mpr ⟨e.1, Dict.mem_entries.mp member⟩

theorem Double.equals_self {value : Double} (number : value ≠ .nan) : value.equals value = true := by
  cases value with
  | nan => exact absurd rfl number
  | infinite negative => simp [equals]
  | finite negative rank => simp [equals]

def Block.Numeric (block : Block) : Prop :=
  (∀ value ∈ block.fields.values, value ≠ .number .nan) ∧
    ∀ position ∈ block.position, position.x ≠ .nan ∧ position.y ≠ .nan

instance (block : Block) : Decidable block.Numeric := inferInstanceAs (Decidable (_ ∧ _))

def Graph.Numeric (g : Graph) : Prop := ∀ block ∈ g.blocks.values, block.Numeric

instance (g : Graph) : Decidable g.Numeric := inferInstanceAs (Decidable (∀ block ∈ _, _))

theorem Block.Numeric.equals_self {block : Block} (numeric : block.Numeric) :
    block.equals block = true := by
  have fields : block.fields.agrees FieldValue.equals block.fields = true := by
    refine Dict.agrees_self fun value member => ?_
    have number := numeric.1 value member
    cases value with
    | number value => exact Double.equals_self fun same => number (congrArg _ same)
    | _ => simp [FieldValue.equals]
  unfold Block.equals
  rw [fields]
  cases position : block.position with
  | none => simp
  | some p =>
    obtain ⟨x, y⟩ := numeric.2 p position
    simp [Double.equals_self x, Double.equals_self y]

theorem Graph.Numeric.equals_self {g : Graph} (numeric : g.Numeric) : g.equals g = true := by
  have blocks := Dict.agrees_self fun block member => (numeric block member).equals_self
  simp [Graph.equals, blocks]

-- The round trip gives back the graph itself, so whatever is computed from it is the same.
theorem restore_capture_equal {w : Workspace} (reached : w.Reachable) (numeric : w.graph.Numeric) :
    ∃ w', Snapshot.restore (Snapshot.capture w.graph) = .ok w' ∧
      w'.graph.equals w.graph = true ∧ w'.graph = w.graph ∧
      Snapshot.capture w'.graph = Snapshot.capture w.graph ∧
      ∀ options, Generation.compile w'.graph options = Generation.compile w.graph options := by
  obtain ⟨w', restored, same⟩ := Snapshot.restore_capture reached.wellFormed
  refine ⟨w', restored, ?_, same, ?_, ?_⟩
  · rw [same]
    exact numeric.equals_self
  · rw [same]
  · rw [same]
    exact fun options => rfl

theorem infinite_argument_restored :
    let w := (Editing.Session.runAll {} false
      [.edit (.createVariable "n"), .edit (.createProcedure "twice" [⟨"v1"⟩] true),
        .edit (.addBlock .print), .edit (.addBlock (.call true)), .edit (.addBlock .number),
        .edit (.setField ⟨"b5"⟩ "NAME" (.procedureRef ⟨"p2"⟩)),
        .edit (.setField ⟨"b6"⟩ "NUM" (.number (.infinite true))),
        .edit (.attach ⟨"b4"⟩ (.input "TEXT") ⟨"b5"⟩),
        .edit (.attach ⟨"b5"⟩ (.input "ARG0") ⟨"b6"⟩),
        .edit (.reorderRoot ⟨"b4"⟩ 0)]).1.workspace
    w.graph.roots = [⟨"b4"⟩, ⟨"b3"⟩] ∧ w.graph.size = 4 ∧
      ∃ w', Snapshot.restore (Snapshot.capture w.graph) = .ok w' ∧
        w'.graph.equals w.graph = true ∧ w'.graph = w.graph ∧
        Snapshot.capture w'.graph = Snapshot.capture w.graph ∧
        ∀ options, Generation.compile w'.graph options = Generation.compile w.graph options :=
  ⟨by decide +kernel, by decide +kernel,
    restore_capture_equal (Editing.Session.runAll_reachable false _) (by decide +kernel)⟩

end Blockwork
