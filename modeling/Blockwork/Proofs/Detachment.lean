import Mathlib
import Blockwork.Proofs.Reshaping

-- Taking a block off its place and putting it back. Whatever was asked when the link was made
-- still holds of it, so the place takes the block again, and nothing tells that it was away.
namespace Blockwork

-- What a place holds already can be put there without a change.
theorem Block.hold_held {block : Block} {place : Place} {child : BlockId}
    (holds : block.held place = some child) : block.hold place (some child) = block := by
  have same : ∀ {slots : Dict (Option BlockId)} {slot : String},
      (slots.get? slot).join = some child → (slots.modify slot fun _ => some child) = slots := by
    intro slots slot there
    ext1 name
    rw [Dict.get?_modify]
    split
    · next here =>
      rw [here, Option.join_eq_some_iff.mp there]
      rfl
    · rfl
  cases place with
  | input slot => rw [hold, same holds]
  | body slot => rw [hold, same holds]
  | next => rw [hold, ← show block.next = some child from holds]

namespace Graph

variable {g : Graph}

-- The graph after a block was taken off its place.
def detached (g : Graph) (id : BlockId) : Graph :=
  { g.unlink id with roots := (g.unlink id).roots ++ [id] }

section
variable {id : BlockId} {block : Block} {link : ParentLink}

theorem detached_roots (found : g.block? id = some block) (attached : block.parent = some link) :
    (g.detached id).roots = g.roots ++ [id] := by
  rw [detached, unlink_attached found attached]
  rfl

theorem detached_linkOf (found : g.block? id = some block) : (g.detached id).linkOf id = none := by
  have free : (g.detached id).block? id = (g.unlink id).block? id := rfl
  rw [linkOf, free, block?_unlink, found, Option.map_some, Option.bind_some, Block.parent_rewire,
    if_pos rfl]

-- The place that was left is empty.
theorem detached_vacant (wf : g.WellFormed) (found : g.block? id = some block)
    (attached : block.parent = some link) :
    ∃ p, g.block? link.parent = some p ∧ p.held link.place = some id ∧
      ∃ p', (g.detached id).block? link.parent = some p' ∧ p'.held link.place = none ∧
        p'.kind = p.kind ∧ p'.extent = p.extent := by
  have above := (linkOf_of_block found).trans attached
  obtain ⟨p, known, holds⟩ := wf.linked.holder above
  have shaped := (wf.built _ p known).2.shaped
  refine ⟨p, known, holds, _, (block?_unlink g id link.parent).trans (congrArg _ known), ?_, rfl, rfl⟩
  rw [Block.rewire_held shaped (Block.hasPlace_of_held shaped holds), if_pos above]

-- The block is not above its former parent, and it still fits the place there.
theorem WellFormed.detached_admits (wf : g.WellFormed) (found : g.block? id = some block)
    (attached : block.parent = some link) :
    (g.detached id).checkAttach link.parent link.place id = .ok () := by
  obtain ⟨p, known, holds, p', known', vacant, kind, extent⟩ := detached_vacant wf found attached
  have linked' : (g.detached id).Linked := wf.linked.detached found attached
  obtain ⟨c, there, _, asks⟩ := wf.lawful.children _ p _ id known holds
  cases found.symm.trans there
  have child : (g.detached id).block? id = some _ :=
    (block?_unlink g id id).trans (congrArg _ found)
  refine checkAttach_eq_ok.mpr ⟨p', _, known', child, vacant, ?_, ?_⟩
  · rw [asks_iff] at asks ⊢
    simp only [Block.Declares, kind, extent] at asks ⊢
    exact asks
  · rw [linked'.mem_lineage (by simp [known'])]
    rintro ⟨n, climb⟩
    have wiring : (g.detached id).wiring = g.wiring.cut [id] := wf.linked.unlink_wiring found attached
    rw [wiring] at climb
    exact wf.linked.not_above_parent (wiring_of_block found) attached ⟨n, climb.of_cut⟩

-- The two changes of the roots cancel, and so do those of the links.
theorem WellFormed.attached_detached (wf : g.WellFormed) (found : g.block? id = some block)
    (attached : block.parent = some link) :
    (g.detached id).attached link.parent link.place id = g := by
  obtain ⟨parent, place⟩ := link
  have above : g.linkOf id = some ⟨parent, place⟩ := (linkOf_of_block found).trans attached
  have free := detached_linkOf found
  obtain ⟨p, known, holds, _⟩ := detached_vacant wf found attached
  have outside : id ∉ g.roots :=
    Wiring.Linked.not_root_of_attached wf.linked (wiring_of_block found) attached
  refine eq_of_blocks (fun x => ?_) ?_
    ((unlink_vars _ id).trans (unlink_vars g id))
    ((unlink_procedures _ id).trans (unlink_procedures g id))
  · have cut : (g.detached id).block? x = (g.unlink id).block? x := rfl
    rw [attached_rewired, cut, block?_unlink, free, Option.map_map]
    cases there : g.block? x with
    | none => rfl
    | some b =>
      have links : (if x = id then some ⟨parent, place⟩ else if x = id then none else b.parent)
          = b.parent := by
        by_cases here : x = id
        · subst here
          cases found.symm.trans there
          rw [if_pos rfl, attached]
        · rw [if_neg here, if_neg here]
      have places : ∀ other old, (if x = parent ∧ other = place then some id
          else if none = some (⟨x, other⟩ : ParentLink) then none
          else if some (⟨parent, place⟩ : ParentLink) = some ⟨x, other⟩ then none else old)
            = if x = parent ∧ other = place then some id else old := by
        intro other old
        have left : some (⟨parent, place⟩ : ParentLink) = some ⟨x, other⟩ ↔ x = parent ∧ other = place := by
          simp [eq_comm]
        simp only [left, reduceCtorEq, if_false]
        split <;> rfl
      simp only [above, Option.map_some, Function.comp_apply, Block.rewire_rewire, Block.parent_rewire,
        links, places]
      by_cases here : x = parent
      · subst here
        cases known.symm.trans there
        simp only [true_and]
        rw [← Block.hold_eq_rewire, Block.hold_held holds]
      · simp only [here, false_and, if_false]
        rw [Block.rewire_parent]
  · have linked' : (g.detached id).Linked := wf.linked.detached found attached
    rw [attached_roots linked', if_pos free, detached_roots found attached,
      List.erase_append_right _ outside]
    simp

end

end Graph

-- A block that is taken off its place is the last root, and putting it back where it was is
-- possible and gives the very same workspace.
theorem detached_block_goes_back {w : Workspace} (reached : w.Reachable) {id : BlockId} {block : Block}
    {parent : BlockId} {place : Place} (found : w.graph.block? id = some block)
    (attached : block.parent = some ⟨parent, place⟩) :
    ∃ w', w.apply (.detach id) = .ok (w', .done) ∧ w'.graph.linkOf id = none ∧
      w'.graph.roots = w.graph.roots ++ [id] ∧
      w'.apply (.attach parent place id) = .ok (w, .done) := by
  have wf := reached.wellFormed
  refine ⟨⟨w.graph.detached id, w.serial⟩, ?_, Graph.detached_linkOf found,
    Graph.detached_roots found attached, ?_⟩
  · have taken : w.graph.after (.detach id) = .ok (w.graph.detached id) :=
      Graph.detach_eq_ok.mpr ⟨block, _, found, attached, rfl⟩
    exact Workspace.keepSerial_made taken
  · have back : (w.graph.detached id).after (.attach parent place id) = .ok w.graph :=
      Graph.attach_eq_ok.mpr ⟨wf.detached_admits found attached, (wf.attached_detached found attached).symm⟩
    exact Workspace.keepSerial_made back

-- A chain in a later branch of a conditional comes off whole and goes back whole.
theorem branch_goes_back :
    let w := (Editing.Session.runAll {} false
      [.edit (.addBlock .ifElse), .edit (.setItemCount ⟨"b1"⟩ 1), .edit (.addBlock .print),
        .edit (.addBlock .comment), .edit (.attach ⟨"b2"⟩ .next ⟨"b3"⟩),
        .edit (.attach ⟨"b1"⟩ (.body "DO1") ⟨"b2"⟩), .edit (.addBlock .number)]).1.workspace
    w.graph.roots = [⟨"b1"⟩, ⟨"b4"⟩] ∧
      ∃ w', w.apply (.detach ⟨"b2"⟩) = .ok (w', .done) ∧ w'.graph.linkOf ⟨"b2"⟩ = none ∧
        w'.graph.roots = w.graph.roots ++ [⟨"b2"⟩] ∧
        w'.apply (.attach ⟨"b1"⟩ (.body "DO1") ⟨"b2"⟩) = .ok (w, .done) := by
  have returns : ∀ w : Workspace, w.Reachable →
      w.graph.linkOf ⟨"b2"⟩ = some ⟨⟨"b1"⟩, .body "DO1"⟩ →
      ∃ w', w.apply (.detach ⟨"b2"⟩) = .ok (w', .done) ∧ w'.graph.linkOf ⟨"b2"⟩ = none ∧
        w'.graph.roots = w.graph.roots ++ [⟨"b2"⟩] ∧
        w'.apply (.attach ⟨"b1"⟩ (.body "DO1") ⟨"b2"⟩) = .ok (w, .done) := by
    intro w reached attached
    obtain ⟨block, found, above⟩ := Option.bind_eq_some_iff.mp attached
    exact detached_block_goes_back reached found above
  exact ⟨by decide +kernel, returns _ (Editing.Session.runAll_reachable false _) (by decide +kernel)⟩

end Blockwork
