import Mathlib
import Blockwork.Proofs.Placement
import Blockwork.Proofs.SavedTables

-- Removing a block: what goes with it is all that hangs below it and nothing else.
-- A definition goes with its procedure, if nothing calls it.
namespace Blockwork

-- The block is a call that is bound to the procedure.
def Block.Calls (block : Block) (procedure : ProcedureId) : Prop :=
  block.kind.isCall = true ∧ block.fields.get? "NAME" = some (.procedureRef procedure)

instance (block : Block) (procedure : ProcedureId) : Decidable (block.Calls procedure) :=
  inferInstanceAs (Decidable (_ ∧ _))

namespace Graph

variable {g g' : Graph}

-- The second block stands at some place of the first one: an input, a body or after it.
def Holds (g : Graph) (high low : BlockId) : Prop :=
  ∃ block place, g.block? high = some block ∧ block.held place = some low

theorem Linked.holds_iff (linked : g.Linked) {high low : BlockId} :
    g.Holds high low ↔ g.HangsBelow low high := by
  constructor
  · rintro ⟨block, place, found, holds⟩
    obtain ⟨t, wired, above, _⟩ := linked.down _ _ place low (wiring_of_block found) holds
    obtain ⟨child, known, rfl⟩ := block_of_wiring wired
    exact ⟨child, place, known, above⟩
  · rintro ⟨block, place, found, attached⟩
    obtain ⟨p, known, holds⟩ := linked.holder ((linkOf_of_block found).trans attached)
    exact ⟨p, place, known, holds⟩

theorem Linked.above_iff_holds (linked : g.Linked) {top id : BlockId} :
    g.wiring.Above top id ↔ Relation.ReflTransGen g.Holds top id := by
  have same : g.Holds = Function.swap g.HangsBelow :=
    funext fun high => funext fun low => propext linked.holds_iff
  rw [above_iff, same, Relation.reflTransGen_swap]

-- All that the removal of a block changes: it goes with everything below it, and the place that it
-- had is empty, or it is no root any more.
structure Removed (g g' : Graph) (id : BlockId) : Prop where
  gone : ∀ x, Relation.ReflTransGen g.Holds id x → g'.block? x = none
  kept : ∀ x, ¬Relation.ReflTransGen g.Holds id x → g'.block? x = (g.block? x).map fun b =>
    b.rewire b.parent fun place child => if g.linkOf id = some ⟨x, place⟩ then none else child
  vacated : ∀ link, g.linkOf id = some link →
    ∃ p, g'.block? link.parent = some p ∧ p.held link.place = none
  roots : g'.roots = g.roots.erase id
  vars : g'.vars = g.vars

theorem Linked.mem_tree_iff (linked : g.Linked) (built : g.Built) {id x : BlockId} {block : Block}
    (found : g.block? id = some block) :
    x ∈ (g.tree block).ids ↔ Relation.ReflTransGen g.Holds id x := by
  have same := (built id block found).1
  rw [linked.mem_tree_ids built (same.symm ▸ found), same, linked.above_iff_holds]
  refine and_iff_right_of_imp fun below => ?_
  rcases below.cases_tail with rfl | ⟨high, _, step⟩
  · simp [found]
  · obtain ⟨b, _, known, _⟩ := linked.holds_iff.mp step
    simp [known]

theorem Linked.unlink_roots (linked : g.Linked) {id : BlockId} {block : Block}
    (found : g.block? id = some block) : (g.unlink id).roots = g.roots.erase id := by
  cases attached : block.parent with
  | none =>
    rw [unlink_root found attached, linked.nodup.erase_eq_filter]
  | some link =>
    have absent := linked.not_root_of_attached (wiring_of_block found) attached
    rw [unlink_attached found attached, List.erase_of_not_mem absent]
    rfl

theorem WellFormed.removed (wf : g.WellFormed) {id : BlockId} {block : Block}
    (found : g.block? id = some block) : g.Removed (g.removeTree id) id := by
  have below : ∀ x, x ∈ (g.tree block).ids ↔ Relation.ReflTransGen g.Holds id x :=
    fun x => wf.linked.mem_tree_iff wf.built found
  have kept : ∀ x, ¬Relation.ReflTransGen g.Holds id x →
      (g.removeTree id).block? x = (g.block? x).map fun b => b.rewire b.parent
        fun place child => if g.linkOf id = some ⟨x, place⟩ then none else child := by
    intro x apart
    have other : x ≠ id := by
      rintro rfl
      exact apart .refl
    rw [block?_removeTree found, if_neg (mt (below x).mp apart), block?_unlink]
    simp only [if_neg other]
  refine ⟨fun x inside => ?_, kept, fun link attached => ?_, ?_, (removeTree_tables g id).1⟩
  · rw [block?_removeTree found, if_pos ((below x).mpr inside)]
  · -- The parent is not below its child.
    obtain ⟨p, known, holds⟩ := wf.linked.holder attached
    have shaped := (wf.built _ p known).2.shaped
    have apart : ¬Relation.ReflTransGen g.Holds id link.parent := by
      rw [← wf.linked.above_iff_holds]
      exact wf.linked.not_above_parent (wiring_of_block found)
        ((linkOf_of_block found).symm.trans attached)
    refine ⟨_, (kept _ apart).trans (congrArg _ known), ?_⟩
    rw [Block.rewire_held shaped (Block.hasPlace_of_held shaped holds), if_pos attached]
  · rw [removeTree_roots found, wf.linked.unlink_roots found]

-- The removal as the loop that it is. Ids wait on a stack; the one on top is looked up, and a block
-- that is found goes and leaves the ids of its children on the stack. The loop counts what went. A
-- loop that goes on for ever has no run.
inductive Sweep : List BlockId → Dict Block → Nat → Dict Block → Prop where
  | done {blocks} : Sweep [] blocks 0 blocks
  | absent {id pending blocks removed left} (missing : blocks.get? id.text = none)
      (rest : Sweep pending blocks removed left) : Sweep (id :: pending) blocks removed left
  | gone {id block pending blocks removed left} (found : blocks.get? id.text = some block)
      (rest : Sweep (block.children.reverse ++ pending) (blocks.restrict (· != id.text)) removed left) :
      Sweep (id :: pending) blocks (removed + 1) left

theorem Sweep.unique {pending : List BlockId} {blocks first second : Dict Block} {m n : Nat}
    (one : Sweep pending blocks m first) (other : Sweep pending blocks n second) : m = n ∧ first = second := by
  induction one generalizing n with
  | done =>
    cases other
    exact ⟨rfl, rfl⟩
  | absent missing _ ih =>
    cases other with
    | absent _ rest => exact ih rest
    | gone found _ => cases missing.symm.trans found
  | gone found _ ih =>
    cases other with
    | absent missing _ => cases missing.symm.trans found
    | gone found' rest =>
      cases found.symm.trans found'
      obtain ⟨same, left⟩ := ih rest
      exact ⟨congrArg (· + 1) same, left⟩

-- A tree whose blocks are all at hand, with the children that they have in the tree.
inductive Stocked (blocks : Dict Block) : Tree → Prop where
  | node {block b : Block} {branches : List (Place × Tree)} (found : blocks.get? block.id.text = some b)
      (children : b.children = branches.map (·.2.block.id))
      (below : ∀ p ∈ branches, Stocked blocks p.2) : Stocked blocks (.node block branches)

theorem Stocked.restrict {blocks : Dict Block} {tree : Tree} (stocked : Stocked blocks tree) {keep : String → Bool}
    (kept : ∀ x ∈ tree.ids, keep x.text = true) : Stocked (blocks.restrict keep) tree := by
  induction stocked with
  | @node block b branches found children below ih =>
    rw [Tree.ids_node, List.forall_mem_cons] at kept
    refine .node ?_ children fun p branch => ih p branch fun x inside => ?_
    · rw [Dict.get?_restrict, if_pos kept.1, found]
    · exact kept.2 x (List.mem_flatMap.mpr ⟨p, branch, inside⟩)

theorem Full.stocked {tree : Tree} (full : g.Full tree) {blocks : Dict Block} (kept : ∀ b ∈ tree.blocks,
    ∃ b', blocks.get? b.id.text = some b' ∧ b'.children = b.children) : Stocked blocks tree := by
  induction full with
  | @node block branches found whole below ih =>
    rw [Tree.blocks, Tree.blocksOf_eq, List.forall_mem_cons] at kept
    obtain ⟨⟨b, present, same⟩, others⟩ := kept
    refine .node present ?_ fun p branch => ih p branch fun b inside => ?_
    · rw [same, Block.children, ← whole, List.map_map]
      rfl
    · exact others b (List.mem_flatMap.mpr ⟨p, branch, inside⟩)

theorem restrict_more {blocks : Dict Block} {id : BlockId} {fewer others : List BlockId}
    (same : ∀ x, x ∈ fewer ↔ x ∈ others) :
    (blocks.restrict (· != id.text)).restrict (fun key => !fewer.contains ⟨key⟩)
      = blocks.restrict fun key => !(id :: others).contains ⟨key⟩ := by
  ext key block
  have here : (⟨key⟩ : BlockId) = id ↔ key = id.text := ⟨congrArg BlockId.text, congrArg BlockId.mk⟩
  by_cases first : key = id.text <;> simp [here, same, first]

-- With the tops of some trees on the stack, the blocks of these trees go. Each round takes one block
-- of the trees and leaves its branches.
theorem sweep_trees {trees : List Tree} {blocks : Dict Block} (stocked : ∀ tree ∈ trees, Stocked blocks tree)
    (once : (trees.flatMap Tree.ids).Nodup) :
    Sweep (trees.map (·.block.id)) blocks (trees.flatMap Tree.ids).length
      (blocks.restrict fun key => !(trees.flatMap Tree.ids).contains ⟨key⟩) := by
  generalize size : (trees.flatMap Tree.ids).length = count
  induction count generalizing trees blocks with
  | zero =>
    cases trees with
    | nil =>
      have all : blocks.restrict (fun key => !([] : List BlockId).contains ⟨key⟩) = blocks := by
        ext key
        simp
      rw [List.flatMap_nil, all]
      exact .done
    | cons tree rest =>
      obtain ⟨block, branches⟩ := tree
      simp [Tree.ids_node] at size
  | succ count ih =>
    cases trees with
    | nil => simp at size
    | cons tree rest =>
      obtain ⟨here, later⟩ := List.forall_mem_cons.mp stocked
      cases here with
      | @node block b branches found children below =>
        set lower := (branches.map (·.2)).reverse ++ rest with lower_def
        have split : (lower.flatMap Tree.ids).Perm ((branches.flatMap fun p => p.2.ids) ++ rest.flatMap Tree.ids) := by
          have same : (branches.flatMap fun p => p.2.ids) = (branches.map (·.2)).flatMap Tree.ids :=
            (List.flatMap_map ..).symm
          rw [lower_def, List.flatMap_append, same]
          exact ((List.reverse_perm _).flatMap_right _).append_right _
        rw [List.flatMap_cons, Tree.ids_node, List.cons_append] at once size ⊢
        rw [List.nodup_cons, ← split.mem_iff, ← split.nodup_iff] at once
        rw [List.length_cons, ← split.length_eq] at size
        have left : ∀ tree ∈ lower, Stocked (blocks.restrict (· != block.id.text)) tree := by
          intro tree member
          have whole : Stocked blocks tree := by
            rcases List.mem_append.mp member with branch | other
            · obtain ⟨p, listed, rfl⟩ := List.mem_map.mp (List.mem_reverse.mp branch)
              exact below p listed
            · exact later tree other
          refine whole.restrict fun x inside => bne_iff_ne.mpr fun same => once.1 ?_
          have top : x = block.id := congrArg BlockId.mk same
          exact List.mem_flatMap.mpr ⟨tree, member, top ▸ inside⟩
        have run := ih left once.2 (Nat.succ.inj size)
        rw [restrict_more fun _ => split.mem_iff, lower_def, List.map_append, List.map_reverse, List.map_map] at run
        exact .gone found (children ▸ run)

-- On a graph with all its invariants the loop has one end, and that is what the removal leaves.
theorem WellFormed.sweep_iff (wf : g.WellFormed) {id : BlockId} {block : Block} (found : g.block? id = some block)
    {removed : Nat} {left : Dict Block} : Sweep [id] (g.unlink id).blocks removed left ↔
      removed = (g.tree block).ids.length ∧ left = (g.removeTree id).blocks := by
  have same := (wf.built id block found).1
  have full := wf.linked.tree_full wf.built (same.symm ▸ found)
  have top : (g.tree block).block.id = id := by rw [tree, treeTo_block, same]
  have stocked : Stocked (g.unlink id).blocks (g.tree block) := by
    refine full.stocked fun b inside => ?_
    obtain ⟨known, above⟩ := full.mem wf.linked wf.built inside
    rw [top] at above
    -- The parent of the top is not in the tree, so the blocks of the tree keep their children.
    have apart : ∀ place, g.linkOf id ≠ some ⟨b.id, place⟩ := fun place attached =>
      wf.linked.not_above_parent (wiring_of_block found) ((linkOf_of_block found).symm.trans attached) above
    refine ⟨_, (block?_unlink g id b.id).trans (congrArg _ known), ?_⟩
    simp only [if_neg (apart _), Block.rewire_parent]
    rfl
  have run := sweep_trees (List.forall_mem_singleton.mpr stocked)
    (by simpa using full.nodup wf.linked wf.built)
  have blocks : (g.removeTree id).blocks
      = (g.unlink id).blocks.restrict fun key => !(g.tree block).ids.contains ⟨key⟩ := by
    rw [removeTree, tree?_of_block found]
  rw [List.flatMap_singleton, List.map_singleton, top, ← blocks] at run
  constructor
  · exact fun other => other.unique run
  · rintro ⟨rfl, rfl⟩
    exact run

theorem mem_callers_iff (built : g.Built) {p : ProcedureId} {x : BlockId} :
    x ∈ g.callers p ↔ ∃ call, g.block? x = some call ∧ call.Calls p := by
  rw [mem_callers built]
  constructor
  · rintro ⟨c, known, calls, named⟩
    obtain ⟨call, found, rfl⟩ := block_of_contents known
    exact ⟨call, found, calls, named⟩
  · rintro ⟨call, found, calls, named⟩
    exact ⟨_, contents_of_block found, calls, named⟩

theorem callers_eq_nil (built : g.Built) {p : ProcedureId} :
    g.callers p = [] ↔ ∀ x call, g.block? x = some call → ¬call.Calls p := by
  simp only [List.eq_nil_iff_forall_not_mem, mem_callers_iff built, not_exists, not_and]

-- Ids of procedures differ, so the one with the id is the one that goes.
theorem WellFormed.procedures_without (wf : g.WellFormed) {p : Procedure} (listed : p ∈ g.procedures) :
    g.procedures.filter (·.id != p.id) = g.procedures.erase p := by
  have distinct := List.Nodup.of_map _ wf.procedureNames.ids
  rw [distinct.erase_eq_filter]
  refine List.filter_congr fun q member => ?_
  rw [Bool.eq_iff_iff, bne_iff_ne, bne_iff_ne, not_iff_not]
  exact ⟨fun same => wf.procedureNames.unique member listed same, fun same => congrArg _ same⟩

theorem WellFormed.removeProcedure_iff (wf : g.WellFormed) {p : Procedure} (listed : p ∈ g.procedures) :
    g.after (.removeProcedure p.id) = .ok g' ↔ (∀ x call, g.block? x = some call → ¬call.Calls p.id) ∧
      g' = { g.removeTree p.definition with procedures := g.procedures.erase p } := by
  have known := wf.procedureWith?_listed listed
  have without := wf.procedures_without listed
  rw [← (removeTree_tables g p.definition).2] at without
  rw [removeProcedure_eq_ok, ← callers_eq_nil wf.built, ← (removeTree_tables g p.definition).2, ← without]
  constructor
  · rintro ⟨q, present, uncalled, rfl⟩
    cases known.symm.trans present
    exact ⟨uncalled, rfl⟩
  · rintro ⟨uncalled, rfl⟩
    exact ⟨p, known, uncalled, rfl⟩

theorem WellFormed.deleteTree_definition (wf : g.WellFormed) {id : BlockId} {block : Block}
    (found : g.block? id = some block) (defines : block.kind.isDefinition = true) :
    ∃ p ∈ g.procedures, block.fields.get? "NAME" = some (.procedureRef p.id) ∧ p.definition = id ∧
      ∀ g', g.after (.deleteTree id) = .ok g' ↔ (∀ x call, g.block? x = some call → ¬call.Calls p.id) ∧
        g' = { g.removeTree id with procedures := g.procedures.erase p } := by
  have same := (wf.built id block found).1
  obtain ⟨p, listed, named, _, own⟩ := wf.definition_binds (same.symm ▸ found) defines
  refine ⟨p, listed, named, own.trans same, fun g' => ?_⟩
  rw [← same, ← own, ← wf.removeProcedure_iff listed, own, same, deleteTree_eq_ok]
  constructor
  · rintro ⟨b, known, ⟨plain, _⟩ | ⟨_, procedure, bound, removed⟩⟩
    · cases found.symm.trans known
      cases defines.symm.trans plain
    · cases found.symm.trans known
      cases named.symm.trans (Block.procedureIn?_eq_some.mp bound)
      exact removed
  · intro removed
    exact ⟨block, found, .inr ⟨defines, p.id, Block.procedureIn?_eq_some.mpr named, removed⟩⟩

end Graph

-- A block that is no definition can always be removed. A definition can be removed exactly when no
-- call is bound to its procedure, be it in its own body, and then the procedure goes as well.
theorem removal_exact {w : Workspace} (reached : w.Reachable) {id : BlockId} {block : Block}
    (found : w.graph.block? id = some block) :
    (block.kind.isDefinition = false → ∃ w', w.apply (.deleteTree id) = .ok (w', .done) ∧
      w'.serial = w.serial ∧ w.graph.Removed w'.graph id ∧ w'.graph.procedures = w.graph.procedures) ∧
    (block.kind.isDefinition = true → ∃ p ∈ w.graph.procedures,
      block.fields.get? "NAME" = some (.procedureRef p.id) ∧ p.definition = id ∧
      ((∃ w' reply, w.apply (.deleteTree id) = .ok (w', reply)) ↔
        ∀ x call, w.graph.block? x = some call → ¬call.Calls p.id) ∧
      ∀ w' reply, w.apply (.deleteTree id) = .ok (w', reply) → reply = .done ∧ w'.serial = w.serial ∧
        w.graph.Removed w'.graph id ∧ w'.graph.procedures = w.graph.procedures.erase p) := by
  have wf := reached.wellFormed
  have removed := wf.removed found
  constructor
  · intro plain
    refine ⟨⟨w.graph.removeTree id, w.serial⟩, ?_, rfl, removed, (Graph.removeTree_tables _ _).2⟩
    exact Workspace.keepSerial_made (Graph.deleteTree_eq_ok.mpr ⟨block, found, .inl ⟨plain, rfl⟩⟩)
  · intro defines
    obtain ⟨p, listed, named, own, deletes⟩ := wf.deleteTree_definition found defines
    refine ⟨p, listed, named, own, ⟨?_, fun uncalled => ?_⟩, ?_⟩
    · rintro ⟨w', reply, made⟩
      obtain ⟨g', deleted, _⟩ := Workspace.keepSerial_iff.mp made
      exact ((deletes g').mp deleted).1
    · exact ⟨_, _, Workspace.keepSerial_made ((deletes _).mpr ⟨uncalled, rfl⟩)⟩
    · intro w' reply made
      obtain ⟨g', deleted, same⟩ := Workspace.keepSerial_iff.mp made
      obtain ⟨_, rfl⟩ := (deletes g').mp deleted
      cases same
      exact ⟨rfl, rfl, ⟨removed.gone, removed.kept, removed.vacated, removed.roots, removed.vars⟩, rfl⟩

-- A procedure whose body calls it: the body can be removed, and the definition only without it.
theorem recursion_removed_before_its_definition :
    let w := (Editing.Session.runAll {} false
      [.edit (.createProcedure "report" [] false), .edit (.addBlock .print), .edit (.addBlock (.call false)),
        .edit (.setField ⟨"b4"⟩ "NAME" (.procedureRef ⟨"p1"⟩)), .edit (.attach ⟨"b3"⟩ .next ⟨"b4"⟩),
        .edit (.attach ⟨"b2"⟩ (.body "STACK") ⟨"b3"⟩), .edit (.addBlock .number),
        .edit (.attach ⟨"b3"⟩ (.input "TEXT") ⟨"b5"⟩), .edit (.addBlock .comment)]).1.workspace
    (∃ w', w.apply (.deleteTree ⟨"b3"⟩) = .ok (w', .done) ∧ w.graph.Removed w'.graph ⟨"b3"⟩) ∧
    ∃ p ∈ w.graph.procedures, p.definition = ⟨"b2"⟩ ∧
      ¬∀ x call, w.graph.block? x = some call → ¬call.Calls p.id := by
  have removes : ∀ w : Workspace, w.Reachable →
      (w.graph.block? ⟨"b3"⟩).map (·.kind.isDefinition) = some false →
      ∃ w', w.apply (.deleteTree ⟨"b3"⟩) = .ok (w', .done) ∧ w.graph.Removed w'.graph ⟨"b3"⟩ := by
    intro w reached present
    obtain ⟨block, found, plain⟩ := Option.map_eq_some_iff.mp present
    obtain ⟨w', made, _, removed, _⟩ := (removal_exact reached found).1 plain
    exact ⟨w', made, removed⟩
  have called : ∀ w : Workspace, w.Reachable →
      (w.graph.block? ⟨"b2"⟩).map (·.kind.isDefinition) = some true →
      (w.apply (.deleteTree ⟨"b2"⟩)).isOk = false → ∃ p ∈ w.graph.procedures, p.definition = ⟨"b2"⟩ ∧
        ¬∀ x call, w.graph.block? x = some call → ¬call.Calls p.id := by
    intro w reached present failed
    obtain ⟨block, found, defines⟩ := Option.map_eq_some_iff.mp present
    obtain ⟨p, listed, _, own, deletes, _⟩ := (removal_exact reached found).2 defines
    refine ⟨p, listed, own, fun uncalled => ?_⟩
    obtain ⟨w', reply, made⟩ := deletes.mpr uncalled
    rw [made] at failed
    cases failed
  have reached := Editing.Session.runAll_reachable false
  exact ⟨removes _ (reached _) (by decide +kernel),
    called _ (reached _) (by decide +kernel) (by decide +kernel)⟩

end Blockwork
