import Mathlib
import Blockwork.Proofs.FollowedPass
import Blockwork.Proofs.HoistedFunctions

-- A pass renders what stands in chains exactly once, in the order of the graph and at its place in
-- the text, and never has to make do with less than the graph says.
namespace Blockwork

open Python

namespace Generation

-- Ways to blocks that stand in chains.
section
variable {g : Graph}

theorem lookup_of_held {block : Block} {branches : List (Place × Tree)} (full : g.Full (.node block branches))
    {place : Place} {child : BlockId} (holds : block.held place = some child) :
    ∃ tree, branches.lookup place = some tree ∧ tree.block.id = child := by
  cases hangs : branches.lookup place with
  | none =>
    rw [held_none full hangs] at holds
    cases holds
  | some tree =>
    have same := full.branch (mem_of_lookup hangs)
    rw [holds] at same
    exact ⟨tree, rfl, (Option.some.inj same).symm⟩

theorem body_of_held {id child : BlockId} {block : Block} (wf : g.WellFormed) (found : g.block? id = some block)
    {slot : String} (holds : block.held (.body slot) = some child) : .body slot ∈ bodyPlaces block := by
  have listed := mem_walkPlaces (wf.built id block found).2.shaped holds
  rcases List.mem_append.mp listed with listed | listed
  · exact List.mem_filter.mpr ⟨listed, rfl⟩
  · cases List.mem_singleton.mp listed

-- Who holds something but values is no value itself.
theorem path_stands (wf : g.WellFormed) {root low : BlockId} {steps : List ParentLink} {block : Block}
    (path : g.Path root steps low) (found : g.block? low = some block)
    (other : block.kind.connection ≠ .expression) : stands steps = true := by
  induction steps using List.reverseRecOn generalizing low block with
  | nil => rfl
  | append_singleton before link ih =>
    rcases path.last with ⟨none, _⟩ | ⟨upper, mid, place, above, same, way, known, holds⟩
    · simp at none
    · obtain ⟨rfl, ending⟩ := List.append_inj' same rfl
      obtain ⟨child, found', _, asks⟩ := wf.lawful.children _ _ _ _ known holds
      cases found.symm.trans found'
      have ending : link = ⟨mid, place⟩ := by simpa using ending
      subst ending
      cases place with
      | input slot => exact absurd asks.1 other
      | body slot =>
        rw [stands_step _ _ (by simp)]
        refine ih way known fun valued => ?_
        have body := body_of_held wf known holds
        rw [(valued_simple valued).1] at body
        cases body
      | next =>
        rw [stands_step _ _ (by simp)]
        exact ih way known (by rw [asks.2]; decide)

theorem mem_outline (wf : g.WellFormed) {tree : Tree} (full : g.Full tree) {low : BlockId} {steps : List ParentLink}
    (path : g.Path tree.block.id steps low) (upright : stands steps = true) (trail : List ParentLink) :
    (low, trail ++ steps) ∈ outlineTree trail tree := by
  induction full generalizing steps trail with
  | @node block branches found whole below ih =>
    have full := Graph.Full.node found whole below
    rw [outlineTree_node]
    cases path with
    | here =>
      rw [List.append_nil]
      exact List.mem_cons_self
    | @down _ child _ block' place steps found' holds rest =>
      cases found.symm.trans found'
      have later : stands steps = true := by
        rw [stands, List.all_cons, Bool.and_eq_true] at upright
        exact upright.2
      have member : place ∈ bodyPlaces block ++ [Place.next] := by
        cases place with
        | input slot => simp [stands] at upright
        | body slot => exact List.mem_append_left _ (body_of_held wf found holds)
        | next => exact List.mem_append_right _ (List.mem_singleton_self _)
      obtain ⟨tree, hangs, rfl⟩ := lookup_of_held full holds
      refine List.mem_cons_of_mem _ (List.mem_flatMap.mpr ⟨place, member, ?_⟩)
      have inside := ih _ (mem_of_lookup hangs) rest later (trail ++ [⟨block.id, place⟩])
      rw [List.append_assoc, List.singleton_append] at inside
      rwa [outlineAt, hangs]

theorem mem_standing {log : List Rendered} {id : BlockId} {trail : List ParentLink}
    (listed : (id, trail) ∈ standing log) : id ∈ log.map (·.id) := by
  obtain ⟨r, member, same⟩ := List.mem_map.mp listed
  exact List.mem_map.mpr ⟨r, (List.mem_filter.mp member).1, congrArg Prod.fst same⟩

-- What stands in a chain is in the log of the trees of the roots.
theorem rendered_of_path (wf : g.WellFormed) {id root : BlockId} {steps : List ParentLink}
    (listed : root ∈ g.roots) (path : g.Path root steps id) (upright : stands steps = true) :
    (id, steps) ∈ (mainTrees g ++ definitionTrees g).flatMap (outlineTree []) := by
  rw [← wf.linked.forest_roots wf.built] at listed
  obtain ⟨tree, planted, rfl⟩ := List.mem_map.mp listed
  refine List.mem_flatMap.mpr ⟨tree, (trees_perm wf).mem_iff.mpr planted, ?_⟩
  exact mem_outline wf (wf.linked.forest_full wf.built planted) path upright []

end

-- What comes of watching a pass.
section
variable {g : Graph}

theorem watch_eq (wf : g.WellFormed) : ∃ log, Logged g ((mainTrees g ++ definitionTrees g).flatMap Tree.ids)
      ((mainTrees g ++ definitionTrees g).flatMap (outlineTree [])) log ∧
    Traced g [] (Watch.start g).pass (passEnd g) log ∧
    watch g = (((programPass g).run (Watch.start g).pass).1, (Watch.start g).after (passEnd g) log) :=
  watchProgram_follows wf

theorem watch_program (wf : g.WellFormed) : program g
      = ⟨(watch g).2.pass.preamble.imports, (watch g).2.pass.preamble.functions, (watch g).1⟩ ∧
    (watch g).2.faults = [] := by
  obtain ⟨log, _, _, runs⟩ := watch_eq wf
  rw [runs]
  exact ⟨rfl, rfl⟩

theorem watch_logged (wf : g.WellFormed) : Logged g ((mainTrees g ++ definitionTrees g).flatMap Tree.ids)
    ((mainTrees g ++ definitionTrees g).flatMap (outlineTree [])) (watch g).2.log := by
  obtain ⟨log, logged, _, runs⟩ := watch_eq wf
  rw [runs]
  exact logged

theorem watch_traced (wf : g.WellFormed) :
    Traced g [] (Watch.start g).pass (passEnd g) (watch g).2.log := by
  obtain ⟨log, _, traced, runs⟩ := watch_eq wf
  rw [runs]
  exact traced

theorem log_nodup (wf : g.WellFormed) : ((watch g).2.log.map (·.id)).Nodup := by
  refine nodup_of_subperm (watch_logged wf).within ?_
  rw [((trees_perm wf).flatMap_right Tree.ids).nodup_iff]
  have distinct := wf.linked.forest_nodup wf.built
  rwa [List.map_flatMap] at distinct

theorem mem_log (wf : g.WellFormed) {id : BlockId} {block : Block} (found : g.block? id = some block)
    (other : block.kind.connection ≠ .expression ∨ id ∈ g.roots) : id ∈ (watch g).2.log.map (·.id) := by
  obtain ⟨root, listed, steps, path⟩ := wf.linked.path_from_root found
  have upright : stands steps = true := by
    rcases other with apart | top
    · exact path_stands wf path found apart
    · rw [(wf.linked.path_unique listed top path (.here found)).2]
      rfl
  have member := rendered_of_path wf listed path upright
  rw [← (watch_logged wf).ordered] at member
  exact mem_standing member

end

end Generation

open Generation

-- A pass over a graph as it should be. The watched pass makes the program and reports no fault. It
-- renders no block twice and each at the end of its way from a root. It renders everything but
-- values inside of others, in the order of the graph, and the text is nested in the same way with
-- one function for each procedure.
structure Graph.ExactlyRendered (g : Graph) : Prop where
  program : program g = ⟨(watch g).2.pass.preamble.imports, (watch g).2.pass.preamble.functions, (watch g).1⟩
  faultless : (watch g).2.faults = []
  once : ((watch g).2.log.map (·.id)).Nodup
  placed : ∀ r ∈ (watch g).2.log, ∃ root ∈ g.roots, g.Path root r.trail r.id
  complete : ∀ id block, g.block? id = some block → block.kind.connection ≠ .expression ∨ id ∈ g.roots →
    ((watch g).2.log.map (·.id)).count id = 1
  ordered : standing (watch g).2.log = (mainTrees g ++ definitionTrees g).flatMap (outlineTree [])
  nested : (Generation.program g).Nested g

theorem Graph.WellFormed.exactlyRendered {g : Graph} (wf : g.WellFormed) : g.ExactlyRendered where
  program := (watch_program wf).1
  faultless := (watch_program wf).2
  once := log_nodup wf
  placed r member := by
    obtain ⟨root, listed, proper⟩ := (watch_logged wf).each r member
    exact ⟨root, listed, proper.path⟩
  complete _ _ found other := List.count_eq_one_of_mem (log_nodup wf) (mem_log wf found other)
  ordered := (watch_logged wf).ordered
  nested := program_nested wf

theorem reachable_graph_exactly_rendered {w : Workspace} (reached : w.Reachable) : w.graph.ExactlyRendered :=
  reached.wellFormed.exactlyRendered

-- A loop with a statement behind it, a value by itself, and a procedure.
theorem tally_exactly_rendered :
    let w := (Editing.Session.runAll {} false
      [.edit (.addBlock .repeatTimes), .edit (.addBlock .flow), .edit (.addBlock .print), .edit (.addBlock .print),
        .edit (.addBlock .number), .edit (.createProcedure "tally" [] false),
        .edit (.attach ⟨"b1"⟩ (.body "DO") ⟨"b2"⟩), .edit (.attach ⟨"b1"⟩ .next ⟨"b3"⟩),
        .edit (.attach ⟨"b7"⟩ (.body "STACK") ⟨"b4"⟩)]).1.workspace
    (watch w.graph).2.log.map (fun r => (r.id.text, r.trail, r.before))
        = [("b1", [], 0), ("b2", [⟨⟨"b1"⟩, .body "DO"⟩], 1), ("b3", [⟨⟨"b1"⟩, .next⟩], 0), ("b5", [], 0),
          ("b7", [], 0), ("b4", [⟨⟨"b7"⟩, .body "STACK"⟩], 0)] ∧
      (program w.graph).chains = [[.flat "for count in range(0):", ⟨1, "break"⟩, .flat "print('')"], [.flat "0"]] ∧
      (program w.graph).functions = [[.flat "def tally():", ⟨1, "print('')"⟩]] ∧ w.graph.ExactlyRendered :=
  ⟨by decide +kernel, by decide +kernel, by decide +kernel,
    reachable_graph_exactly_rendered (Editing.Session.runAll_reachable false _)⟩

end Blockwork
