import Mathlib
import Blockwork.Proofs.GivenNames
import Blockwork.Proofs.WatchedPass

-- On a graph that keeps its rules a watched pass does what a plain one does and has nothing to
-- report. Its log has each block at most once, at the end of the way that leads to it.
namespace Blockwork.Generation

open Python

-- What hangs below a block, by place.
section
variable (trail : List ParentLink) (id : BlockId) (branches : List (Place × Tree))

theorem watchBranches_eq : watchBranches trail id branches
    = branches.map fun p => (p.1, watchTree (trail ++ [⟨id, p.1⟩]) p.2) := by
  induction branches with
  | nil => rfl
  | cons head rest ih => rw [watchBranches, ih, List.map_cons]

theorem outlineBranches_eq : outlineBranches trail id branches
    = branches.map fun p => (p.1, outlineTree (trail ++ [⟨id, p.1⟩]) p.2) := by
  induction branches with
  | nil => rfl
  | cons head rest ih => rw [outlineBranches, ih, List.map_cons]

end

def idsAt (branches : List (Place × Tree)) (place : Place) : List BlockId :=
  ((branches.lookup place).map Tree.ids).getD []

def outlineAt (trail : List ParentLink) (id : BlockId) (branches : List (Place × Tree)) (place : Place) :
    List (BlockId × List ParentLink) :=
  ((branches.lookup place).map (outlineTree (trail ++ [⟨id, place⟩]))).getD []

theorem outlineTree_node (trail : List ParentLink) (block : Block) (branches : List (Place × Tree)) :
    outlineTree trail (.node block branches)
      = (block.id, trail) :: (bodyPlaces block ++ [Place.next]).flatMap (outlineAt trail block.id branches) := by
  rw [outlineTree, outlineBranches_eq]
  refine congrArg _ (congrArg (List.flatMap · _) (funext fun place => ?_))
  rw [lookup_hung fun place => outlineTree (trail ++ [ParentLink.mk block.id place])]
  rfl

theorem ids_perm {g : Graph} (wf : g.WellFormed) {block : Block} {branches : List (Place × Tree)}
    (full : g.Full (.node block branches)) :
    (block.id :: (walkPlaces block).flatMap (idsAt branches)).Perm (Tree.node block branches).ids := by
  have shaped := (wf.built _ block full.found).2.shaped
  have places : ((walkPlaces block).flatMap (idsAt branches)).Perm (branches.flatMap fun p => idsAt branches p.1) :=
    flatMap_places full.places_nodup (walkPlaces_nodup block)
      (fun p branch => mem_walkPlaces shaped (full.branch branch))
      (fun place nothing => by rw [idsAt, nothing]; rfl)
  have same : (branches.flatMap fun p => idsAt branches p.1) = branches.flatMap fun p => p.2.ids :=
    List.flatMap_congr fun p branch => by rw [idsAt, lookup_of_mem full.places_nodup branch]; rfl
  rw [Tree.ids_node]
  exact (same ▸ places).cons block.id

theorem held_none {g : Graph} {block : Block} {branches : List (Place × Tree)}
    (full : g.Full (.node block branches)) {place : Place} (empty : branches.lookup place = none) :
    block.held place = none := by
  cases full with
  | node found whole below =>
    cases holds : block.held place with
    | none => rfl
    | some child =>
      have linked := Block.mem_links.mpr holds
      rw [← whole] at linked
      obtain ⟨p, branch, same⟩ := List.mem_map.mp linked
      have absent := List.lookup_eq_none_iff.mp empty p branch
      rw [(Prod.mk.inj same).1] at absent
      simp at absent

-- A tree is followed by its watched counterpart, from any state that is ready for it.
structure Followed (g : Graph) (root : BlockId) (trail : List ParentLink) (tree : Tree) : Prop where
  code : ∀ w, Ready g trail w → Fresh tree.ids w → ∃ order, Follows g [] (watchTree trail tree).code
    ((renderTree tree).code (decide (0 < w.depth))) w (Recorded g root trail tree.ids order)
  chain : ∀ w, Ready g trail w → Fresh tree.ids w → Follows g [] (watchTree trail tree).chain
    ((renderTree tree).chain (decide (0 < w.depth))) w (Recorded g root trail tree.ids (outlineTree trail tree))

-- An expression does not depend on loops, and always gives one.
theorem renderTree_valued {tree : Tree} (valued : tree.block.kind.connection = .expression) (a b : Bool) :
    (renderTree tree).code a = (renderTree tree).code b := by
  obtain ⟨block, branches⟩ := tree
  have valued : block.kind.connection = .expression := valued
  show rule block _ a = rule block _ b
  unfold rule
  cases kind : block.kind with
  | ifElse | flow =>
    rw [kind] at valued
    cases valued
  | call returns => cases returns <;> rfl
  | _ => rfl

theorem renderTree_expression {tree : Tree} (valued : tree.block.kind.connection = .expression) (inLoop : Bool)
    (s : PassState) : ∃ e, (((renderTree tree).code inLoop).run s).1 = .expression e := by
  obtain ⟨block, branches⟩ := tree
  have valued : block.kind.connection = .expression := valued
  show ∃ e, ((rule block _ inLoop).run s).1 = .expression e
  unfold rule
  cases kind : block.kind with
  | call returns =>
    cases returns with
    | false =>
      rw [kind] at valued
      cases valued
    | true => exact ⟨_, rfl⟩
  | ifElse | repeatTimes | whileUntil | countWith | forEach | flow | changeBy | comment | print | listSet
  | variableSet | definition _ =>
    rw [kind] at valued
    cases valued
  | _ => exact ⟨_, rfl⟩

theorem report_nil (w : Watch) : (report []).run w = ((), w) := by
  show ((), { w with faults := w.faults ++ [] }) = _
  rw [List.append_nil]

theorem missing_run {block : Block} {place : Place} (empty : block.held place = none) (w : Watch) :
    (missing block place).run w = ((), w) := by
  rw [missing, empty]
  exact report_nil w

-- An action with something done to the state before it and after it.
theorem run_lowered {α : Type} {act : Watched α} {raise lower : Watch → Watch} {w : Watch} {result : α × Watch}
    (runs : act.run (raise w) = result) : StateT.run (do
      modify raise
      let a ← act
      modify lower
      return a) w = (result.1, lower result.2) := by
  rw [← runs]
  rfl

section
variable {g : Graph} {root : BlockId} {trail : List ParentLink} {ids : List BlockId}
  {order : List (BlockId × List ParentLink)} {new : List Rendered}

-- What is recorded below a link is recorded of the block above it. Below an input nothing stands.
theorem Recorded.lift {link : ParentLink} (recorded : Recorded g root (trail ++ [link]) ids order new)
    (upright : stands (trail ++ [link]) = stands trail) : Recorded g root trail ids order new :=
  ⟨recorded.within, fun stood => recorded.ordered (upright.trans stood),
    fun r listed => (recorded.each r listed).imp_left (List.prefix_append _ _).trans⟩

theorem stands_above {upper lower : List ParentLink} (above : upper <+: lower) (stood : stands lower = true) :
    stands upper = true := by
  obtain ⟨rest, rfl⟩ := above
  rw [stands, List.all_append, Bool.and_eq_true] at stood
  exact stood.1

theorem Recorded.beside {link : ParentLink} (recorded : Recorded g root (trail ++ [link]) ids order new)
    (leans : stands (trail ++ [link]) = false) : Recorded g root trail ids [] new := by
  refine ⟨recorded.within, fun _ => ?_, fun r listed =>
    (recorded.each r listed).imp_left (List.prefix_append _ _).trans⟩
  rw [standing, List.map_eq_nil_iff, List.filter_eq_nil_iff]
  intro r listed stood
  rw [stands_above (recorded.each r listed).1 stood] at leans
  cases leans

theorem stands_step (trail : List ParentLink) (id : BlockId) {place : Place} (upright : ∀ slot, place ≠ .input slot) :
    stands (trail ++ [⟨id, place⟩]) = stands trail := by
  cases place with
  | input slot => exact absurd rfl (upright slot)
  | body slot => simp [stands]
  | next => simp [stands]

end

-- The blocks that hang below a block that has been come by.
section
variable {g : Graph} {root : BlockId} {trail : List ParentLink} {block : Block} {branches : List (Place × Tree)}

theorem watchValue_follows (wf : g.WellFormed) (full : g.Full (.node block branches))
    (each : ∀ p ∈ branches, Followed g root (trail ++ [⟨block.id, p.1⟩]) p.2) (slot : String) (w : Watch)
    (ready : Ready g trail w) (fresh : Fresh (idsAt branches (.input slot)) w) :
    Follows g [] (watchValue block (watchBranches trail block.id branches) slot)
      ((renderBranches branches).value? slot) w
      (Recorded g root trail (idsAt branches (.input slot)) []) := by
  have found : g.block? block.id = some block := full.found
  unfold watchValue Below.value?
  rw [lookup_renderBranches, watchBranches_eq, idsAt,
    lookup_hung fun place => watchTree (trail ++ [ParentLink.mk block.id place])]
  rw [idsAt] at fresh
  cases hangs : branches.lookup (.input slot) with
  | none =>
    refine ⟨[], .nothing, .refl ready.accountable, ?_⟩
    show StateT.run (missing block (.input slot) >>= fun _ => pure none) w = (none, w.after w.pass [])
    rw [StateT.run_bind, missing_run (held_none full hangs), w.after_nil]
    rfl
  | some tree =>
    rw [hangs] at fresh
    obtain ⟨branch, _, asks⟩ := full_child wf full hangs
    have below : Ready g (trail ++ [⟨block.id, .input slot⟩]) w := by
      refine ⟨ready.accountable, ?_⟩
      rw [ready.depth, loops_step found]
      simp [deepens]
    obtain ⟨order, follows⟩ := (each _ branch).code w below fresh
    rw [renderTree_valued asks.1 _ false] at follows
    obtain ⟨e, yields⟩ := renderTree_expression asks.1 false w.pass
    refine (follows.weaken fun new recorded => recorded.beside (by simp [stands])).finish ?_
    rw [yields]
    exact ⟨_, rfl, rfl⟩

theorem watchChain_follows (wf : g.WellFormed) (full : g.Full (.node block branches))
    (each : ∀ p ∈ branches, Followed g root (trail ++ [⟨block.id, p.1⟩]) p.2) {place : Place}
    (upright : ∀ slot, place ≠ .input slot) {inLoop : Bool} {w : Watch}
    (flag : inLoop = decide (0 < w.depth + deepens block place))
    (ready : Ready g trail w) (fresh : Fresh (idsAt branches place) w) :
    Follows g [] (watchChain block (watchBranches trail block.id branches) place)
      ((renderBranches branches).chainAt place inLoop) w
      (Recorded g root trail (idsAt branches place) (outlineAt trail block.id branches place)) := by
  have found : g.block? block.id = some block := full.found
  unfold watchChain Below.chainAt
  rw [lookup_renderBranches, watchBranches_eq, idsAt, outlineAt,
    lookup_hung fun place => watchTree (trail ++ [ParentLink.mk block.id place])]
  rw [idsAt] at fresh
  cases hangs : branches.lookup place with
  | none =>
    refine ⟨[], .nothing, .refl ready.accountable, ?_⟩
    show StateT.run (missing block place >>= fun _ => pure Chain.empty) w = (Chain.empty, w.after w.pass [])
    rw [StateT.run_bind, missing_run (held_none full hangs), w.after_nil]
    rfl
  | some tree =>
    rw [hangs] at fresh
    obtain ⟨branch, _, asks⟩ := full_child wf full hangs
    have below : Ready g (trail ++ [⟨block.id, place⟩]) { w with depth := w.depth + deepens block place } := by
      refine ⟨ready.accountable, ?_⟩
      rw [loops_step found, ← ready.depth]
    obtain ⟨new, recorded, traced, runs⟩ := (each _ branch).chain _ below fresh
    rw [← flag] at traced runs
    refine ⟨new, recorded.lift (stands_step trail block.id upright), traced, ?_⟩
    refine (run_lowered runs).trans ?_
    simp only [Watch.after, Nat.add_sub_cancel]
    rfl

end

-- Coming into a block, and leaving it with what was logged below it.
def Watch.entered (w : Watch) (id : BlockId) : Watch := { w with seen := w.seen ++ [id], log := [] }

theorem Fresh.entered {id : BlockId} {ids : List BlockId} {w : Watch} (fresh : Fresh (id :: ids) w)
    (once : (id :: ids).Nodup) : Fresh ids (w.entered id) := by
  intro other listed seen
  rcases List.mem_append.mp seen with old | just
  · exact fresh other (List.mem_cons_of_mem _ listed) old
  · rw [List.mem_singleton.mp just] at listed
    exact (List.nodup_cons.mp once).1 listed

theorem enter_run {trail : List ParentLink} {block : Block} {work : Watched Code} {w : Watch}
    (unseen : block.id ∉ w.seen) (named : namelessAmong w.pass.names block.id block.fields.values = [])
    {code : Code} {s : PassState} {new : List Rendered}
    (runs : work.run (w.entered block.id) = (code, (w.entered block.id).after s new)) :
    (enter trail block work).run w = (code, w.after s (⟨block.id, trail, w.depth, w.depth, code⟩ :: new)) := by
  have start : { w with
      seen := w.seen ++ [block.id]
      log := []
      faults := w.faults ++ namelessAmong w.pass.names block.id block.fields.values } = w.entered block.id := by
    rw [named, List.append_nil, Watch.entered]
  simp only [enter, StateT.run_bind, StateT.run_get, pure_bind, if_neg unseen, StateT.run_set, start, runs]
  show (code, _) = (code, _)
  simp only [Watch.after, Watch.entered, List.map_cons, List.append_assoc, List.singleton_append, List.nil_append]
  rfl

-- Whatever a field or a procedure refers to has a name.
section
variable {g : Graph} {names : NameTable}

theorem namelessAmong_nil {id : BlockId} {values : List FieldValue}
    (named : ∀ value ∈ values, hasName names value = true) : namelessAmong names id values = [] := by
  rw [namelessAmong, List.map_eq_nil_iff, List.filter_eq_nil_iff]
  intro value listed
  simp [named value listed]

theorem fields_named (wf : g.WellFormed) (keeps : Keeps (.build g (reservedIn g)) names) {block : Block}
    (found : g.block? block.id = some block) : namelessAmong names block.id block.fields.values = [] := by
  refine namelessAmong_nil fun value listed => ?_
  obtain ⟨field, held⟩ := Dict.mem_values.mp listed
  have sound := wf.bound.blocks block.id block.content (by rw [Graph.contents, found]; rfl)
  cases value with
  | variableRef v => exact variable_named keeps (sound.reads field v held)
  | procedureRef p =>
    obtain ⟨procedure, member, rfl, _⟩ := sound.serves field p held
    exact procedure_named keeps member
  | _ => rfl

end

theorem Recorded.cons {g : Graph} {root : BlockId} {trail : List ParentLink} {ids : List BlockId}
    {order : List (BlockId × List ParentLink)} {new : List Rendered}
    (recorded : Recorded g root trail ids order new) {r : Rendered} (here : r.trail = trail)
    (proper : r.Proper g root) :
    Recorded g root trail (r.id :: ids) ((r.id, trail) :: order) (r :: new) where
  within := (List.subperm_cons _).mpr recorded.within
  ordered upright := by
    rw [standing, List.filter_cons, here, if_pos upright, List.map_cons, here, ← recorded.ordered upright]
    rfl
  each := by
    refine List.forall_mem_cons.mpr ⟨⟨?_, proper⟩, recorded.each⟩
    rw [here]

-- The loop of a body is open in it.
theorem body_upright {block : Block} {place : Place} (body : place ∈ bodyPlaces block) (slot : String) :
    place ≠ .input slot := by
  rintro rfl
  cases (List.mem_filter.mp body).2

theorem deepens_body {block : Block} {place : Place} (body : place ∈ bodyPlaces block) (depth : Nat) :
    (block.kind.isLoop || decide (0 < depth)) = decide (0 < depth + deepens block place) := by
  cases loop : block.kind.isLoop with
  | true =>
    rw [loop_places loop, List.mem_singleton] at body
    simp [deepens, loop, body]
  | false => simp [deepens, loop]

-- A rule asks for all bodies of its block, and knows whether a loop is open in them.
theorem chainRequests_places {block : Block} (plain : block.kind.isDefinition = false) (inLoop : Bool) :
    (chainRequests block inLoop).map (·.1) = bodyPlaces block := by
  rw [chainRequests, plain, if_neg Bool.false_ne_true, List.map_map]
  exact List.map_id'' (fun _ => rfl) _

theorem chainRequests_flag {block : Block} {depth : Nat} {b : Place × Bool}
    (listed : b ∈ chainRequests block (decide (0 < depth))) :
    b.1 ∈ bodyPlaces block ∧ b.2 = decide (0 < depth + deepens block b.1) := by
  rw [chainRequests] at listed
  split at listed
  · cases listed
  · obtain ⟨place, body, rfl⟩ := List.mem_map.mp listed
    exact ⟨body, deepens_body body depth⟩

-- What a block asks for in its bodies is served in the order of the bodies.
theorem served_follows {g : Graph} (wf : g.WellFormed) {root : BlockId} {trail : List ParentLink} {block : Block}
    {branches : List (Place × Tree)} (full : g.Full (.node block branches))
    (each : ∀ p ∈ branches, Followed g root (trail ++ [⟨block.id, p.1⟩]) p.2) {α : Type} {ps : List Place}
    {bs : List (Place × Bool)} {family : Below → Pass α} (asking : Asking ps bs family) {lines : List String}
    (own : asking.Each (Hoists g lines))
    (bodies : ∀ b ∈ bs, b.1 ∈ bodyPlaces block ∧ b.2 = decide (0 < loops g trail + deepens block b.1))
    (once : (ps.flatMap (idsAt branches)).Nodup) {w : Watch} (ready : Ready g trail w)
    (fresh : Fresh (ps.flatMap (idsAt branches)) w) :
    Follows g lines (asking.serve (watchService block (watchBranches trail block.id branches)))
      (family (renderBranches branches)) w
      (Recorded g root trail (ps.flatMap (idsAt branches))
        ((bs.map (·.1)).flatMap (outlineAt trail block.id branches))) := by
  rw [List.flatMap_map]
  refine asking.follows (watchValue_follows wf full each) own (fun b listed v ready fresh => ?_) once ready fresh
  obtain ⟨body, flag⟩ := bodies b listed
  rw [← ready.depth] at flag
  exact watchChain_follows wf full each (body_upright body) flag ready fresh

theorem node_code {g : Graph} (wf : g.WellFormed) {root : BlockId} {trail : List ParentLink} {block : Block}
    {branches : List (Place × Tree)} (full : g.Full (.node block branches)) (path : g.Path root trail block.id)
    (plain : block.kind.isDefinition = false)
    (each : ∀ p ∈ branches, Followed g root (trail ++ [⟨block.id, p.1⟩]) p.2)
    (once : (block.id :: (slotPlaces block).flatMap (idsAt branches)).Nodup) {w : Watch} (ready : Ready g trail w)
    (fresh : Fresh (block.id :: (slotPlaces block).flatMap (idsAt branches)) w) :
    Follows g [] (watchTree trail (.node block branches)).code
      (rule block (renderBranches branches) (decide (0 < w.depth))) w
      (Recorded g root trail (block.id :: (slotPlaces block).flatMap (idsAt branches))
        ((block.id, trail) :: (bodyPlaces block).flatMap (outlineAt trail block.id branches))) := by
  have found : g.block? block.id = some block := full.found
  have entered : Ready g trail (w.entered block.id) := ⟨ready.accountable, ready.depth⟩
  have bodies : ∀ b ∈ chainRequests block (decide (0 < w.depth)),
      b.1 ∈ bodyPlaces block ∧ b.2 = decide (0 < loops g trail + deepens block b.1) := by
    rw [← ready.depth]
    exact fun b => chainRequests_flag
  have own := ruleAsking_each (Dict.mem_values.mpr ⟨_, found⟩) (decide (0 < w.depth))
  obtain ⟨new, recorded, traced, runs⟩ := served_follows wf full each (ruleAsking block (decide (0 < w.depth))) own
    bodies (List.nodup_cons.mp once).2 entered (fresh.entered once)
  rw [chainRequests_places plain] at recorded
  have proper : Rendered.Proper g root ⟨block.id, trail, w.depth, w.depth,
      ((rule block (renderBranches branches) (decide (0 < w.depth))).run w.pass).1⟩ := by
    refine ⟨path, ready.depth, rfl, fun other known kind => ?_⟩
    cases known.symm.trans found
    rw [← ready.depth]
    unfold rule
    rw [kind]
    rfl
  have named := fields_named wf ready.names found
  obtain ⟨counters, accountable⟩ := ready.accountable
  refine ⟨_, recorded.cons rfl proper, traced.cons (fun line listed => ⟨block, found, listed⟩) ?_,
    enter_run (fresh _ List.mem_cons_self) named runs⟩
  exact .of full rfl accountable rfl (.refl _)

theorem watchTree_followed {g : Graph} (wf : g.WellFormed) {tree : Tree} (full : g.Full tree) {root : BlockId}
    {trail : List ParentLink} (path : g.Path root trail tree.block.id)
    (plain : tree.block.kind.isDefinition = false) : Followed g root trail tree := by
  induction full generalizing trail with
  | @node block branches found whole below ih =>
    have full := Graph.Full.node found whole below
    have each : ∀ p ∈ branches, Followed g root (trail ++ [⟨block.id, p.1⟩]) p.2 := by
      intro p branch
      have holds := full.branch branch
      obtain ⟨_, _, asks⟩ := full_child wf full (lookup_of_mem full.places_nodup branch)
      exact ih p branch (path.extend found holds (below p branch).found) (asked_plain asks)
    have perm := ids_perm wf full
    have once := perm.nodup_iff.mpr (full.nodup wf.linked wf.built)
    rw [walkPlaces, List.flatMap_append, List.flatMap_singleton, ← List.cons_append] at perm once
    constructor
    · intro w ready fresh
      have start := node_code wf full path plain each once.of_append_left ready
        fun id listed => fresh id (perm.subset (List.mem_append_left _ listed))
      refine ⟨_, start.weaken fun _ recorded => recorded.more ?_⟩
      exact ((List.sublist_append_left _ _).subperm).trans perm.subperm
    · intro w ready fresh
      have fresh : Fresh (_ ++ _) w := fun id listed => fresh id (perm.subset listed)
      have start := node_code wf full path plain each once.of_append_left ready
        fun id listed => fresh id (List.mem_append_left _ listed)
      rw [outlineTree_node, List.flatMap_append, List.flatMap_singleton, ← List.cons_append]
      refine (start.bind (fun new recorded traced => ?_) fun _ _ one two => one.append two).weaken
        fun _ recorded => recorded.more perm.subperm
      have flag : decide (0 < w.depth) = decide (0 < w.depth + deepens block .next) := by simp [deepens]
      refine Follows.finish ?_ ⟨_, rfl, rfl⟩
      exact watchChain_follows wf full each (by simp) flag (ready.after traced) (fresh.after once recorded.within)

-- Functions of definitions.
theorem function_run {v : Watch} {id : BlockId} {values : List FieldValue}
    (named : namelessAmong v.pass.names id values = []) (outside : v.depth = 0) {act : Watched Unit}
    {s : PassState} {new : List Rendered} (runs : act.run v = ((), v.after s new)) :
    StateT.run (do
      let w ← get
      report (namelessAmong w.pass.names id values)
      modify fun inside : Watch => { inside with depth := 0 }
      act
      modify fun after : Watch => { after with depth := w.depth }
      return Code.nothing) v = (.nothing, v.after s new) := by
  have start : { v with depth := 0, faults := v.faults ++ namelessAmong v.pass.names id values } = v := by
    rw [named, List.append_nil, ← outside]
  show (Code.nothing, { (act.run { v with
    depth := 0
    faults := v.faults ++ namelessAmong v.pass.names id values }).2 with depth := v.depth }) = _
  rw [start, runs]
  rfl

-- A function asks for nothing by itself. Its lines are recorded when all of them are there.
theorem functionAsking_each {g : Graph} (procedure : Procedure) (definition : Block) :
    (functionAsking procedure definition).Each (Hoists g []) := by
  have looks : Hoists g [] (get : Pass PassState) :=
    ⟨get_accounts.weaken fun _ _ _ => trivial, fun _ _ => .inl⟩
  refine each_own_then looks fun s => And.intro trivial fun body => each_finish ?_ _
  unfold returnAsking
  split
  · trivial
  · exact each_done _

theorem defineWith_accountable {g : Graph} (wf : g.WellFormed) {block : Block} {branches : List (Place × Tree)}
    (found : g.block? block.id = some block) (grown : g.tree block = .node block branches) {s : PassState}
    (accountable : ∃ counters, Accountable g s counters) :
    ∃ counters, Accountable g ((defineWith g block (renderBranches branches)).run s).2 counters := by
  obtain ⟨counters, accountable⟩ := accountable
  obtain ⟨more, final, _⟩ := define_accounts wf found s counters accountable fun _ _ => trivial
  rw [define_eq, grown] at final
  exact ⟨more, final⟩

theorem watchFunction_follows {g : Graph} (wf : g.WellFormed) {block : Block} {branches : List (Place × Tree)}
    (full : g.Full (.node block branches)) (grown : g.tree block = .node block branches)
    (defines : block.kind.isDefinition = true) {procedure : Procedure}
    (bound : (block.procedureIn? "NAME").bind g.procedureWith? = some procedure)
    (once : ((slotPlaces block).flatMap (idsAt branches)).Nodup) {w : Watch} (ready : Ready g [] w)
    (fresh : Fresh ((slotPlaces block).flatMap (idsAt branches)) w) :
    Follows g [] (watchFunction procedure block (watchBranches [] block.id branches))
      (defineWith g block (renderBranches branches)) w
      (Recorded g block.id [] ((slotPlaces block).flatMap (idsAt branches))
        ((bodyPlaces block).flatMap (outlineAt [] block.id branches))) := by
  have found : g.block? block.id = some block := full.found
  have path : g.Path block.id [] block.id := .here found
  have each : ∀ p ∈ branches, Followed g block.id ([] ++ [⟨block.id, p.1⟩]) p.2 := by
    intro p branch
    obtain ⟨_, lower, asks⟩ := full_child wf full (lookup_of_mem full.places_nodup branch)
    exact watchTree_followed wf lower (path.extend found (full.branch branch) lower.found) (asked_plain asks)
  obtain ⟨places, bodies⟩ := definition_places defines
  have recorded := defineWith_accountable wf found grown ready.accountable
  rw [defineWith_bound bound] at recorded
  rw [defineWith_bound bound, places, bodies]
  rw [places] at once fresh
  have lines := served_follows wf full each (functionAsking procedure block) (functionAsking_each procedure block)
    (fun b listed => ?_) once ready fresh
  · refine lines.bind (fun _ _ _ => ?_) fun new more recorded (nothing : more = []) => ?_
    · refine .plainly ⟨recorded, ⟨.refl _, fun _ listed => ?_⟩, fun _ listed => ?_, fun _ listed => by cases listed⟩ rfl
      · exact (mem_imports_addDefinition _).mpr listed
      · exact .inl ((mem_imports_addDefinition _).mp listed)
    · rwa [nothing, List.append_nil]
  · obtain rfl := List.mem_singleton.mp listed
    refine ⟨bodies ▸ List.mem_singleton_self _, ?_⟩
    simp [loops, deepens]

-- Nothing follows a definition, and all that is done with one is to record its function.
theorem definition_last {g : Graph} (wf : g.WellFormed) {block : Block} {branches : List (Place × Tree)}
    (full : g.Full (.node block branches)) (defines : block.kind.isDefinition = true) (trail : List ParentLink) :
    outlineAt trail block.id branches .next = [] := by
  rw [outlineAt]
  cases hangs : branches.lookup .next with
  | none => rfl
  | some tree =>
    have connects := (full_child wf full hangs).2.2.2
    cases kind : block.kind with
    | definition returns =>
      rw [kind] at connects
      cases connects
    | _ =>
      rw [kind] at defines
      cases defines

theorem rule_definition {block : Block} (defines : block.kind.isDefinition = true) (below : Below) (inLoop : Bool)
    (s : PassState) : (rule block below inLoop).run s = (.nothing, s) := by
  unfold rule
  cases kind : block.kind with
  | definition returns => rfl
  | _ =>
    rw [kind] at defines
    cases defines

theorem visit_definition (g : Graph) {block : Block} (branches : List (Place × Tree))
    (defines : block.kind.isDefinition = true) :
    discard (visitTree g (.node block branches)) = defineWith g block (renderBranches branches) := by
  show discard (visit g block false (renderBranches branches)) = _
  rw [visit, if_pos defines]
  rfl

theorem params_named {g : Graph} (wf : g.WellFormed) {names : NameTable} (keeps : Keeps (.build g (reservedIn g)) names)
    {p : Procedure} (listed : p ∈ g.procedures) (id : BlockId) :
    namelessAmong names id (p.params.map .variableRef) = [] := by
  refine namelessAmong_nil fun value among => ?_
  obtain ⟨v, param, rfl⟩ := List.mem_map.mp among
  exact variable_named keeps ((wf.bound.procedures p listed).known v param)

theorem watchDefinition_follows {g : Graph} (wf : g.WellFormed) {tree : Tree} (full : g.Full tree)
    (grown : g.tree tree.block = tree) (defines : tree.block.kind.isDefinition = true) {w : Watch}
    (ready : Ready g [] w) (fresh : Fresh tree.ids w) :
    Follows g [] (watchDefinition g tree) (discard (visitTree g tree)) w
      (Recorded g tree.block.id [] tree.ids (outlineTree [] tree)) := by
  cases tree with
  | node block branches =>
    have defines : block.kind.isDefinition = true := defines
    have found : g.block? block.id = some block := full.found
    obtain ⟨procedure, listed, bound⟩ := definition_bound wf found defines
    have perm := ids_perm wf full
    have once := perm.nodup_iff.mpr (full.nodup wf.linked wf.built)
    rw [walkPlaces, List.flatMap_append, ← List.cons_append] at perm once
    have fresh : Fresh (block.id :: (slotPlaces block).flatMap (idsAt branches)) w :=
      fun id listed => fresh id (perm.subset (List.mem_append_left _ listed))
    have entered : Ready g [] (w.entered block.id) := ⟨ready.accountable, ready.depth⟩
    obtain ⟨new, recorded, traced, runs⟩ := watchFunction_follows wf full grown defines bound
      (List.nodup_cons.mp once.of_append_left).2 entered (fresh.entered once.of_append_left)
    have proper : Rendered.Proper g block.id ⟨block.id, [], w.depth, w.depth, .nothing⟩ := by
      refine ⟨.here found, ready.depth, rfl, fun other known kind => ?_⟩
      cases known.symm.trans found
      rw [kind] at defines
      cases defines
    have told := (recorded.cons rfl proper).more ((List.sublist_append_left _ _).subperm.trans perm.subperm)
    rw [visit_definition g branches defines]
    obtain ⟨counters, accountable⟩ := ready.accountable
    have quiet := rule_definition defines (renderBranches branches) false w.pass
    have stems : Rendered.Stems g _ ⟨block.id, [], w.depth, w.depth, .nothing⟩ :=
      .of full rfl accountable (by rw [quiet]) (by rw [quiet]; exact traced.since)
    refine ⟨⟨block.id, [], w.depth, w.depth, .nothing⟩ :: new, ?_,
      traced.cons (fun _ listed => by cases listed) stems, ?_⟩
    · rw [outlineTree_node, List.flatMap_append, List.flatMap_singleton, definition_last wf full defines,
        List.append_nil]
      exact told
    · have named := fields_named wf ready.names found
      have params := params_named wf entered.names listed block.id
      have outside : (w.entered block.id).depth = 0 := ready.depth
      rw [watchDefinition, bound]
      show ((), (StateT.run (enter _ _ _) w).2) = _
      rw [enter_run (fresh _ List.mem_cons_self) named (function_run params outside runs)]
      rfl

-- The log of several trees.
structure Logged (g : Graph) (ids : List BlockId) (order : List (BlockId × List ParentLink))
    (log : List Rendered) : Prop where
  within : (log.map (·.id)).Subperm ids
  ordered : standing log = order
  each : ∀ r ∈ log, ∃ root ∈ g.roots, r.Proper g root

section
variable {g : Graph} {ids ids' : List BlockId} {order order' : List (BlockId × List ParentLink)}
  {log log' : List Rendered}

theorem Recorded.logged {root : BlockId} (recorded : Recorded g root [] ids order log) (listed : root ∈ g.roots) :
    Logged g ids order log :=
  ⟨recorded.within, recorded.ordered rfl, fun r member => ⟨root, listed, (recorded.each r member).2⟩⟩

theorem Logged.nothing : Logged g [] [] [] := ⟨List.nil_subperm, rfl, fun _ listed => by cases listed⟩

theorem Logged.append (first : Logged g ids order log) (second : Logged g ids' order' log') :
    Logged g (ids ++ ids') (order ++ order') (log ++ log') where
  within := by
    rw [List.map_append]
    exact first.within.append second.within
  ordered := by rw [standing_append, first.ordered, second.ordered]
  each r listed := (List.mem_append.mp listed).elim (first.each r) (second.each r)

end

-- A round over trees, by an action that follows on each of them.
section
variable {g : Graph} {α : Type} {act : Tree → Watched α} {plain : Tree → Pass α}

def FollowsAll (g : Graph) (act : Tree → Watched α) (plain : Tree → Pass α) (trees : List Tree) : Prop :=
  ∀ tree ∈ trees, ∀ w, Ready g [] w → Fresh tree.ids w →
    Follows g [] (act tree) (plain tree) w (Logged g tree.ids (outlineTree [] tree))

theorem mapM_follows {trees : List Tree} (each : FollowsAll g act plain trees)
    (once : (trees.flatMap Tree.ids).Nodup) {w : Watch} (ready : Ready g [] w)
    (fresh : Fresh (trees.flatMap Tree.ids) w) :
    Follows g [] (trees.mapM act) (trees.mapM plain) w
      (Logged g (trees.flatMap Tree.ids) (trees.flatMap (outlineTree []))) := by
  induction trees generalizing w with
  | nil => exact .pure [] ready.accountable .nothing
  | cons tree rest ih =>
    obtain ⟨here, later⟩ := List.forall_mem_cons.mp each
    rw [List.flatMap_cons] at once fresh ⊢
    rw [List.flatMap_cons, List.mapM_cons, List.mapM_cons]
    have start := here w ready fun id listed => fresh id (List.mem_append_left _ listed)
    refine start.bind (fun new logged traced => ?_) fun _ _ one two => one.append two
    exact (ih later once.of_append_right (ready.after traced) (fresh.after once logged.within)).finish ⟨_, rfl, rfl⟩

theorem forM_follows {act : Tree → Watched Unit} {plain : Tree → Pass Unit} {trees : List Tree}
    (each : FollowsAll g act plain trees) (once : (trees.flatMap Tree.ids).Nodup) {w : Watch}
    (ready : Ready g [] w) (fresh : Fresh (trees.flatMap Tree.ids) w) :
    Follows g [] (trees.forM act) (trees.forM plain) w
      (Logged g (trees.flatMap Tree.ids) (trees.flatMap (outlineTree []))) := by
  induction trees generalizing w with
  | nil => exact .pure () ready.accountable .nothing
  | cons tree rest ih =>
    obtain ⟨here, later⟩ := List.forall_mem_cons.mp each
    rw [List.flatMap_cons] at once fresh ⊢
    rw [List.flatMap_cons]
    have start := here w ready fun id listed => fresh id (List.mem_append_left _ listed)
    refine start.bind (fun new logged traced => ?_) fun _ _ one two => one.append two
    exact ih later once.of_append_right (ready.after traced) (fresh.after once logged.within)

end

-- Every procedure has its definition.
theorem watchProcedures_eq {g : Graph} (wf : g.WellFormed) {procedures : List Procedure}
    (known : ∀ p ∈ procedures, p ∈ g.procedures) : procedures.forM (watchProcedure g)
      = (procedures.filterMap fun p => g.tree? p.definition).forM (watchDefinition g) := by
  induction procedures with
  | nil => rfl
  | cons p rest ih =>
    obtain ⟨listed, later⟩ := List.forall_mem_cons.mp known
    obtain ⟨block, _, planted, _⟩ := definition_planted wf listed
    show (watchProcedure g p >>= fun _ => rest.forM (watchProcedure g)) = _
    rw [ih later, List.filterMap_cons, watchProcedure, planted]
    rfl

theorem main_followed {g : Graph} (wf : g.WellFormed) :
    FollowsAll g (fun tree => (watchTree [] tree).chain) (visitTree g) (mainTrees g) := by
  intro tree listed w ready fresh
  obtain ⟨planted, plain⟩ := List.mem_filter.mp listed
  have plain : tree.block.kind.isDefinition = false := by simpa using plain
  obtain ⟨found, _, root⟩ := Graph.mem_forest wf.built planted
  have followed := watchTree_followed wf (wf.linked.forest_full wf.built planted) (.here found) plain
  have outside : decide (0 < w.depth) = false := by
    rw [ready.depth]
    rfl
  have chain := followed.chain w ready fresh
  rw [outside, renderTree_chain g plain] at chain
  exact chain.weaken fun _ recorded => recorded.logged root

theorem definitions_followed {g : Graph} (wf : g.WellFormed) :
    FollowsAll g (watchDefinition g) (fun tree => discard (visitTree g tree)) (definitionTrees g) := by
  intro tree listed w ready fresh
  obtain ⟨planted, defines⟩ := (mem_definitionTrees wf).mp listed
  obtain ⟨_, grown, root⟩ := Graph.mem_forest wf.built planted
  exact (watchDefinition_follows wf (wf.linked.forest_full wf.built planted) grown.symm defines ready fresh).weaken
    fun _ recorded => recorded.logged root

-- The whole pass.
theorem watchProgram_follows {g : Graph} (wf : g.WellFormed) : Follows g [] (watchProgram g) (programPass g) (.start g)
    (Logged g ((mainTrees g ++ definitionTrees g).flatMap Tree.ids)
      ((mainTrees g ++ definitionTrees g).flatMap (outlineTree []))) := by
  have once : ((mainTrees g ++ definitionTrees g).flatMap Tree.ids).Nodup := by
    rw [((trees_perm wf).flatMap_right Tree.ids).nodup_iff]
    have distinct := wf.linked.forest_nodup wf.built
    rwa [List.map_flatMap] at distinct
  have ready : Ready g [] (.start g) := ⟨⟨[], .start⟩, rfl⟩
  have fresh : Fresh ((mainTrees g ++ definitionTrees g).flatMap Tree.ids) (.start g) := fun _ _ => List.not_mem_nil
  rw [List.flatMap_append] at once fresh ⊢
  rw [List.flatMap_append, programPass_eq wf, watchProgram, rounds]
  have start := mapM_follows (main_followed wf) once.of_append_left ready
    fun id listed => fresh id (List.mem_append_left _ listed)
  refine start.bind (fun new logged traced => ?_) fun _ _ one two => one.append two
  refine Follows.finish ?_ ⟨_, rfl, rfl⟩
  rw [watchProcedures_eq wf fun _ listed => listed]
  exact forM_follows (definitions_followed wf) once.of_append_right (ready.after traced)
    (fresh.after once logged.within)

end Blockwork.Generation
