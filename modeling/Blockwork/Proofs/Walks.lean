import Mathlib
import Blockwork.Generation.Program
import Blockwork.Proofs.Paths
import Blockwork.Proofs.Requests
import Blockwork.Proofs.SavedTables

-- The two walks over a graph. Saving makes one saved block of each block. A pass of
-- generation comes by each block at most once, since no rule runs a place twice.
namespace Blockwork

namespace Snapshot

mutual

def savedIds : SavedBlock → List BlockId
  | .mk record inputs next => ⟨record.id⟩ :: (savedIdsInputs inputs ++ savedIdsNext next)

def savedIdsInputs : List (String × Connected SavedBlock) → List BlockId
  | [] => []
  | (_, connected) :: rest => savedIdsConnected connected ++ savedIdsInputs rest

def savedIdsNext : Option (Connected SavedBlock) → List BlockId
  | none => []
  | some connected => savedIdsConnected connected

def savedIdsConnected : Connected SavedBlock → List BlockId
  | ⟨some block, some behind⟩ => savedIds block ++ savedIds behind
  | ⟨some block, none⟩ => savedIds block
  | ⟨none, some behind⟩ => savedIds behind
  | ⟨none, none⟩ => []

end

theorem savedIdsInputs_branches (branches : List (Place × Tree)) :
    savedIdsInputs (branches.map savedBranch)
      = branches.flatMap fun p => savedIds (captureTree p.2) := by
  induction branches with
  | nil => rfl
  | cons head rest ih =>
    simp only [List.map_cons, savedBranch, savedIdsInputs, savedIdsConnected, List.flatMap_cons]
    exact congrArg _ ih

theorem savedIdsNext_branches {branches : List (Place × Tree)}
    (distinct : (branches.map (·.1)).Nodup) : savedIdsNext (captureNext branches)
      = (branches.filter (·.1 = .next)).flatMap fun p => savedIds (captureTree p.2) := by
  rw [captureNext_eq]
  rcases followers_cases distinct with none | ⟨tree, _, follower⟩
  · rw [none]
    rfl
  · rw [follower]
    exact (List.append_nil _).symm

theorem savedIds_tree {g : Graph} (wf : g.WellFormed) {tree : Tree} (full : g.Full tree) :
    (savedIds (captureTree tree)).Perm tree.ids := by
  induction full with
  | @node block branches found whole below ih =>
    have full := Graph.Full.node found whole below
    obtain ⟨slotted, slots, split, saved⟩ := captureInputs_sorted wf full
    rw [captureTree, savedIds, ← saved, savedIdsInputs_branches,
      savedIdsNext_branches full.places_nodup, ← List.flatMap_append]
    have each : (branches.flatMap fun p => savedIds (captureTree p.2)).Perm
        (branches.flatMap fun p => p.2.ids) := List.Perm.flatMap_left _ fun p branch => ih p branch
    rw [Tree.ids_node]
    exact ((split.flatMap_right _).trans each).cons block.id

theorem savedIds_capture {g : Graph} (wf : g.WellFormed) :
    ((capture g).blocks.flatMap savedIds).Perm (g.forest.flatMap Tree.ids) := by
  rw [capture, List.flatMap_map]
  exact List.Perm.flatMap_left _ fun tree member =>
    savedIds_tree wf (wf.linked.forest_full wf.built member)

end Snapshot

namespace Generation

open Python

-- How a family of actions uses the blocks below a block. It runs what hangs at the
-- places in the list, each as often as it is listed at most, and apart from that
-- it does not depend on them.
inductive Runs : {α : Type} → List Place → (Below → Pass α) → Prop where
  | own {α : Type} (action : Pass α) : Runs [] fun _ => action
  | value (slot : String) : Runs [.input slot] fun below => below.value? slot
  | chain (place : Place) (inLoop : Bool) : Runs [place] fun below => below.chainAt place inLoop
  | bind {α β : Type} {ps qs : List Place} {first : Below → Pass α} {next : α → Below → Pass β}
      (one : Runs ps first) (two : ∀ a, Runs qs (next a)) :
      Runs (ps ++ qs) fun below => first below >>= fun a => next a below
  | more {α : Type} {ps qs : List Place} {family : Below → Pass α} (fewer : ps.Subperm qs)
      (runs : Runs ps family) : Runs qs family

namespace Runs

variable {α β : Type} {ps : List Place}

theorem chain_then {place : Place} {inLoop : Bool} {next : Chain → Below → Pass β}
    (rest : ∀ chain, Runs ps (next chain)) :
    Runs (place :: ps) fun below => below.chainAt place inLoop >>= fun c => next c below :=
  bind (chain place inLoop) rest

theorem finish {family : Below → Pass α} (runs : Runs ps family) (result : α → Pass β) :
    Runs ps fun below => family below >>= result := by
  have whole := bind runs fun a => own (result a)
  rwa [List.append_nil] at whole

end Runs

theorem Asking.runs {α : Type} {ps : List Place} {bs : List (Place × Bool)} {family : Below → Pass α}
    (asking : Asking ps bs family) : Runs ps family := by
  induction asking with
  | own _ => exact .own _
  | value slot => exact .value slot
  | chain place inLoop => exact .chain place inLoop
  | bind _ _ first second => exact .bind first second
  | less fewer _ same _ ih => exact same ▸ .more fewer ih

-- Every rule runs the places of its block at most once.
theorem rule_runs (block : Block) (inLoop : Bool) :
    Runs (slotPlaces block) fun below => rule block below inLoop := (ruleAsking block inLoop).runs

-- The function of a definition, given what hangs below it.
def defineWith (g : Graph) (definition : Block) (below : Below) : Pass Unit := do
  match (definition.procedureIn? "NAME").bind g.procedureWith? with
  | none => return ()
  | some procedure =>
    let names := (← get).names
    let name := (names.procedureName? procedure.id).getD "unnamed"
    let params := procedure.params.map fun param => (names.variableName? param).getD noTarget
    let body ← below.chainAt (.body "STACK") false
    let result ← if definition.kind = .definition true then below.value? "RETURN" else pure none
    let last := match result with
      | some value => [.flat ("return " ++ value.render)]
      | none => if body.acts then [] else [.flat "pass"]
    addFunction ("%procedure%" ++ procedure.id.text)
      (.flat ("def " ++ name ++ "(" ++ String.intercalate ", " params ++ "):")
        :: deeper (body.lines ++ last))

theorem define_eq (g : Graph) (definition : Block) :
    define g definition = defineWith g definition (renderBranches (g.tree definition).branches) := rfl

-- Its lines alone, and what they ask for.
def returnValue (definition : Block) (below : Below) : Pass (Option Expr) :=
  if definition.kind = .definition true then below.value? "RETURN" else pure none

def functionLines (procedure : Procedure) (definition : Block) (below : Below) : Pass (List Line) := do
  let names := (← get).names
  let name := (names.procedureName? procedure.id).getD "unnamed"
  let params := procedure.params.map fun param => (names.variableName? param).getD noTarget
  let body ← below.chainAt (.body "STACK") false
  let result ← returnValue definition below
  let last := match result with
    | some value => [.flat ("return " ++ value.render)]
    | none => if body.acts then [] else [.flat "pass"]
  return .flat ("def " ++ name ++ "(" ++ String.intercalate ", " params ++ "):") :: deeper (body.lines ++ last)

theorem defineWith_bound {g : Graph} {definition : Block} {procedure : Procedure}
    (bound : (definition.procedureIn? "NAME").bind g.procedureWith? = some procedure) (below : Below) :
    defineWith g definition below = (do
      addFunction ("%procedure%" ++ procedure.id.text) (← functionLines procedure definition below)) := by
  unfold defineWith functionLines returnValue
  rw [bound]
  by_cases returns : definition.kind = .definition true
  · simp only [if_pos returns, bind_assoc, pure_bind]
  · simp only [if_neg returns, bind_assoc, pure_bind]

def returnPlaces (definition : Block) : List Place :=
  if definition.kind = .definition true then [.input "RETURN"] else []

def returnAsking (definition : Block) : Asking (returnPlaces definition) [] (returnValue definition) :=
  if returns : definition.kind = .definition true then
    .fitting (by rw [returnPlaces, if_pos returns]) (by funext; rw [returnValue, if_pos returns]) (.value "RETURN")
  else .fitting List.nil_subperm (by funext; rw [returnValue, if_neg returns]) (.done none)

def functionAsking (procedure : Procedure) (definition : Block) :
    Asking (.body "STACK" :: returnPlaces definition) [(.body "STACK", false)]
      (functionLines procedure definition) :=
  .own_then (fun s => .refl s) fun _ => .chain_then fun _ => (returnAsking definition).finish _

theorem definition_places {block : Block} (defines : block.kind.isDefinition = true) :
    slotPlaces block = .body "STACK" :: returnPlaces block ∧ bodyPlaces block = [.body "STACK"] := by
  cases kind : block.kind with
  | definition returns =>
    rw [bodyPlaces, slotPlaces_fixed kind rfl, returnPlaces, kind]
    cases returns with
    | true => exact ⟨rfl, rfl⟩
    | false => exact ⟨rfl, rfl⟩
  | _ =>
    rw [kind] at defines
    cases defines

theorem defineWith_runs (g : Graph) {definition : Block} (defines : definition.kind.isDefinition = true) :
    Runs (slotPlaces definition) (defineWith g definition) := by
  cases bound : (definition.procedureIn? "NAME").bind g.procedureWith? with
  | none =>
    unfold defineWith
    rw [bound]
    exact .more List.nil_subperm (.own _)
  | some procedure =>
    rw [funext (defineWith_bound bound), (definition_places defines).1]
    exact (functionAsking procedure definition).runs.finish _

-- What a pass does when it comes by a block as a part of a chain. A definition is at
-- no place of a chain; what is done with it is to record its function.
def visit (g : Graph) (block : Block) (inLoop : Bool) (below : Below) : Pass Chain :=
  if block.kind.isDefinition then do
    defineWith g block below
    return .empty
  else do
    let code ← rule block below inLoop
    let rest ← below.chainAt .next inLoop
    return (code.toChain block.kind).append rest

def walkPlaces (block : Block) : List Place := slotPlaces block ++ [.next]

theorem visit_runs (g : Graph) (block : Block) (inLoop : Bool) :
    Runs (walkPlaces block) (visit g block inLoop) := by
  unfold visit
  split
  · next defines =>
    refine .more (List.sublist_append_left _ _).subperm ?_
    exact (defineWith_runs g defines).finish _
  · exact .bind (rule_runs block inLoop) fun code => .chain_then fun rest => .own _

theorem code_runs (block : Block) (inLoop : Bool) :
    Runs (walkPlaces block) fun below => rule block below inLoop :=
  .more (List.sublist_append_left _ _).subperm (rule_runs block inLoop)

theorem placeOf?_eq_some {slot : Slot} {place : Place} (placed : placeOf? slot = some place) :
    place ≠ .next ∧ place.slotName = slot.name := by
  unfold placeOf? at placed
  split at placed
  · cases placed
  · cases placed
    exact ⟨nofun, rfl⟩
  · cases placed
    exact ⟨nofun, rfl⟩

theorem slotPlaces_names (slots : List Slot) :
    ((slots.filterMap placeOf?).map Place.slotName).Sublist (slots.map (·.name)) := by
  induction slots with
  | nil => exact .slnil
  | cons slot rest ih =>
    rw [List.filterMap_cons, List.map_cons]
    cases placed : placeOf? slot with
    | none => exact ih.cons _
    | some place =>
      rw [List.map_cons, (placeOf?_eq_some placed).2]
      exact ih.cons_cons _

theorem walkPlaces_nodup (block : Block) : (walkPlaces block).Nodup := by
  have names := (Kind.names_nodup block.kind block.extent).sublist (slotPlaces_names _)
  apply List.nodup_append.mpr
  refine ⟨names.of_map, List.nodup_singleton _, ?_⟩
  intro place listed other last
  obtain ⟨slot, _, placed⟩ := List.mem_filterMap.mp listed
  rw [List.mem_singleton.mp last]
  exact (placeOf?_eq_some placed).1

theorem mem_walkPlaces {block : Block} (shaped : block.Shaped) {place : Place} {child : BlockId}
    (holds : block.held place = some child) : place ∈ walkPlaces block := by
  have has := Block.hasPlace_of_held shaped holds
  cases place with
  | next => exact List.mem_append_right _ (List.mem_singleton_self _)
  | input slot =>
    obtain ⟨check, sort⟩ := Kind.hasPlace_input.mp has
    exact List.mem_append_left _ (List.mem_filterMap.mpr ⟨_, Kind.slot?_eq_some.mp sort, rfl⟩)
  | body slot =>
    have sort := Kind.hasPlace_body.mp has
    exact List.mem_append_left _ (List.mem_filterMap.mpr ⟨_, Kind.slot?_eq_some.mp sort, rfl⟩)

-- The blocks that a walk of a tree comes by, as often as the rules may run them: the
-- top, and what hangs at the places that the work on it runs.
inductive Tours (g : Graph) : Tree → List BlockId → Prop where
  | node {block : Block} {branches : List (Place × Tree)} {places : List Place}
      {below : Place → List BlockId}
      (code : ∀ inLoop, Runs places fun children => rule block children inLoop)
      (chain : ∀ inLoop, Runs places (visit g block inLoop))
      (hanging : ∀ place ∈ places, ∀ tree, branches.lookup place = some tree →
        Tours g tree (below place))
      (empty : ∀ place ∈ places, branches.lookup place = none → below place = []) :
      Tours g (.node block branches) (block.id :: places.flatMap below)

theorem mem_of_lookup {branches : List (Place × Tree)} {place : Place} {tree : Tree}
    (hangs : branches.lookup place = some tree) : (place, tree) ∈ branches := by
  obtain ⟨before, after, rfl, _⟩ := List.lookup_eq_some_iff.mp hangs
  exact List.mem_append_right _ List.mem_cons_self

theorem lookup_of_mem {branches : List (Place × Tree)} (distinct : (branches.map (·.1)).Nodup)
    {branch : Place × Tree} (member : branch ∈ branches) :
    branches.lookup branch.1 = some branch.2 := by
  cases hangs : branches.lookup branch.1 with
  | none =>
    have absent := List.lookup_eq_none_iff.mp hangs branch member
    simp at absent
  | some tree =>
    have same := List.inj_on_of_nodup_map distinct (mem_of_lookup hangs) member rfl
    rw [← same]

theorem lookup_hung {β : Type} (f : Place → Tree → β) (branches : List (Place × Tree)) (place : Place) :
    (branches.map fun p => (p.1, f p.1 p.2)).lookup place = (branches.lookup place).map (f place) := by
  induction branches with
  | nil => rfl
  | cons head rest ih =>
    rw [List.map_cons, List.lookup_cons, List.lookup_cons, ih]
    split
    · next same => rw [eq_of_beq same]; rfl
    · rfl

theorem asked_plain {block : Block} {place : Place} {kind : Kind} (asks : Graph.Asks block place kind) :
    kind.isDefinition = false := by
  cases kind with
  | definition returns => cases place <;> cases asks.1
  | _ => rfl

-- Going through all places comes to the same as going through the branches.
theorem flatMap_places {branches : List (Place × Tree)} {places : List Place}
    {below : Place → List BlockId} (distinct : (branches.map (·.1)).Nodup) (once : places.Nodup)
    (inside : ∀ p ∈ branches, p.1 ∈ places)
    (empty : ∀ place, branches.lookup place = none → below place = []) :
    (places.flatMap below).Perm (branches.flatMap fun p => below p.1) := by
  let others := places.filter fun place => decide (place ∉ branches.map (·.1))
  have apart : (branches.map (·.1) ++ others).Nodup := by
    refine List.nodup_append.mpr ⟨distinct, once.filter _, ?_⟩
    rintro place listed _ other rfl
    exact of_decide_eq_true (List.mem_filter.mp other).2 listed
  have split : places.Perm (branches.map (·.1) ++ others) := by
    refine (List.perm_ext_iff_of_nodup once apart).mpr fun place => ?_
    by_cases listed : place ∈ branches.map (·.1)
    · obtain ⟨p, member, rfl⟩ := List.mem_map.mp listed
      exact ⟨fun _ => List.mem_append_left _ listed, fun _ => inside p member⟩
    · simp [others, listed]
  have nothing : others.flatMap below = [] := by
    refine List.flatMap_eq_nil_iff.mpr fun place other => empty place ?_
    refine List.lookup_eq_none_iff.mpr fun p member => ?_
    have absent := of_decide_eq_true (List.mem_filter.mp other).2
    have different : place ≠ p.1 := fun same => absent (same ▸ List.mem_map_of_mem member)
    simpa using different
  have whole := split.flatMap_right below
  rwa [List.flatMap_append, nothing, List.append_nil, List.flatMap_map] at whole

theorem tours_full {g : Graph} (wf : g.WellFormed) {tree : Tree} (full : g.Full tree) :
    ∃ ids, Tours g tree ids ∧ ids.Perm tree.ids := by
  induction full with
  | @node block branches found whole under ih =>
    have full := Graph.Full.node found whole under
    have each : ∀ place, ∃ ids : List BlockId,
        (∀ tree, branches.lookup place = some tree → Tours g tree ids ∧ ids.Perm tree.ids) ∧
        (branches.lookup place = none → ids = []) := by
      intro place
      cases hangs : branches.lookup place with
      | none => exact ⟨[], nofun, fun _ => rfl⟩
      | some tree =>
        obtain ⟨ids, tours, perm⟩ := ih _ (mem_of_lookup hangs)
        refine ⟨ids, ?_, nofun⟩
        rintro _ ⟨⟩
        exact ⟨tours, perm⟩
    choose below hanging empty using each
    refine ⟨block.id :: (walkPlaces block).flatMap below, ?_, ?_⟩
    · apply Tours.node (code_runs block) (visit_runs g block)
      · exact fun place _ tree hangs => (hanging place tree hangs).1
      · exact fun place _ nothing => empty place nothing
    · have shaped := (wf.built _ block found).2.shaped
      have inside : ∀ p ∈ branches, p.1 ∈ walkPlaces block := fun p branch =>
        mem_walkPlaces shaped (full.branch branch)
      have places := flatMap_places full.places_nodup (walkPlaces_nodup block) inside empty
      have same : (branches.flatMap fun p => below p.1).Perm (branches.flatMap fun p => p.2.ids) :=
        List.Perm.flatMap_left _ fun p branch =>
          (hanging p.1 p.2 (lookup_of_mem full.places_nodup branch)).2
      rw [Tree.ids_node]
      exact (places.trans same).cons block.id

-- The program: a round over the trees of the roots, first those of the main chains,
-- then those of the procedures.
def mainTrees (g : Graph) : List Tree := g.forest.filter (!·.block.kind.isDefinition)

def definitionTrees (g : Graph) : List Tree := g.procedures.filterMap fun p => g.tree? p.definition

def visitTree (g : Graph) (tree : Tree) : Pass Chain :=
  visit g tree.block false (renderBranches tree.branches)

def rounds (g : Graph) (main definitions : List Tree) : Pass (List (List Line)) := do
  let chains ← main.mapM (visitTree g)
  definitions.forM fun tree => discard (visitTree g tree)
  return (chains.map (·.lines)).filter (!·.isEmpty)

theorem renderTree_chain (g : Graph) {tree : Tree} (plain : tree.block.kind.isDefinition = false) :
    (renderTree tree).chain false = visitTree g tree := by
  cases tree with
  | node block branches =>
    have no : ¬block.kind.isDefinition = true := by simpa [Tree.block] using plain
    rw [visitTree, visit, if_neg (by exact no), renderTree]
    rfl

theorem mainChains_eq (g : Graph) (trees : List Tree) : mainChains trees = (do
    let chains ← (trees.filter (!·.block.kind.isDefinition)).mapM (visitTree g)
    return (chains.map (·.lines)).filter (!·.isEmpty)) := by
  induction trees with
  | nil => rfl
  | cons tree rest ih =>
    rw [mainChains, List.filter_cons, ih]
    cases plain : tree.block.kind.isDefinition with
    | true => simp
    | false =>
      rw [renderTree_chain g plain]
      simp only [Bool.not_false, if_true, Bool.false_eq_true, if_false, List.mapM_cons, bind_assoc,
        pure_bind]
      refine bind_congr fun chain => bind_congr fun chains => ?_
      rw [List.map_cons, List.filter_cons]
      cases chain.lines.isEmpty <;> rfl

theorem define_visit (g : Graph) {definition : Block}
    (defines : definition.kind.isDefinition = true) :
    define g definition = discard (visitTree g (g.tree definition)) := by
  have own : (g.tree definition).block = definition := Graph.treeTo_block _ _
  rw [visitTree, own, visit, if_pos defines, define_eq]
  rfl

theorem definition_planted {g : Graph} (wf : g.WellFormed) {p : Procedure}
    (listed : p ∈ g.procedures) : ∃ block, g.block? p.definition = some block ∧
      g.tree? p.definition = some (g.tree block) ∧ (g.tree block).block = block ∧
      block.kind.isDefinition = true ∧ block.fields.get? "NAME" = some (.procedureRef p.id) := by
  obtain ⟨block, found, kind, named⟩ := Graph.block_of_definition wf.bound listed
  refine ⟨block, found, ?_, Graph.treeTo_block _ _, ?_, named⟩
  · rw [Graph.tree?, found]
    rfl
  · rw [kind]
    rfl

theorem definition_bound {g : Graph} (wf : g.WellFormed) {block : Block} (found : g.block? block.id = some block)
    (defines : block.kind.isDefinition = true) : ∃ procedure ∈ g.procedures,
      (block.procedureIn? "NAME").bind g.procedureWith? = some procedure := by
  obtain ⟨procedure, listed, named, _⟩ := wf.definition_binds found defines
  refine ⟨procedure, listed, ?_⟩
  rw [Block.procedureIn?_eq_some.mpr named, Option.bind_some]
  exact wf.procedureWith?_listed listed

theorem defineAll_eq {g : Graph} (wf : g.WellFormed) {procedures : List Procedure}
    (known : ∀ p ∈ procedures, p ∈ g.procedures) : defineAll g procedures
      = (procedures.filterMap fun p => g.tree? p.definition).forM fun tree =>
          discard (visitTree g tree) := by
  induction procedures with
  | nil => rfl
  | cons p rest ih =>
    obtain ⟨listed, later⟩ := List.forall_mem_cons.mp known
    obtain ⟨block, found, planted, _, defines, _⟩ := definition_planted wf listed
    rw [defineAll, ih later, List.filterMap_cons, planted, found]
    simp only [define_visit g defines]
    rfl

theorem programPass_eq {g : Graph} (wf : g.WellFormed) :
    programPass g = rounds g (mainTrees g) (definitionTrees g) := by
  rw [programPass, mainChains_eq g, defineAll_eq wf fun _ listed => listed]
  simp only [bind_assoc, pure_bind]
  rfl

theorem mem_definitionTrees {g : Graph} (wf : g.WellFormed) {tree : Tree} :
    tree ∈ definitionTrees g ↔ tree ∈ g.forest ∧ tree.block.kind.isDefinition = true := by
  constructor
  · intro listed
    obtain ⟨p, member, grown⟩ := List.mem_filterMap.mp listed
    obtain ⟨block, found, planted, own, defines, _⟩ := definition_planted wf member
    have root := wf.linked.root.mpr ⟨block, found, wf.linked.definition_root found defines⟩
    cases grown.symm.trans planted
    exact ⟨List.mem_filterMap.mpr ⟨p.definition, root, planted⟩, own.symm ▸ defines⟩
  · rintro ⟨member, defines⟩
    obtain ⟨found, grown, _⟩ := Graph.mem_forest wf.built member
    obtain ⟨p, listed, _, _, own⟩ := wf.definition_binds found defines
    refine List.mem_filterMap.mpr ⟨p, listed, ?_⟩
    rw [Graph.tree?, own, found, Option.map_some, ← grown]

theorem definitionTrees_nodup {g : Graph} (wf : g.WellFormed) : (definitionTrees g).Nodup := by
  have ids : (definitionTrees g).map (·.block.id) = g.procedures.map (·.definition) := by
    rw [definitionTrees, List.map_filterMap, ← List.filterMap_eq_map]
    refine List.filterMap_congr fun p listed => ?_
    obtain ⟨block, found, planted, own, _⟩ := definition_planted wf listed
    rw [planted, Option.map_some, own, (wf.built _ block found).1]
    rfl
  apply List.Nodup.of_map (·.block.id)
  rw [ids]
  refine List.Nodup.map_on ?_ (List.Nodup.of_map _ wf.procedureNames.ids)
  intro p listed q listed' same
  obtain ⟨block, found, _, _, _, named⟩ := definition_planted wf listed
  obtain ⟨block', found', _, _, _, named'⟩ := definition_planted wf listed'
  rw [same, found'] at found
  cases found
  rw [named, Option.some.injEq, FieldValue.procedureRef.injEq] at named'
  exact wf.procedureNames.unique listed listed' named'

theorem trees_perm {g : Graph} (wf : g.WellFormed) :
    (mainTrees g ++ definitionTrees g).Perm g.forest := by
  have planted : (g.forest.map (·.block.id)).Nodup := by
    rw [wf.linked.forest_roots wf.built]
    exact wf.linked.nodup
  have definitions : (definitionTrees g).Perm (g.forest.filter (·.block.kind.isDefinition)) := by
    refine (List.perm_ext_iff_of_nodup (definitionTrees_nodup wf) (planted.of_map.filter _)).mpr ?_
    intro tree
    rw [mem_definitionTrees wf, List.mem_filter]
  have both := List.filter_append_perm (fun t : Tree => !t.block.kind.isDefinition) g.forest
  simp only [Bool.not_not] at both
  exact (definitions.append_left _).trans both

end Generation

-- What the two walks of a graph are: the trees that they follow are whole, saving
-- writes each block once, and a pass makes one round over the trees of the roots
-- and comes by no block twice.
structure Graph.Walked (g : Graph) : Prop where
  whole : ∀ tree ∈ g.forest, g.Full tree
  saved : ((Snapshot.capture g).blocks.flatMap Snapshot.savedIds).Nodup
  complete : ∀ id, id ∈ (Snapshot.capture g).blocks.flatMap Snapshot.savedIds ↔
    (g.block? id).isSome
  round : Generation.programPass g
    = Generation.rounds g (Generation.mainTrees g) (Generation.definitionTrees g)
  trees : (Generation.mainTrees g ++ Generation.definitionTrees g).Perm g.forest
  toured : ∃ seen : Tree → List BlockId, (∀ tree ∈ g.forest, Generation.Tours g tree (seen tree)) ∧
    (g.forest.flatMap seen).Nodup

theorem Graph.WellFormed.walked {g : Graph} (wf : g.WellFormed) : g.Walked := by
  have full : ∀ tree ∈ g.forest, g.Full tree := fun tree => wf.linked.forest_full wf.built
  have ids : (g.forest.flatMap Tree.blocks).map (·.id) = g.forest.flatMap Tree.ids :=
    List.map_flatMap
  have once := wf.linked.forest_nodup wf.built
  rw [ids] at once
  have saved := Snapshot.savedIds_capture wf
  have complete : ∀ id, id ∈ g.forest.flatMap Tree.ids ↔ (g.block? id).isSome := by
    intro id
    rw [← ids, List.mem_map, Option.isSome_iff_exists]
    constructor
    · rintro ⟨block, inside, rfl⟩
      exact ⟨block, (wf.linked.mem_forest_blocks wf.built).mp inside⟩
    · rintro ⟨block, found⟩
      have same := (wf.built id block found).1
      exact ⟨block, (wf.linked.mem_forest_blocks wf.built).mpr (same.symm ▸ found), same⟩
  have each : ∀ tree ∈ g.forest, ∃ ids, Generation.Tours g tree ids ∧ ids.Perm tree.ids :=
    fun tree member => Generation.tours_full wf (full tree member)
  choose! seen toured using each
  have seenOnce := List.Perm.flatMap_left g.forest fun tree member => (toured tree member).2
  exact ⟨full, saved.nodup_iff.mpr once, fun id => saved.mem_iff.trans (complete id),
    Generation.programPass_eq wf, Generation.trees_perm wf,
    seen, fun tree member => (toured tree member).1, seenOnce.nodup_iff.mpr once⟩

-- A reachable graph is a forest, and it is walked as one.
theorem reachable_graph_forested {w : Workspace} (reached : w.Reachable) :
    w.graph.Forested ∧ w.graph.Walked :=
  ⟨reached.wellFormed.linked.forested, reached.wellFormed.walked⟩

-- A chain of two statements that was moved into a procedure.
theorem moved_chain_forested :
    let w := (Editing.Session.runAll {} false
      [.edit (.createProcedure "report" [] false), .edit (.addBlock .print), .edit (.addBlock .print),
        .edit (.attach ⟨"b3"⟩ .next ⟨"b4"⟩), .edit (.addBlock .listOf), .edit (.addBlock .number),
        .edit (.attach ⟨"b5"⟩ (.input "ADD2") ⟨"b6"⟩), .edit (.attach ⟨"b4"⟩ (.input "TEXT") ⟨"b5"⟩),
        .edit (.attach ⟨"b2"⟩ (.body "STACK") ⟨"b3"⟩), .edit (.addBlock (.call false))]).1.workspace
    w.graph.forest.map Tree.ids = [[⟨"b2"⟩, ⟨"b3"⟩, ⟨"b4"⟩, ⟨"b5"⟩, ⟨"b6"⟩], [⟨"b7"⟩]] ∧
      w.graph.size = 6 ∧ w.graph.Forested ∧ w.graph.Walked :=
  ⟨by decide +kernel, by decide +kernel,
    reachable_graph_forested (Editing.Session.runAll_reachable false _)⟩

end Blockwork
