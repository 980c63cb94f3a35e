import Mathlib
import Blockwork.Proofs.Replay

-- Restoring the tables: variables first, then the procedures with their
-- definitions, which are found among the roots by what they refer to.
namespace Blockwork

-- What comes next in a table may still be added.
theorem Named.next {α β : Type} {id : α → β} {name : α → String} {done rest : List α} {a : α}
    (named : Named id name (done ++ a :: rest)) :
    id a ∉ done.map id ∧ Graph.checkName (name a) (done.map name) = .ok (name a) := by
  have member : a ∈ done ++ a :: rest := by simp
  obtain ⟨trimmed, filled⟩ := named.filled a member
  have ids := named.ids
  have names := named.names
  rw [List.map_append, List.map_cons, List.nodup_append] at ids names
  refine ⟨fun again => ids.2.2 _ again _ List.mem_cons_self rfl, ?_⟩
  refine Graph.checkName_eq_ok.mpr ⟨trimmed.symm, filled, fun other listed => ?_⟩
  obtain ⟨b, old, rfl⟩ := List.mem_map.mp listed
  refine sameName_eq_false.mpr (names.2.2 _ ?_ _ List.mem_cons_self)
  exact List.mem_map.mpr ⟨b, old, rfl⟩

theorem Dict.mem_ofList {α : Type} {entries : List (String × α)} {e : String × α}
    (member : e ∈ (Dict.ofList entries).entries) : e ∈ entries := by
  have grown : ∀ (d : Dict α), e ∈ (entries.foldl (fun d e => d.insert e.1 e.2) d).entries →
      e ∈ entries ∨ e ∈ d.entries := by
    clear member
    induction entries with
    | nil => exact fun d member => .inr member
    | cons head rest ih =>
      intro d member
      rcases ih (d.insert head.1 head.2) member with later | there
      · exact .inl (List.mem_cons_of_mem _ later)
      · rcases Dict.mem_place there with rfl | old
        · exact .inl List.mem_cons_self
        · exact .inr old
  rcases grown _ member with listed | none
  · exact listed
  · cases none

namespace Snapshot

open Blockwork.Graph

variable {g : Graph}

theorem declareVariables {done rest : List Variable} (named : Named (·.id) (·.name) (done ++ rest))
    {w : Workspace} (start : w.graph = { Graph.empty with vars := done }) :
    ∃ w', editAll w (rest.map fun v => .createVariableAs v.id v.name) = .ok w' ∧
      w'.graph = { Graph.empty with vars := done ++ rest } := by
  induction rest generalizing done w with
  | nil =>
    rw [List.append_nil]
    exact ⟨w, rfl, start⟩
  | cons v rest ih =>
    obtain ⟨new, checked⟩ := named.next
    have absent : w.graph.variableWith? v.id = none := by
      rw [← Option.not_isSome_iff_eq_none, variableWith?_isSome, start]
      exact fun listed => new (List.mem_map.mpr listed)
    have fresh : w.graph.checkVariableName v.name none = .ok v.name := by
      rw [start]
      simpa [checkVariableName] using checked
    have made := createVariable_eq_ok.mpr ⟨absent, v.name, fresh, rfl⟩
    have applied : w.apply (.createVariableAs v.id v.name)
        = .ok (⟨w.graph.addVariable v.id v.name, w.serial⟩, .done) := Workspace.keepSerial_made made
    have whole : done ++ v :: rest = (done ++ [v]) ++ rest := by simp
    rw [whole] at named ⊢
    obtain ⟨w', later, reached⟩ := ih named (w := ⟨w.graph.addVariable v.id v.name, w.serial⟩) (by
      rw [start]
      rfl)
    refine ⟨w', ?_, reached⟩
    rw [List.map_cons, editAll, edit_eq_ok.mpr ⟨_, applied⟩]
    exact later

-- Definitions are at the roots, and nowhere below.
theorem isDefinitionTag_tag (kind : Kind) : isDefinitionTag kind.tag = kind.isDefinition := by
  cases kind with
  | definition returns | call returns => cases returns <;> decide
  | _ => decide

theorem definitionsInputs_nil {inputs : List (String × Connected SavedBlock)}
    (none : ∀ e ∈ inputs, definitionsConnected e.2 = []) : definitionsInputs inputs = [] := by
  induction inputs with
  | nil => rw [definitionsInputs]
  | cons head rest ih =>
    rw [List.forall_mem_cons] at none
    rw [definitionsInputs, none.1, ih none.2]
    rfl

theorem definitions_node {block : Block} {branches : List (Place × Tree)}
    (below : ∀ p ∈ branches, definitions (captureTree p.2) = []) :
    definitions (captureTree (.node block branches))
      = if block.kind.isDefinition then [captureTree (.node block branches)] else [] := by
  have inputs : definitionsInputs (Dict.ofList (captureInputs branches)).entries = [] := by
    refine definitionsInputs_nil fun e member => ?_
    have listed := Dict.mem_ofList member
    rw [captureInputs_eq] at listed
    obtain ⟨p, kept, rfl⟩ := List.mem_map.mp listed
    rw [savedBranch, definitionsConnected]
    exact below p (List.mem_of_mem_filter kept)
  have next : definitionsNext (captureNext branches) = [] := by
    rw [captureNext_eq]
    cases first : (branches.filter (·.1 = .next)).head? with
    | none => rfl
    | some p =>
      rw [Option.map_some, definitionsNext, definitionsConnected]
      exact below p (List.mem_of_mem_filter (List.mem_of_mem_head? first))
  rw [captureTree, definitions, inputs, next, List.append_nil, List.append_nil]
  exact congrArg (fun d : Bool => if d then _ else _) (isDefinitionTag_tag block.kind)

theorem definitions_below {tree : Tree} (full : g.Full tree)
    (free : ∀ b ∈ tree.blocks, b.kind.isDefinition = false) : definitions (captureTree tree) = [] := by
  induction full with
  | @node block branches found whole below ih =>
    rw [Tree.blocks, Tree.blocksOf_eq, List.forall_mem_cons] at free
    rw [definitions_node, free.1]
    · rfl
    · intro p branch
      exact ih p branch fun b inside => free.2 b (List.mem_flatMap.mpr ⟨p, branch, inside⟩)

theorem definitions_tree (wf : g.WellFormed) {tree : Tree} (full : g.Full tree) :
    definitions (captureTree tree)
      = if tree.block.kind.isDefinition then [captureTree tree] else [] := by
  cases full with
  | @node block branches found whole below =>
    refine definitions_node fun p branch => definitions_below (below p branch) fun b inside => ?_
    by_contra defines
    rw [Bool.not_eq_false] at defines
    obtain ⟨known, above⟩ := (below p branch).mem wf.linked wf.built inside
    have free := wf.linked.definition_root known defines
    have same := (Wiring.above_root (wiring_of_block known) free).mp above
    obtain ⟨c, known', own, parent, _⟩ :=
      wf.linked.child wf.built found ((Graph.Full.node found whole below).branch branch)
    rw [own, ← same, known] at known'
    cases known'
    rw [free] at parent
    cases parent

theorem captureTree_kind (tree : Tree) : (captureTree tree).record.kind = tree.block.kind.tag := by
  cases tree
  rw [captureTree]
  rfl

theorem captureRecord_field (block : Block) (name : String) :
    (captureRecord block).fields.get? name = (block.fields.get? name).bind fieldJson? := by
  refine Option.ext fun json => ?_
  rw [← Dict.mem_entries, captureRecord_fields, List.mem_filterMap, Option.bind_eq_some_iff]
  constructor
  · rintro ⟨⟨other, value⟩, member, made⟩
    obtain ⟨_, written, same⟩ := Option.map_eq_some_iff.mp made
    cases same
    exact ⟨value, Dict.mem_entries.mp member, written⟩
  · rintro ⟨value, held, written⟩
    exact ⟨(name, value), Dict.mem_entries.mpr held, Option.map_eq_some_iff.mpr ⟨json, written, rfl⟩⟩

theorem sortDefinitions_ok {bound : List (String × SavedBlock)} {seen : List String}
    (named : ∀ e ∈ bound, e.2.record.fields.get? "NAME" = some (reference e.1))
    (once : (bound.map (·.1)).Nodup) (new : ∀ e ∈ bound, e.1 ∉ seen) :
    sortDefinitions seen (bound.map (·.2)) = .ok ⟨bound, []⟩ := by
  induction bound generalizing seen with
  | nil => rfl
  | cons e rest ih =>
    rw [List.forall_mem_cons] at named new
    obtain ⟨first, tail⟩ := List.nodup_cons.mp once
    have later : ∀ e' ∈ rest, e'.1 ∉ e.1 :: seen := by
      intro e' member again
      rcases List.mem_cons.mp again with same | old
      · exact first (List.mem_map.mpr ⟨e', member, same⟩)
      · exact new.2 e' member old
    have free : seen.contains e.1 = false := by simpa using new.1
    have read : referenceId? (reference e.1) = some e.1 := by
      simp [referenceId?, reference, Json.get?, Json.text?]
    rw [List.map_cons, sortDefinitions, named.1]
    simp only [reference] at read ⊢
    rw [read]
    simp only [free, Bool.false_eq_true, if_false]
    rw [ih named.2 tail later]
    rfl

structure Defines (bound : List (String × SavedBlock)) (procedures : List Procedure) : Prop where
  found : ∀ p ∈ procedures, ∃ d, bound.lookup p.id.text = some d ∧
    d.record.id = p.definition.text ∧ returnsValue d = p.returns
  only : ∀ e ∈ bound, ∃ p ∈ procedures, p.id.text = e.1

theorem definitions_forest (wf : g.WellFormed) {trees : List Tree} (full : ∀ t ∈ trees, g.Full t) :
    (trees.map captureTree).flatMap definitions
      = (trees.filter (·.block.kind.isDefinition)).map captureTree := by
  induction trees with
  | nil => rfl
  | cons tree rest ih =>
    rw [List.forall_mem_cons] at full
    rw [List.map_cons, List.flatMap_cons, ih full.2, definitions_tree wf full.1, List.filter_cons]
    split <;> rfl

def definedId (block : Block) : String := ((block.procedureIn? "NAME").map (·.text)).getD ""

theorem definedId_eq {block : Block} {p : ProcedureId}
    (named : block.fields.get? "NAME" = some (.procedureRef p)) : definedId block = p.text := by
  rw [definedId, Block.procedureIn?_eq_some.mpr named]
  rfl

def boundDefinitions (g : Graph) : List (String × SavedBlock) :=
  (g.forest.filter (·.block.kind.isDefinition)).map fun t => (definedId t.block, captureTree t)

-- Each of these trees speaks of a procedure that has this definition.
theorem procedure_of_tree (wf : g.WellFormed) {t : Tree}
    (member : t ∈ g.forest.filter (·.block.kind.isDefinition)) : ∃ p ∈ g.procedures,
      definedId t.block = p.id.text ∧ t.block.fields.get? "NAME" = some (.procedureRef p.id) ∧
      p.definition = t.block.id := by
  obtain ⟨inside, defines⟩ := List.mem_filter.mp member
  obtain ⟨p, listed, named, _, own⟩ :=
    wf.definition_binds (wf.linked.forest_full wf.built inside).found defines
  exact ⟨p, listed, definedId_eq named, named, own⟩

theorem boundDefinitions_nodup (wf : g.WellFormed) : ((boundDefinitions g).map (·.1)).Nodup := by
  have planted : (g.forest.map (·.block.id)).Nodup := by
    rw [wf.linked.forest_roots wf.built]
    exact wf.linked.nodup
  rw [boundDefinitions, List.map_map]
  refine List.Nodup.map_on ?_ ((List.Nodup.of_map _ planted).filter _)
  intro t first t' second same
  obtain ⟨p, listed, text, _, own⟩ := procedure_of_tree wf first
  obtain ⟨p', listed', text', _, own'⟩ := procedure_of_tree wf second
  have texts : p.id.text = p'.id.text := text.symm.trans (Eq.trans same text')
  have ids : p.id = p'.id := by
    cases h : p.id
    cases h' : p'.id
    simp_all
  cases wf.procedureNames.unique listed listed' ids
  exact List.inj_on_of_nodup_map planted (List.mem_of_mem_filter first)
    (List.mem_of_mem_filter second) (own.symm.trans own')

theorem boundDefinitions_defines (wf : g.WellFormed) : Defines (boundDefinitions g) g.procedures where
  found p listed := by
    obtain ⟨block, found, kind, named⟩ := block_of_definition wf.bound listed
    have defines : block.kind.isDefinition = true := by rw [kind]; rfl
    have free := wf.linked.definition_root found defines
    have root : p.definition ∈ g.forest.map (·.block.id) := by
      rw [wf.linked.forest_roots wf.built]
      exact wf.linked.root.mpr ⟨block, found, free⟩
    obtain ⟨t, inside, own⟩ := List.mem_map.mp root
    have same : t.block = block :=
      Option.some.inj ((wf.linked.forest_full wf.built inside).found.symm.trans (own ▸ found))
    refine ⟨captureTree t, ?_, ?_, ?_⟩
    · refine (Dict.lookup_eq_some_of_mem (boundDefinitions_nodup wf)).mpr (List.mem_map.mpr ⟨t, ?_, ?_⟩)
      · exact List.mem_filter.mpr ⟨inside, same ▸ defines⟩
      · rw [definedId_eq (same ▸ named)]
    · exact congrArg BlockId.text ((captureTree_id t).trans own)
    · rw [returnsValue, captureTree_kind, same, kind]
      cases p.returns <;> decide
  only e member := by
    obtain ⟨t, inside, rfl⟩ := List.mem_map.mp member
    obtain ⟨p, listed, text, _⟩ := procedure_of_tree wf inside
    exact ⟨p, listed, text.symm⟩

theorem sortDefinitions_capture (wf : g.WellFormed) :
    sortDefinitions [] ((capture g).blocks.flatMap definitions) = .ok ⟨boundDefinitions g, []⟩ := by
  have split : (capture g).blocks.flatMap definitions = (boundDefinitions g).map (·.2) := by
    rw [capture, definitions_forest wf fun t => wf.linked.forest_full wf.built, boundDefinitions,
      List.map_map]
    rfl
  rw [split]
  refine sortDefinitions_ok ?_ (boundDefinitions_nodup wf) (by simp)
  intro e member
  obtain ⟨t, inside, rfl⟩ := List.mem_map.mp member
  obtain ⟨p, _, text, named, _⟩ := procedure_of_tree wf inside
  obtain ⟨block, branches⟩ := t
  refine (captureRecord_field block "NAME").trans ?_
  rw [show block.fields.get? "NAME" = _ from named]
  exact congrArg (fun id => some (reference id)) text.symm

-- The tables are there up to some procedure, and so are the definitions.
structure Declared (g : Graph) (w : Workspace) (done : List Procedure) : Prop where
  wf : w.graph.WellFormed
  vars : w.graph.vars = g.vars
  procedures : w.graph.procedures = done
  blocks : ∀ x, w.graph.block? x = (g.block? x).bind fun b =>
    if x ∈ done.map (·.definition) then some (b.strip [] []) else none

theorem declare_step (wf : g.WellFormed) {w : Workspace} {done rest : List Procedure} {p : Procedure}
    (split : g.procedures = done ++ p :: rest) (declared : Declared g w done) :
    ∃ w', edit w (.createProcedureAs p.id p.definition p.name p.params p.returns) = .ok w' ∧
      Declared g w' (done ++ [p]) := by
  have listed : p ∈ g.procedures := by simp [split]
  have sound := wf.bound.procedures p listed
  obtain ⟨new, checked⟩ := (split ▸ wf.procedureNames : Named _ _ (done ++ p :: rest)).next
  obtain ⟨block, found, kind, named⟩ := block_of_definition wf.bound listed
  obtain ⟨own, proper⟩ := wf.built _ block found
  have other : p.definition ∉ done.map (·.definition) := by
    intro again
    obtain ⟨q, old, same⟩ := List.mem_map.mp again
    have listed' : q ∈ g.procedures := by simp [split, old]
    exact new (List.mem_map.mpr ⟨q, old, wf.bound.same_definition listed' listed same⟩)
  have absent : w.graph.procedureWith? p.id = none := by
    rw [procedureWith?, declared.procedures, List.find?_eq_none]
    intro q old same
    exact new (List.mem_map.mpr ⟨q, old, by simpa using same⟩)
  have free : w.graph.block? p.definition = none := by
    rw [declared.blocks, found, Option.bind_some, if_neg other]
  have signature : w.graph.checkSignature p.name p.params = .ok p.name := by
    refine checkSignature_eq_ok.mpr ⟨?_, checkParams_eq_ok.mpr ⟨sound.short, ?_, sound.distinct⟩⟩
    · unfold checkProcedureName
      rw [declared.procedures]
      simpa using checked
    · intro v member
      rw [variableWith?_isSome, declared.vars]
      exact sound.known v member
  have made : w.graph.after (.createProcedure p.id p.definition p.name p.params p.returns)
      = .ok (w.graph.addProcedure p.id p.definition p.name p.params p.returns) :=
    createProcedure_eq_ok.mpr ⟨absent, free, p.name, signature, rfl⟩
  have applied : w.apply (.createProcedureAs p.id p.definition p.name p.params p.returns)
      = .ok (⟨w.graph.addProcedure p.id p.definition p.name p.params p.returns, w.serial⟩, .done) :=
    Workspace.keepSerial_made made
  refine ⟨_, edit_eq_ok.mpr ⟨_, applied⟩, Workspace.apply_wellFormed declared.wf applied,
    declared.vars, congrArg (· ++ [p]) declared.procedures, fun x => ?_⟩
  have complete : { Block.fresh p.definition (.definition p.returns) {} with
      fields := (Block.fresh p.definition (.definition p.returns) {}).fields.insert "NAME"
        (.procedureRef p.id) } = block.strip [] [] := by
    have fields := rebound proper (.inl (by rw [kind]; rfl)) named {}
    have extent : block.extent = {} := by
      rw [proper.allowed.extent_eq (by rw [kind]; simp [Kind.variadic]),
        proper.allowed.fixed (by rw [kind]; rfl)]
    rw [Block.strip_none proper.shaped, extent]
    rw [own, kind] at fields ⊢
    rw [fields]
  have result : (w.graph.addProcedure p.id p.definition p.name p.params p.returns).block? x
      = if x = p.definition then some (block.strip [] []) else w.graph.block? x := by
    rw [← complete]
    exact block?_addRoot _ _ _
  rw [result, declared.blocks, List.map_append, List.map_cons, List.map_nil]
  by_cases here : x = p.definition
  · rw [if_pos here, here, found, Option.bind_some, if_pos (by simp)]
  · simp [here]

theorem declareListed_ok (wf : g.WellFormed) {w : Workspace} {done rest : List Procedure}
    {bound : List (String × SavedBlock)} (split : g.procedures = done ++ rest)
    (declared : Declared g w done) (defines : Defines bound rest) :
    ∃ w', declareListed bound w (rest.map fun p =>
      ⟨p.id.text, p.name, p.params.map (·.text), p.returns⟩) = .ok w' ∧
      Declared g w' g.procedures := by
  induction rest generalizing w done bound with
  | nil =>
    have none : bound = [] := by
      rw [List.eq_nil_iff_forall_not_mem]
      intro e member
      obtain ⟨p, impossible, _⟩ := defines.only e member
      cases impossible
    rw [List.append_nil] at split
    rw [none, split]
    exact ⟨w, rfl, declared⟩
  | cons p rest ih =>
    obtain ⟨d, looked, own, returns⟩ := defines.found p List.mem_cons_self
    obtain ⟨mid, first, settled⟩ := declare_step wf split declared
    have others : ∀ q ∈ rest, q.id.text ≠ p.id.text := by
      intro q member same
      have ids := wf.procedureNames.ids
      rw [split, List.map_append, List.map_cons, List.nodup_append, List.nodup_cons] at ids
      exact ids.2.1.1 (List.mem_map.mpr ⟨q, member, congrArg ProcedureId.mk same⟩)
    have later : Defines (bound.filter (·.1 != p.id.text)) rest := by
      refine ⟨fun q member => ?_, fun e member => ?_⟩
      · obtain ⟨d', looked', rest'⟩ := defines.found q (List.mem_cons_of_mem _ member)
        refine ⟨d', ?_, rest'⟩
        rw [Dict.lookup_filter (· != p.id.text) bound, if_pos (by simpa using others q member)]
        exact looked'
      · obtain ⟨old, other⟩ := List.mem_filter.mp member
        obtain ⟨q, listed, same⟩ := defines.only e old
        rcases List.mem_cons.mp listed with rfl | listed
        · simp [same] at other
        · exact ⟨q, listed, same⟩
    have split' : g.procedures = (done ++ [p]) ++ rest := by simp [split]
    obtain ⟨w', second, reached⟩ := ih split' settled later
    refine ⟨w', ?_, reached⟩
    have params : (p.params.map (·.text)).map VariableId.mk = p.params := by
      rw [List.map_map]
      exact List.map_id _
    rw [List.map_cons, declareListed, looked]
    simp only [own, returns, params]
    rw [first]
    exact second

-- The variables alone.
theorem declared_start (wf : g.WellFormed) :
    ∃ w, editAll .empty (g.vars.map fun v => .createVariableAs v.id v.name) = .ok w ∧ Declared g w [] := by
  obtain ⟨w, first, named⟩ := @declareVariables [] g.vars wf.variableNames .empty rfl
  refine ⟨w, first, ?_, by rw [named]; rfl, by rw [named]; rfl, fun x => ?_⟩
  · exact editAll_keeps (P := fun w => w.graph.WellFormed)
      (fun _ _ _ _ wf applied => Workspace.apply_wellFormed wf applied) .empty first
  · rw [named]
    cases g.block? x <;> rfl

-- Once all procedures are there, the blocks are the definitions.
theorem Declared.holds (wf : g.WellFormed) {w : Workspace} (declared : Declared g w g.procedures) :
    Holds g w fun x => (g.block? x).bind fun b =>
      if b.kind.isDefinition then some (b.strip [] []) else none := by
  refine ⟨declared.wf, declared.vars, declared.procedures, fun x => ?_⟩
  rw [declared.blocks]
  cases found : g.block? x with
  | none => rfl
  | some b =>
    rw [Option.bind_some, Option.bind_some]
    obtain ⟨rfl, _⟩ := wf.built x b found
    have same : b.id ∈ g.procedures.map (·.definition) ↔ b.kind.isDefinition = true := by
      constructor
      · intro listed
        obtain ⟨p, member, own⟩ := List.mem_map.mp listed
        obtain ⟨block, found', kind, _⟩ := block_of_definition wf.bound member
        rw [own, found] at found'
        cases found'
        rw [kind]
        rfl
      · intro defines
        obtain ⟨p, member, _, _, own⟩ := wf.definition_binds found defines
        exact List.mem_map.mpr ⟨p, member, own⟩
    simp [same]

theorem createVariables_capture (g : Graph) :
    (capture g).vars.map (fun v => Edit.createVariableAs ⟨v.id⟩ v.name)
      = g.vars.map fun v => .createVariableAs v.id v.name := List.map_map

theorem declareTables_ok (wf : g.WellFormed) : ∃ w, declareTables (capture g) = .ok w ∧
    Holds g w fun x => (g.block? x).bind fun b =>
      if b.kind.isDefinition then some (b.strip [] []) else none := by
  obtain ⟨w, first, start⟩ := declared_start wf
  obtain ⟨w', second, reached⟩ := declareListed_ok wf rfl start (boundDefinitions_defines wf)
  refine ⟨w', ?_, reached.holds wf⟩
  rw [declareTables, createVariables_capture, first]
  exact bind_eq_ok.mpr ⟨_, rfl, bind_eq_ok.mpr ⟨_, sortDefinitions_capture wf, bind_eq_ok.mpr ⟨w', second, rfl⟩⟩⟩

end Snapshot
end Blockwork
