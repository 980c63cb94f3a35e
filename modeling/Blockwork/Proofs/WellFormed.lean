import Mathlib
import Blockwork.Proofs.References

-- All rules of a graph together. Every edit that is accepted keeps them.
namespace Blockwork

theorem Kind.plain_of_variadic {kind : Kind} {sort : Variadic} (grows : kind.variadic = some sort)
    (other : sort ≠ .arguments) : kind.isDefinition = false ∧ kind.isCall = false := by
  cases kind <;> first | exact ⟨rfl, rfl⟩ | cases grows
  exact absurd rfl other

theorem Kind.call_allows {kind : Kind} (calls : kind.isCall = true) {items : Nat}
    (bounded : items ≤ maxItems) : kind.Allows { items := items } := by
  cases kind with
  | call returns => exact ⟨bounded, (fun fixed => by cases fixed), fun _ => rfl⟩
  | _ => cases calls

namespace Graph

variable {g g' : Graph}

structure WellFormed (g : Graph) : Prop where
  built : g.Built
  linked : g.Linked
  bound : g.Bound
  variableNames : Named (·.id) (·.name) g.vars
  procedureNames : Named (·.id) (·.name) g.procedures

theorem WellFormed.procedureWith?_listed (wf : g.WellFormed) {p : Procedure} (listed : p ∈ g.procedures) :
    g.procedureWith? p.id = some p :=
  (procedureWith?_eq_some wf.procedureNames.ids).mpr ⟨listed, rfl⟩

theorem WellFormed.empty : Graph.empty.WellFormed where
  built := fun _ _ found => by simp [block?, Graph.empty] at found
  linked := by
    have none : ∀ x, Graph.empty.wiring x = none := fun x => by simp [wiring, block?, Graph.empty]
    refine ⟨by simp [Graph.empty], fun x => ?_, ?_, ?_, fun _ => 0, ?_⟩
    · rw [none]
      simp [Graph.empty]
    all_goals
      intro x
      simp [none]
  bound := ⟨fun x c found => by simp [contents, block?, Graph.empty] at found,
    fun p member => by simp [Graph.empty] at member⟩
  variableNames := .empty
  procedureNames := .empty

-- Moves change neither contents nor tables.
theorem WellFormed.moved (wf : g.WellFormed) (built : g'.Built) (linked : g'.Linked)
    (contents : g'.contents = g.contents) (vars : g'.vars = g.vars)
    (procedures : g'.procedures = g.procedures) : g'.WellFormed where
  built := built
  linked := linked
  bound := wf.bound.congr contents vars procedures
  variableNames := vars ▸ wf.variableNames
  procedureNames := procedures ▸ wf.procedureNames

theorem WellFormed.attach (wf : g.WellFormed) {parent child : BlockId} {place : Place}
    (edited : g.after (.attach parent place child) = .ok g') : g'.WellFormed := by
  obtain ⟨checked, rfl⟩ := attach_eq_ok.mp edited
  refine wf.moved (wf.built.attached _ _ _) (wf.linked.attached wf.built checked)
    (attached_contents _ _ _ _) ?_ ?_
  · exact unlink_vars g child
  · exact unlink_procedures g child

theorem WellFormed.detach (wf : g.WellFormed) {id : BlockId} (edited : g.after (.detach id) = .ok g') :
    g'.WellFormed := by
  obtain ⟨block, link, found, attached, rfl⟩ := detach_eq_ok.mp edited
  exact wf.moved (wf.built.unlink id) (wf.linked.detached found attached) (unlink_contents g id)
    (unlink_vars g id) (unlink_procedures g id)

theorem WellFormed.reorderRoot (wf : g.WellFormed) {id : BlockId} {index : Nat}
    (edited : g.after (.reorderRoot id index) = .ok g') : g'.WellFormed := by
  obtain ⟨_, listed, rfl⟩ := reorderRoot_eq_ok.mp edited
  exact wf.moved wf.built (wf.linked.reordered listed index) rfl rfl rfl

theorem WellFormed.setPosition (wf : g.WellFormed) {id : BlockId} {position : Position}
    (edited : g.after (.setPosition id position) = .ok g') : g'.WellFormed := by
  obtain ⟨_, rfl⟩ := setPosition_eq_ok.mp edited
  refine wf.moved (update_built wf.built ?_) (wf.linked.update ?_) (update_contents ?_) rfl rfl
  · intro b _ proper
    exact ⟨rfl, ⟨proper.shaped.fields, proper.shaped.inputs, proper.shaped.bodies⟩, proper.fitting,
      proper.allowed⟩
  · intro b
    exact congrArg (Stance.mk b.kind b.extent b.parent) (funext fun place => by cases place <;> rfl)
  · intro b
    rfl

theorem WellFormed.addFresh (wf : g.WellFormed) {id : BlockId} {kind : Kind}
    (free : kind.isDefinition = false) (new : g.block? id = none) :
    (g.addRoot (.fresh id kind kind.defaultExtent)).WellFormed where
  built := wf.built.addRoot (Block.fresh_proper id kind.defaultExtent_allowed)
  linked := wf.linked.addRoot new rfl (Block.fresh_held id kind _)
  bound := wf.bound.addBlock new free
  variableNames := wf.variableNames
  procedureNames := wf.procedureNames

theorem WellFormed.addBlock (wf : g.WellFormed) {id : BlockId} {kind : Kind}
    (edited : g.after (.addBlock id kind) = .ok g') : g'.WellFormed := by
  obtain ⟨free, new, rfl⟩ := addBlock_eq_ok.mp edited
  exact wf.addFresh free new

theorem WellFormed.resized (wf : g.WellFormed) {id : BlockId} {block : Block} {extent : Extent}
    (found : g.block? id = some block) (allowed : block.kind.Allows extent)
    (free : block.kind.isDefinition = false ∧ block.kind.isCall = false) :
    (g.reshape id extent).WellFormed := by
  obtain ⟨vars, procedures⟩ := reshape_tables g id extent
  exact ⟨wf.built.reshape found allowed, wf.linked.reshape wf.built found extent,
    wf.bound.reshape wf.built found extent free, vars ▸ wf.variableNames,
    procedures ▸ wf.procedureNames⟩

theorem WellFormed.setItemCount (wf : g.WellFormed) {id : BlockId} {items : Nat}
    (edited : g.after (.setItemCount id items) = .ok g') : g'.WellFormed := by
  obtain ⟨block, found, grows, bounded, rfl⟩ := setItemCount_eq_ok.mp edited
  have allowed := (wf.built id block found).2.allowed
  refine wf.resized found ⟨bounded, fun none => ?_, allowed.plain⟩ ?_
  · rcases grows with grows | grows <;> rw [grows] at none <;> cases none
  · rcases grows with grows | grows
    all_goals exact Kind.plain_of_variadic grows (by simp)

theorem WellFormed.setHasElse (wf : g.WellFormed) {id : BlockId} {hasElse : Bool}
    (edited : g.after (.setHasElse id hasElse) = .ok g') : g'.WellFormed := by
  obtain ⟨block, found, grows, rfl⟩ := setHasElse_eq_ok.mp edited
  have allowed := (wf.built id block found).2.allowed
  refine wf.resized found ⟨allowed.bounded, allowed.fixed, fun other => absurd grows other⟩ ?_
  exact Kind.plain_of_variadic grows (by simp)

theorem WellFormed.setField (wf : g.WellFormed) {id : BlockId} {slot : String} {value : FieldValue}
    (edited : g.after (.setField id slot value) = .ok g') : g'.WellFormed := by
  obtain ⟨block, shape, found, sort, admitted, rfl⟩ := setField_eq_ok.mp edited
  obtain ⟨vars, procedures⟩ := written_tables g id slot shape value
  have wrote : (g.update id fun b => { b with fields := b.fields.insert slot value }).Built := by
    refine update_built wf.built fun b known proper => ⟨rfl, ?_⟩
    cases found.symm.trans known
    exact Block.setField_proper proper sort admitted.fits
  have linked : (g.update id fun b => { b with fields := b.fields.insert slot value }).Linked := by
    refine wf.linked.update fun b => ?_
    exact congrArg (Stance.mk b.kind b.extent b.parent) (funext fun place => by cases place <;> rfl)
  have known : (g.update id fun b => { b with fields := b.fields.insert slot value }).block? id
      = some { block with fields := block.fields.insert slot value } := by
    rw [block?_update, if_pos rfl, found]
    rfl
  have fits : ∀ items, g.arity? shape value = some items →
      block.kind.isCall = true ∧ items ≤ maxItems := by
    intro items follows
    rcases admitted.cases with ⟨_, _, same⟩ | ⟨rfl, free, rfl, same⟩ |
      ⟨rfl, procedure, member, rfl, kind, same⟩
    · cases same.symm.trans follows
    · cases same.symm.trans follows
      rcases Kind.procedureRef_slot sort with defines | calls
      · exact absurd (defines.symm.trans free) (by simp)
      · exact ⟨calls, Nat.zero_le _⟩
    · cases same.symm.trans follows
      exact ⟨by rw [kind]; rfl, (wf.bound.procedures procedure member).short⟩
  refine ⟨?_, ?_, wf.bound.written wf.built found sort admitted, vars ▸ wf.variableNames,
    procedures ▸ wf.procedureNames⟩
  · unfold written
    cases follows : g.arity? shape value with
    | none => exact wrote
    | some items =>
      obtain ⟨calls, bounded⟩ := fits items follows
      exact wrote.reshape known (Kind.call_allows calls bounded)
  · unfold written
    cases g.arity? shape value with
    | none => exact linked
    | some items => exact linked.reshape wrote known _

theorem WellFormed.removeProcedure (wf : g.WellFormed) {id : ProcedureId}
    (edited : g.after (.removeProcedure id) = .ok g') : g'.WellFormed := by
  obtain ⟨procedure, present, uncalled, rfl⟩ := removeProcedure_eq_ok.mp edited
  obtain ⟨listed, rfl⟩ := procedureWith?_mem present
  obtain ⟨block, found, _⟩ := block_of_definition wf.bound listed
  obtain ⟨vars, procedures⟩ := removeTree_tables g procedure.definition
  refine ⟨wf.built.removeTree found, wf.linked.removeTree wf.built found,
    wf.bound.removeProcedure wf.linked wf.built wf.procedureNames.ids listed uncalled, ?_, ?_⟩
  · exact vars.symm ▸ wf.variableNames
  · exact (procedures.symm ▸ wf.procedureNames).sublist List.filter_sublist

theorem WellFormed.deleteTree (wf : g.WellFormed) {id : BlockId} (edited : g.after (.deleteTree id) = .ok g') :
    g'.WellFormed := by
  obtain ⟨block, found, ⟨free, rfl⟩ | ⟨_, procedure, _, removed⟩⟩ := deleteTree_eq_ok.mp edited
  · obtain ⟨vars, procedures⟩ := removeTree_tables g id
    exact ⟨wf.built.removeTree found, wf.linked.removeTree wf.built found,
      wf.bound.removeTree wf.linked wf.built found free, vars ▸ wf.variableNames,
      procedures ▸ wf.procedureNames⟩
  · exact wf.removeProcedure removed

-- Tables.
theorem WellFormed.addVariable (wf : g.WellFormed) {id : VariableId} {given name : String}
    (new : g.variableWith? id = none) (checked : g.checkVariableName given none = .ok name) :
    (g.addVariable id name).WellFormed where
  built := wf.built
  linked := wf.linked
  bound := wf.bound.addVariable id name
  variableNames := by
    have absent : id ∉ g.vars.map (·.id) := by
      intro listed
      have known : (g.variableWith? id).isSome := variableWith?_isSome.mpr (List.mem_map.mp listed)
      rw [new] at known
      cases known
    have fresh : checkName given (g.vars.map (·.name)) = .ok name := by
      simpa [checkVariableName] using checked
    exact wf.variableNames.append absent fresh
  procedureNames := wf.procedureNames

theorem WellFormed.createVariable (wf : g.WellFormed) {id : VariableId} {name : String}
    (edited : g.after (.createVariable id name) = .ok g') : g'.WellFormed := by
  obtain ⟨new, name', checked, rfl⟩ := createVariable_eq_ok.mp edited
  exact wf.addVariable new checked

theorem WellFormed.renameVariable (wf : g.WellFormed) {id : VariableId} {name : String}
    (edited : g.after (.renameVariable id name) = .ok g') : g'.WellFormed := by
  obtain ⟨_, name', checked, rfl⟩ := renameVariable_eq_ok.mp edited
  have fresh : checkName name ((g.vars.filter fun v => v.id ≠ id).map (·.name)) = .ok name' := by
    simpa [checkVariableName] using checked
  exact ⟨wf.built, wf.linked, wf.bound.renameVariable id name',
    wf.variableNames.rename (fun _ => rfl) (fun _ => rfl) fresh, wf.procedureNames⟩

theorem WellFormed.deleteVariable (wf : g.WellFormed) {id : VariableId}
    (edited : g.after (.deleteVariable id) = .ok g') : g'.WellFormed := by
  obtain ⟨_, unused, rfl⟩ := deleteVariable_eq_ok.mp edited
  exact ⟨wf.built, wf.linked, wf.bound.deleteVariable unused,
    wf.variableNames.sublist List.filter_sublist, wf.procedureNames⟩

theorem WellFormed.addProcedure (wf : g.WellFormed) {id : ProcedureId} {definition : BlockId}
    {given name : String} {params : List VariableId} {returns : Bool}
    (new : g.procedureWith? id = none) (free : g.block? definition = none)
    (checked : g.checkSignature given params = .ok name) :
    (g.addProcedure id definition name params returns).WellFormed := by
  obtain ⟨named, fine⟩ := checkSignature_eq_ok.mp checked
  have absent : id ∉ g.procedures.map (·.id) := by
    intro listed
    obtain ⟨p, member, rfl⟩ := List.mem_map.mp listed
    rw [wf.procedureWith?_listed member] at new
    cases new
  have fresh : checkName given (g.procedures.map (·.name)) = .ok name := by
    simpa [checkProcedureName] using named
  have proper := Block.fresh_proper definition (Kind.defaultExtent_allowed (.definition returns))
  have sort : (Kind.definition returns).slot? {} "NAME" = some (.field .procedureRef) :=
    (Kind.bound_slot (.inl rfl)).mpr ⟨rfl, rfl⟩
  refine ⟨wf.built.addRoot (Block.setField_proper proper sort trivial), ?_, wf.bound.addProcedure free fine,
    wf.variableNames, wf.procedureNames.append absent fresh⟩
  refine wf.linked.addRoot free rfl fun place => ?_
  refine Eq.trans ?_ (Block.fresh_held definition (.definition returns) {} place)
  cases place <;> rfl

theorem WellFormed.createProcedure (wf : g.WellFormed) {id : ProcedureId} {definition : BlockId}
    {name : String} {params : List VariableId} {returns : Bool}
    (edited : g.after (.createProcedure id definition name params returns) = .ok g') : g'.WellFormed := by
  obtain ⟨new, free, name', checked, rfl⟩ := createProcedure_eq_ok.mp edited
  exact wf.addProcedure new free checked

theorem WellFormed.renameProcedure (wf : g.WellFormed) {id : ProcedureId} {name : String}
    (edited : g.after (.renameProcedure id name) = .ok g') : g'.WellFormed := by
  obtain ⟨_, name', checked, rfl⟩ := renameProcedure_eq_ok.mp edited
  have fresh : checkName name ((g.procedures.filter fun p => p.id ≠ id).map (·.name)) = .ok name' := by
    simpa [checkProcedureName] using checked
  exact ⟨wf.built, wf.linked, wf.bound.renameProcedure id name', wf.variableNames,
    wf.procedureNames.rename (fun _ => rfl) (fun _ => rfl) fresh⟩

-- Every call of a procedure gets the same extent, one after another.
theorem reshapeAll (calls : List BlockId) (extent : Extent) (built : g.Built) (linked : g.Linked)
    (allowed : ∀ x ∈ calls, ∃ block, g.block? x = some block ∧ block.kind.Allows extent) :
    let all := calls.foldl (fun g call => g.reshape call extent) g
    all.Built ∧ all.Linked ∧ all.vars = g.vars ∧ all.procedures = g.procedures ∧
      ∀ x, all.contents x = (g.contents x).map fun c =>
        { c with extent := if x ∈ calls then extent else c.extent } := by
  induction calls generalizing g with
  | nil => exact ⟨built, linked, rfl, rfl, fun x => by simp⟩
  | cons call rest ih =>
    obtain ⟨block, found, fits⟩ := allowed call List.mem_cons_self
    obtain ⟨vars, procedures⟩ := reshape_tables g call extent
    have contents := reshape_contents built found extent
    obtain ⟨built', linked', vars', procedures', contents'⟩ :=
      ih (built.reshape found fits) (linked.reshape built found extent) fun x member => by
        obtain ⟨old, known, fine⟩ := allowed x (List.mem_cons_of_mem _ member)
        have here := contents x
        rw [contents_of_block known] at here
        obtain ⟨new, present, same⟩ := block_of_contents here
        have kind : new.kind = old.kind := congrArg Content.kind same
        exact ⟨new, present, kind ▸ fine⟩
    refine ⟨built', linked', vars'.trans vars, procedures'.trans procedures, fun x => ?_⟩
    refine (contents' x).trans ?_
    rw [contents x, Option.map_map]
    congr 1
    funext c
    simp only [Function.comp_apply, List.mem_cons]
    by_cases later : x ∈ rest <;> by_cases here : x = call <;> simp [later, here]

theorem Bound.setParams (bound : g.Bound) (built : g.Built) {id : ProcedureId}
    {params : List VariableId} (checked : g.checkParams params = .ok ())
    (vars : g'.vars = g.vars)
    (procedures : g'.procedures = g.procedures.map fun p : Procedure =>
      if p.id = id then { p with params := params } else p)
    (contents : ∀ x, g'.contents x = (g.contents x).map fun c =>
      { c with extent := if x ∈ g.callers id then { items := params.length } else c.extent }) :
    g'.Bound := by
  obtain ⟨short, known, distinct⟩ := checkParams_eq_ok.mp checked
  refine ⟨fun x c found => ?_, fun q member => ?_⟩
  · rw [contents] at found
    obtain ⟨old, before, rfl⟩ := Option.map_eq_some_iff.mp found
    have sound := bound.blocks x old before
    have caller : ∀ p, old.kind.isCall = true → old.fields.get? "NAME" = some (.procedureRef p) →
        (x ∈ g.callers id ↔ p = id) := by
      intro p calls named
      rw [mem_callers built]
      constructor
      · rintro ⟨c, same, _, named'⟩
        cases before.symm.trans same
        cases named.symm.trans named'
        rfl
      · rintro rfl
        exact ⟨old, before, calls, named⟩
    rw [vars, procedures]
    refine ⟨sound.reads, fun name p holds => ?_, fun calls free => ?_, sound.bound⟩
    · obtain ⟨procedure, member, rfl, fits⟩ := sound.serves name p holds
      refine ⟨_, List.mem_map_of_mem member, ?_⟩
      rcases fits with ⟨defines, here⟩ | ⟨call, items⟩
      · split
        · exact ⟨rfl, .inl ⟨defines, here⟩⟩
        · exact ⟨rfl, .inl ⟨defines, here⟩⟩
      · have calls : old.kind.isCall = true := by rw [call]; rfl
        obtain rfl := built.named_field before (.inr calls) holds
        have follows := caller procedure.id calls holds
        split
        · next same => exact ⟨rfl, .inr ⟨call, by simp [follows.mpr same]⟩⟩
        · next other =>
          have apart : x ∉ g.callers id := fun inside => other (follows.mp inside)
          exact ⟨rfl, .inr ⟨call, by simpa [apart] using items⟩⟩
    · have apart : x ∉ g.callers id := by
        rw [mem_callers built]
        rintro ⟨c, same, _, named⟩
        cases before.symm.trans same
        cases free.symm.trans named
      simpa [apart] using sound.unbound calls free
  · rw [procedures] at member
    obtain ⟨p, listed, rfl⟩ := List.mem_map.mp member
    obtain ⟨⟨c, found, kind, named⟩, short', distinct', known'⟩ := bound.procedures p listed
    have here := contents p.definition
    rw [found] at here
    rw [vars]
    split
    · exact ⟨⟨_, here, kind, named⟩, short, distinct,
        fun v used => variableWith?_isSome.mp (known v used)⟩
    · exact ⟨⟨_, here, kind, named⟩, short', distinct', known'⟩

theorem WellFormed.setParams (wf : g.WellFormed) {id : ProcedureId} {params : List VariableId}
    (edited : g.after (.setParams id params) = .ok g') : g'.WellFormed := by
  obtain ⟨_, checked, rfl⟩ := setParams_eq_ok.mp edited
  obtain ⟨short, _⟩ := checkParams_eq_ok.mp checked
  have renewed : Named (·.id) (·.name)
      (g.updateProcedure id fun p => { p with params := params }).procedures := by
    refine wf.procedureNames.map (fun p => ?_) fun p => ?_
    · split <;> rfl
    · split <;> rfl
  -- The tables change before the calls do; blocks and links are not touched by that.
  obtain ⟨built, linked, vars, procedures, contents⟩ :=
    reshapeAll (g := g.updateProcedure id fun p => { p with params := params }) (g.callers id)
      { items := params.length } wf.built wf.linked fun x member => by
        obtain ⟨c, known, calls, _⟩ := (mem_callers wf.built).mp member
        obtain ⟨block, found, rfl⟩ := block_of_contents known
        exact ⟨block, found, Kind.call_allows calls short⟩
  exact ⟨built, linked, wf.bound.setParams wf.built checked vars procedures contents,
    vars ▸ wf.variableNames, procedures ▸ renewed⟩

end Graph
end Blockwork
