import Mathlib
import Blockwork.Proofs.NativeForms

-- Loading a form in native style. The procedures are declared by their definitions,
-- and names are resolved to what a reference would have said, so the plan is that of
-- the saved graph with its procedures under other ids.
namespace Blockwork.Snapshot

open Blockwork.Graph

-- What a definition in native style says about its procedure.
structure Introduces (g : Graph) (p : Procedure) (definition : SavedBlock) : Prop where
  id : definition.record.id = p.definition.text
  name : definition.record.fields.get? "NAME" = some (.text p.name)
  params : (definition.record.extra.bind (·.params)).getD [] = p.params.map (nativeParam g)
  returns : returnsValue definition = p.returns

variable {g : Graph}

theorem introduces_native (wf : g.WellFormed) {tree : Tree} (found : g.block? tree.block.id = some tree.block)
    (defines : tree.block.kind.isDefinition = true) {native : SavedBlock}
    (translated : NativeBlock g (captureTree tree) native) :
    ∃ p ∈ g.procedures, p.definition = tree.block.id ∧ Introduces g p native := by
  obtain ⟨p, listed, named, kind, own⟩ := wf.definition_binds found defines
  refine ⟨p, listed, own, ?_⟩
  have record := translated.record
  have captured : (captureTree tree).record = captureRecord tree.block := by
    cases tree
    rfl
  rw [captured] at record
  have tag : isDefinitionTag (captureRecord tree.block).kind = true := by
    rw [show (captureRecord tree.block).kind = tree.block.kind.tag from rfl, isDefinitionTag_tag, defines]
  have returns : returnsValue native = p.returns := by
    rw [returnsValue, record.kind]
    show (tree.block.kind.tag == _) = _
    rw [kind]
    cases p.returns <;> decide
  have called : isCallTag (captureRecord tree.block).kind = false := by
    show isCallTag tree.block.kind.tag = false
    rw [kind]
    cases p.returns <;> decide
  generalize new : native.record = record' at record
  cases record with
  | @definition q _ listed' refers =>
    rw [captureRecord_field, named] at refers
    have texts : p.id.text = q.id.text := by simpa [fieldJson?, reference] using refers
    have ids : p.id = q.id := congrArg ProcedureId.mk texts
    cases wf.procedureNames.unique listed listed' ids
    refine ⟨?_, ?_, ?_, returns⟩
    · rw [new, own]
      rfl
    · rw [new]
      simp
    · rw [new]
      rfl
  | call tag' | callByState tag' | openCall tag' =>
    rw [called] at tag'
    cases tag'
  | other plain =>
    rw [tag] at plain
    cases plain

-- Parts of a list that have the same members are the same where nothing is listed twice.
theorem eq_of_sublists {α : Type} {whole first second : List α} (once : whole.Nodup)
    (left : first.Sublist whole) (right : second.Sublist whole) (same : ∀ a, a ∈ first ↔ a ∈ second) :
    first = second := by
  induction left generalizing second with
  | slnil => exact (List.sublist_nil.mp right).symm
  | @cons first rest a left ih =>
    obtain ⟨new, tail⟩ := List.nodup_cons.mp once
    cases right with
    | cons _ right => exact ih tail right same
    | @cons_cons second _ _ right => exact absurd (left.subset ((same a).mpr (.head _))) new
  | @cons_cons first rest a left ih =>
    obtain ⟨new, tail⟩ := List.nodup_cons.mp once
    cases right with
    | cons _ right => exact absurd (right.subset ((same a).mp (.head _))) new
    | @cons_cons second _ _ right =>
      refine congrArg (a :: ·) (ih tail right fun b => ?_)
      have both := same b
      rw [List.mem_cons, List.mem_cons] at both
      constructor
      · intro member
        refine (both.mp (.inr member)).resolve_left ?_
        rintro rfl
        exact new (left.subset member)
      · intro member
        refine (both.mpr (.inr member)).resolve_left ?_
        rintro rfl
        exact new (right.subset member)

-- The definitions among the roots are those of the procedures, in their order.
theorem definitions_inRootOrder (wf : g.WellFormed) (ordered : g.InRootOrder) :
    (g.forest.filter (·.block.kind.isDefinition)).map (·.block.id) = g.procedures.map (·.definition) := by
  have roots := wf.linked.forest_roots wf.built
  refine eq_of_sublists wf.linked.nodup ?_ ordered fun id => ⟨fun listed => ?_, fun listed => ?_⟩
  · rw [← roots]
    exact List.filter_sublist.map _
  · obtain ⟨tree, member, rfl⟩ := List.mem_map.mp listed
    obtain ⟨planted, defines⟩ := List.mem_filter.mp member
    have found := (wf.linked.forest_full wf.built planted).found
    obtain ⟨p, known, _, _, own⟩ := wf.definition_binds found defines
    exact List.mem_map.mpr ⟨p, known, own⟩
  · obtain ⟨p, known, rfl⟩ := List.mem_map.mp listed
    have root : p.definition ∈ g.forest.map (·.block.id) := roots ▸ ordered.subset listed
    obtain ⟨tree, planted, own⟩ := List.mem_map.mp root
    obtain ⟨block, found, kind, _⟩ := block_of_definition wf.bound known
    have found' := (wf.linked.forest_full wf.built planted).found
    rw [own, found] at found'
    cases found'
    refine List.mem_map.mpr ⟨tree, List.mem_filter.mpr ⟨planted, ?_⟩, own⟩
    rw [kind]
    rfl

theorem introduces_all (wf : g.WellFormed) {trees : List Tree} {natives : List SavedBlock}
    (translated : List.Forall₂ (fun tree native => NativeBlock g (captureTree tree) native) trees natives)
    {procedures : List Procedure} (ids : trees.map (·.block.id) = procedures.map (·.definition))
    (listed : ∀ p ∈ procedures, p ∈ g.procedures)
    (fine : ∀ t ∈ trees, g.block? t.block.id = some t.block ∧ t.block.kind.isDefinition = true) :
    List.Forall₂ (Introduces g) procedures natives := by
  induction translated generalizing procedures with
  | nil =>
    rw [List.map_eq_nil_iff.mp ids.symm]
    exact .nil
  | cons first _ ih =>
    obtain ⟨p, rest, rfl, own, later⟩ := List.map_eq_cons_iff.mp ids.symm
    rw [List.forall_mem_cons] at listed fine
    obtain ⟨q, known, own', introduces⟩ := introduces_native wf fine.1.1 fine.1.2 first
    cases definition_injective wf listed.1 known (own.trans own'.symm)
    exact .cons introduces (ih later.symm listed.2 fine.2)

theorem sortDefinitions_native {procedures : List Procedure} {natives : List SavedBlock}
    (introduced : List.Forall₂ (Introduces g) procedures natives) :
    ∃ named, sortDefinitions [] natives = .ok ⟨[], named⟩ ∧
      List.Forall₂ (fun p e => e.1 = p.name ∧ Introduces g p e.2) procedures named := by
  induction introduced with
  | nil => exact ⟨[], rfl, .nil⟩
  | @cons p native _ _ first _ ih =>
    obtain ⟨named, sorted, others⟩ := ih
    refine ⟨(p.name, native) :: named, ?_, .cons ⟨rfl, first⟩ others⟩
    rw [sortDefinitions, first.name]
    simp only [sorted]
    rfl

theorem resolveParams_native {w : Workspace} (vars : w.graph.vars = g.vars) {params : List VariableId}
    (known : ∀ v ∈ params, (g.variableWith? v).isSome = true) :
    resolveParams w (params.map (nativeParam g)) = .ok (w, params) := by
  induction params with
  | nil => rfl
  | cons v rest ih =>
    rw [List.forall_mem_cons] at known
    have there : (w.graph.variableWith? v).isSome = true := by
      rw [variableWith?, vars]
      exact known.1
    have first : resolveParam w (nativeParam g v) = .ok (w, v) := by
      have kept : (nativeParam g v).id.filter (fun id => (w.graph.variableWith? ⟨id⟩).isSome)
          = some v.text := Option.filter_eq_some_iff.mpr ⟨rfl, there⟩
      rw [resolveParam, kept]
    rw [List.map_cons, resolveParams, first]
    simp only [bind, Except.bind, ih known.2]
    rfl

theorem declareNative_ok (wf : g.WellFormed) {w : Workspace} {done : List Procedure}
    {rest : List Procedure} {named : List (String × SavedBlock)}
    (split : (g.rebind g.nativeId).procedures = done ++ rest.map (·.rebind g.nativeId))
    (listed : ∀ p ∈ rest, p ∈ g.procedures) (declared : Declared (g.rebind g.nativeId) w done)
    (introduced : List.Forall₂ (fun p e => e.1 = p.name ∧ Introduces g p e.2) rest named) :
    ∃ w', declareNative w named = .ok w' ∧
      Declared (g.rebind g.nativeId) w' (g.rebind g.nativeId).procedures := by
  induction introduced generalizing w done with
  | nil =>
    rw [List.map_nil, List.append_nil] at split
    rw [split]
    exact ⟨w, rfl, declared⟩
  | @cons p e rest named first _ ih =>
    obtain ⟨name, definition⟩ := e
    obtain ⟨rfl, introduces⟩ := first
    rw [List.forall_mem_cons] at listed
    have sound := wf.bound.procedures p listed.1
    have short : ¬ (p.params.map (nativeParam g)).length > maxItems := by
      rw [List.length_map]
      exact Nat.not_lt.mpr sound.short
    have resolved := resolveParams_native (g := g) declared.vars
      fun v member => variableWith?_isSome.mpr (sound.known v member)
    obtain ⟨mid, made, settled⟩ := declare_step (wf.rebind (nativeId_injective wf)) split declared
    have split' : (g.rebind g.nativeId).procedures
        = (done ++ [p.rebind g.nativeId]) ++ rest.map (·.rebind g.nativeId) := by
      rw [split]
      simp
    obtain ⟨w', later, reached⟩ := ih split' listed.2 settled
    refine ⟨w', ?_, reached⟩
    rw [declareNative]
    simp only [introduces.params, introduces.id, introduces.returns, if_neg short, resolved]
    have made : edit w (.createProcedureAs ⟨p.definition.text ++ "_procedure"⟩ ⟨p.definition.text⟩ p.name
        p.params p.returns) = .ok mid := by
      rw [← nativeId_eq wf listed.1]
      exact made
    exact bind_eq_ok.mpr ⟨_, rfl, bind_eq_ok.mpr ⟨mid, made, later⟩⟩

theorem declareTables_native (wf : g.WellFormed) (ordered : g.InRootOrder) {form : Form}
    (native : NativeForm g form) : ∃ w, declareTables form = .ok w ∧
      Declared (g.rebind g.nativeId) w (g.rebind g.nativeId).procedures := by
  have full : ∀ t ∈ g.forest, g.Full t := fun t => wf.linked.forest_full wf.built
  obtain ⟨w, first, start⟩ := declared_start (wf.rebind (nativeId_injective wf))
  have found : List.Forall₂ (NativeBlock g) ((capture g).blocks.flatMap definitions)
      (form.blocks.flatMap definitions) := List.rel_flatMap native.blocks fun _ _ => definitions_native
  rw [capture, definitions_forest wf full] at found
  have introduced := introduces_all wf (List.forall₂_map_left_iff.mp found)
    (definitions_inRootOrder wf ordered) (fun _ => id) fun t member =>
      ⟨(full t (List.mem_of_mem_filter member)).found, (List.mem_filter.mp member).2⟩
  obtain ⟨named, sorted, introduced⟩ := sortDefinitions_native introduced
  obtain ⟨w', second, reached⟩ := declareNative_ok wf rfl (fun _ => id) start introduced
  refine ⟨w', ?_, reached⟩
  have vars : form.vars.map (fun v => Edit.createVariableAs ⟨v.id⟩ v.name)
      = (g.rebind g.nativeId).vars.map fun v => .createVariableAs v.id v.name := by
    rw [native.vars]
    exact createVariables_capture g
  rw [declareTables, vars, native.procedures]
  exact bind_eq_ok.mpr ⟨w, first, bind_eq_ok.mpr ⟨_, sorted, bind_eq_ok.mpr ⟨w, rfl, second⟩⟩⟩

section

variable {f : ProcedureId → ProcedureId} {tables : Graph}

theorem planRecord_congr {record native : SavedRecord} (kind : Kind) (tag : record.kind = kind.tag)
    (tag' : native.kind = kind.tag) (id : native.id = record.id) (x : native.x = record.x)
    (y : native.y = record.y)
    (fields : planFields tables native kind (namedFields native kind)
      = planFields tables record kind (namedFields record kind))
    (extent : ∀ planned, plannedExtent tables native kind planned = plannedExtent tables record kind planned) :
    planRecord tables native = planRecord tables record := by
  unfold planRecord
  rw [tag, tag', Kind.ofTag?_tag]
  simp only [fields, extent, id, x, y]

-- A definition is planned without fields: it has its procedure already.
theorem planFields_definition {kind : Kind} (defines : kind.isDefinition = true) (record : SavedRecord)
    (entries : List (String × Json)) : planFields tables record kind entries = .ok [] := by
  induction entries with
  | nil => rfl
  | cons entry rest ih =>
    obtain ⟨name, json⟩ := entry
    have passed : plannedShape? kind name = none := by
      cases kind with
      | definition returns =>
        unfold plannedShape?
        split
        · next found =>
          obtain rfl : _ = name := by simpa using List.find?_some found
          have sort : (Kind.definition returns).slot? {} _ = some (.field _) :=
            Kind.slot?_field.mpr (List.mem_of_find?_eq_some found)
          obtain ⟨_, rfl⟩ := (Kind.bound_slot (.inl defines)).mp sort
          exact if_pos ⟨defines, rfl⟩
        · rfl
      | _ => cases defines
    rw [planFields, passed]
    exact ih

-- A call is planned with its procedure, however that is given.
theorem planFields_call {kind : Kind} (calls : kind.isCall = true) (record : SavedRecord) {json : Json}
    {id : ProcedureId} (given : fieldValue? tables .procedureRef json = some (.procedureRef id)) :
    planFields tables record kind [("NAME", json)] = .ok [("NAME", .procedureRef id)] := by
  have sort : kind.slot? {} "NAME" = some (.field .procedureRef) :=
    (Kind.bound_slot (.inr calls)).mpr ⟨rfl, rfl⟩
  have shape : plannedShape? kind "NAME" = some .procedureRef := by
    rw [plannedShape?_field sort, if_neg]
    rw [Kind.call_not_definition calls]
    simp
  rw [planFields, shape]
  simp only [given]
  rfl

-- Values that are read alike are planned alike.
theorem planFields_map {record native : SavedRecord} (id : native.id = record.id) (kind : Kind)
    (other : String → Json → Json) {entries : List (String × Json)}
    (same : ∀ e ∈ entries, ∀ shape, plannedShape? kind e.1 = some shape →
      fieldValue? tables shape (other e.1 e.2) = fieldValue? tables shape e.2) :
    planFields tables native kind (entries.map fun e => (e.1, other e.1 e.2))
      = planFields tables record kind entries := by
  induction entries with
  | nil => rfl
  | cons entry rest ih =>
    obtain ⟨name, json⟩ := entry
    rw [List.forall_mem_cons] at same
    rw [List.map_cons, planFields, planFields, ih same.2, id]
    cases sort : plannedShape? kind name with
    | none => rfl
    | some shape => simp only [same.1 shape sort]

theorem rebind_unbound {block : Block} (unbound : ∀ name id, block.fields.get? name ≠ some (.procedureRef id)) :
    block.rebind f = block := by
  refine congrArg (fun fields => { block with fields := fields }) (Dict.ext_get? fun name => ?_)
  rw [Dict.get?_mapEntries]
  cases holds : block.fields.get? name with
  | none => rfl
  | some value =>
    cases value with
    | procedureRef id => exact absurd holds (unbound name id)
    | _ => rfl

variable (wf : g.WellFormed)

include wf

theorem captured_reference {block : Block} (found : g.block? block.id = some block)
    (binds : block.kind.isDefinition = true ∨ block.kind.isCall = true) {id : ProcedureId}
    (refers : (captureRecord block).fields.get? "NAME" = some (reference id.text)) :
    (captureRecord block).fields = Dict.empty.insert "NAME" (reference id.text) := by
  rw [captureRecord, procedure_of_reference wf found binds refers]
  rfl

theorem procedureNamed?_rebind (procedures : tables.procedures = (g.rebind f).procedures) {p : Procedure}
    (listed : p ∈ g.procedures) : fieldValue? tables .procedureRef (.text p.name)
      = some (.procedureRef (f p.id)) := by
  have known := wf.procedureNames.find?_name listed
  have mapped : tables.procedures = g.procedures.map (·.rebind f) := procedures
  have found : tables.procedureNamed? p.name = some (p.rebind f) := by
    rw [Graph.procedureNamed?, mapped, List.find?_map]
    exact congrArg (Option.map (·.rebind f)) known
  exact congrArg (Option.map fun q => FieldValue.procedureRef q.id) found

theorem planRecord_call (procedures : tables.procedures = (g.rebind f).procedures) {block : Block}
    (found : g.block? block.id = some block) (calls : block.kind.isCall = true) {native : SavedRecord}
    {p : Procedure} (listed : p ∈ g.procedures)
    (refers : (captureRecord block).fields.get? "NAME" = some (reference p.id.text))
    (tag : native.kind = block.kind.tag) (id : native.id = block.id.text)
    (x : native.x = block.position.map (·.x)) (y : native.y = block.position.map (·.y))
    (named : namedFields native block.kind = [("NAME", .text p.name)]) :
    planRecord tables native = planRecord tables (captureRecord (block.rebind f)) := by
  have fields := procedure_of_reference wf found (.inr calls) refers
  have rebound : (block.rebind f).fields = Dict.empty.insert "NAME" (.procedureRef (f p.id)) := by
    rw [Block.rebind, fields]
    rfl
  refine planRecord_congr block.kind rfl tag id x y ?_ fun planned => ?_
  · rw [named, planFields_call calls native (procedureNamed?_rebind wf procedures listed)]
    have written : namedFields (captureRecord (block.rebind f)) block.kind
        = [("NAME", reference (f p.id).text)] := by
      rw [show block.kind = (block.rebind f).kind from rfl, namedFields_capture, captureRecord_fields, rebound]
      rfl
    rw [written, planFields_call calls _ rfl]
  · unfold plannedExtent
    rw [Kind.variadic_arguments.mpr calls]

-- A variable's name is read as a reference to it.
theorem fieldValue?_variable (vars : tables.vars = g.vars) {block : Block}
    (found : g.block? block.id = some block) (plain : block.kind.isDefinition = false)
    (plain' : block.kind.isCall = false) {v : Variable} (listed : v ∈ g.vars) {name : String}
    (refers : (captureRecord block).fields.get? name = some (reference v.id.text)) {shape : FieldShape}
    (planned : plannedShape? block.kind name = some shape) :
    fieldValue? tables shape (.text v.name) = fieldValue? tables shape (reference v.id.text) := by
  have proper := (wf.built _ block found).2
  rw [captureRecord_field, Option.bind_eq_some_iff] at refers
  obtain ⟨value, held, written⟩ := refers
  obtain ⟨shape', sort⟩ := (proper.shaped.fields name).mp (by rw [held]; rfl)
  have fits := proper.fitting name value shape' held sort
  have same : plannedShape? block.kind name = some shape' := by
    rw [plannedShape?_field sort, plain]
    simp
  cases same.symm.trans planned
  cases value with
  | variableRef id =>
    cases shape with
    | variableRef =>
      have known : tables.variableNamed? v.name = some v := by
        rw [Graph.variableNamed?, vars]
        exact wf.variableNames.find?_name listed
      exact congrArg (Option.map fun w => FieldValue.variableRef w.id) known
    | _ => exact fits.elim
  | procedureRef id => exact absurd held (reference_unbound wf found plain plain' name id)
  | number value =>
    simp only [fieldJson?, numberJson] at written
    split at written <;> cases written
  | _ => cases written

theorem planRecord_variables (vars : tables.vars = g.vars) {block : Block}
    (found : g.block? block.id = some block) (plain : block.kind.isDefinition = false)
    (plain' : block.kind.isCall = false) {fields : Dict Json}
    (named : ∀ name, fields.get? name = (captureRecord block).fields.get? name ∨ ∃ v ∈ g.vars,
      (captureRecord block).fields.get? name = some (reference v.id.text) ∧
        fields.get? name = some (.text v.name)) :
    planRecord tables { captureRecord block with fields := fields }
      = planRecord tables (captureRecord block) := by
  have renamed : fields = (captureRecord block).fields.mapEntries
      fun name json => (fields.get? name).getD json := by
    refine Dict.ext_get? fun name => ?_
    rw [Dict.get?_mapEntries]
    rcases named name with same | ⟨v, _, refers, given⟩
    · rw [same]
      cases (captureRecord block).fields.get? name <;> rfl
    · rw [refers, given]
      rfl
  have entries : fields.entries = (captureRecord block).fields.entries.map
      fun e => (e.1, (fields.get? e.1).getD e.2) := congrArg Dict.entries renamed
  refine planRecord_congr block.kind rfl rfl rfl rfl rfl ?_ fun _ => rfl
  rw [namedFields, plain', namedFields, plain']
  simp only [Bool.false_and, Bool.false_eq_true, if_false, List.append_nil]
  refine (congrArg (planFields tables _ block.kind) entries).trans
    (planFields_map ?_ block.kind (fun name json => (fields.get? name).getD json) ?_)
  · rfl
  rintro ⟨name, json⟩ member shape planned
  have held := Dict.mem_entries.mp member
  rcases named name with same | ⟨v, listed, refers, given⟩
  · simp only [same, held, Option.getD_some]
  · cases held.symm.trans refers
    simp only [given, Option.getD_some]
    exact fieldValue?_variable wf vars found plain plain' listed refers planned

theorem planRecord_native (vars : tables.vars = g.vars)
    (procedures : tables.procedures = (g.rebind f).procedures) {block : Block}
    (found : g.block? block.id = some block) {native : SavedRecord}
    (translated : NativeRecord g (captureRecord block) native) :
    planRecord tables native = planRecord tables (captureRecord (block.rebind f)) := by
  have proper := (wf.built _ block found).2
  have tag : (captureRecord block).kind = block.kind.tag := rfl
  have calls : isCallTag (captureRecord block).kind = block.kind.isCall := isCallTag_tag _
  have defines : isDefinitionTag (captureRecord block).kind = block.kind.isDefinition := isDefinitionTag_tag _
  cases translated with
  | definition shown =>
    rw [defines] at shown
    refine planRecord_congr block.kind rfl rfl rfl rfl rfl ?_ fun planned => ?_
    · rw [planFields_definition shown, planFields_definition shown]
    · unfold plannedExtent
      cases kind : block.kind with
      | definition returns => rfl
      | _ =>
        rw [kind] at shown
        cases shown
  | @call p shown listed refers =>
    rw [calls] at shown
    refine planRecord_call wf procedures found shown listed refers rfl rfl rfl rfl ?_
    rw [namedFields, captured_reference wf found (.inr shown) refers, shown]
    rfl
  | @callByState p shown listed refers =>
    rw [calls] at shown
    refine planRecord_call wf procedures found shown listed refers rfl rfl rfl rfl ?_
    rw [namedFields, captured_reference wf found (.inr shown) refers, shown]
    rfl
  | openCall shown unbound =>
    rw [calls] at shown
    rw [rebind_unbound]
    intro name id holds
    obtain rfl := (proper.bound_field (.inr shown)).mp (by rw [holds]; rfl)
    rw [captureRecord_field, holds] at unbound
    cases unbound
  | @other fields plain plain' named =>
    rw [defines] at plain
    rw [calls] at plain'
    rw [rebind_unbound]
    · exact planRecord_variables wf vars found plain plain' named
    · exact reference_unbound wf found plain plain'

end

-- However a tree is written in native style, it is planned as another tree is.
def PlannedAs (g tables : Graph) (tree tree' : Tree) : Prop :=
  ∀ native, NativeBlock g (captureTree tree) native →
    planBlock tables native = planBlock tables (captureTree tree') ∧
      native.record.id = (captureTree tree').record.id

def HungAs (g tables : Graph) (child child' : Connected SavedBlock) : Prop :=
  ∀ native, NativeConnected g child native → ∀ place,
    planConnected tables place native = planConnected tables place child'

variable {f : ProcedureId → ProcedureId} {tables : Graph}

theorem PlannedAs.hung {tree tree' : Tree} (same : PlannedAs g tables tree tree') :
    HungAs g tables ⟨some (captureTree tree), none⟩ ⟨some (captureTree tree'), none⟩ := by
  intro native translated place
  cases translated with
  | kept translated | shadowed translated =>
    obtain ⟨planned, id⟩ := same _ translated
    rw [planConnected, planConnected, planned, id]

theorem captureInputs_hung {branches branches' : List (Place × Tree)}
    (same : List.Forall₂ (fun p q => p.1 = q.1 ∧ PlannedAs g tables p.2 q.2) branches branches') :
    List.Forall₂ (fun x y => x.1 = y.1 ∧ HungAs g tables x.2 y.2) (captureInputs branches)
      (captureInputs branches') := by
  induction same with
  | nil => exact .nil
  | @cons p q _ _ first _ ih =>
    obtain ⟨place, tree⟩ := p
    obtain ⟨place', tree'⟩ := q
    obtain ⟨rfl, planned⟩ := first
    cases place with
    | input slot | body slot => exact .cons ⟨rfl, planned.hung⟩ ih
    | next => exact ih

theorem planInputs_native (parent : Planned) {inputs inputs' natives : List (String × Connected SavedBlock)}
    (same : List.Forall₂ (fun x y => x.1 = y.1 ∧ HungAs g tables x.2 y.2) inputs inputs')
    (translated : NativeInputs g inputs natives) :
    planInputs tables parent natives = planInputs tables parent inputs' := by
  induction same generalizing natives with
  | nil =>
    cases translated
    rfl
  | @cons x y _ _ first _ ih =>
    obtain ⟨name, child⟩ := x
    obtain ⟨name', child'⟩ := y
    obtain ⟨rfl, hung⟩ := first
    cases translated with
    | cons here others =>
      rw [planInputs, planInputs, ih others]
      simp only [hung _ here]

theorem planNext_native {branches branches' : List (Place × Tree)}
    (same : List.Forall₂ (fun p q => p.1 = q.1 ∧ PlannedAs g tables p.2 q.2) branches branches')
    {native : Option (Connected SavedBlock)} (translated : NativeNext g (captureNext branches) native) :
    planNext tables native = planNext tables (captureNext branches') := by
  induction same with
  | nil =>
    cases translated
    rfl
  | @cons p q _ _ first _ ih =>
    obtain ⟨place, tree⟩ := p
    obtain ⟨place', tree'⟩ := q
    obtain ⟨rfl, planned⟩ := first
    cases place with
    | input slot | body slot => exact ih translated
    | next =>
      cases translated with
      | some follows => exact planned.hung _ follows .next

theorem planNode_native (wf : g.WellFormed) (vars : tables.vars = g.vars)
    (procedures : tables.procedures = (g.rebind f).procedures) {block : Block}
    (found : g.block? block.id = some block) {branches branches' : List (Place × Tree)}
    (same : List.Forall₂ (fun p q => p.1 = q.1 ∧ PlannedAs g tables p.2 q.2) branches branches') :
    PlannedAs g tables (.node block branches) (.node (block.rebind f) branches') := by
  intro native translated
  rw [captureTree] at translated ⊢
  cases translated with
  | mk own below after =>
    refine ⟨?_, own.id⟩
    rw [planBlock, planBlock, planRecord_native wf vars procedures found own, planNext_native same after]
    simp only [planInputs_native _ (Dict.forall₂_ofList (captureInputs_hung same)) below]

-- The trees of the two graphs correspond, block by block.
theorem planTree_native (wf : g.WellFormed) (vars : tables.vars = g.vars)
    (procedures : tables.procedures = (g.rebind f).procedures) (depth : Nat) {block : Block}
    (found : g.block? block.id = some block) :
    PlannedAs g tables (g.treeTo depth block) ((g.rebind f).treeTo depth (block.rebind f)) := by
  induction depth generalizing block with
  | zero => exact planNode_native wf vars procedures found .nil
  | succ depth ih =>
    refine planNode_native wf vars procedures found ?_
    show List.Forall₂ _ (block.links.filterMap _) (block.links.filterMap _)
    refine List.rel_filterMap (R := Eq) ?_ (List.forall₂_refl block.links)
    rintro link _ rfl
    simp only [rebind_block?]
    cases known : g.block? link.2 with
    | none => exact .none
    | some child =>
      obtain ⟨own, _⟩ := wf.built _ child known
      exact .some ⟨rfl, ih (own.symm ▸ known)⟩

theorem planForest_native (wf : g.WellFormed) (vars : tables.vars = g.vars)
    (procedures : tables.procedures = (g.rebind f).procedures) :
    List.Forall₂ (PlannedAs g tables) g.forest (g.rebind f).forest := by
  have size : (g.rebind f).size = g.size := List.length_map _
  refine List.rel_filterMap (R := Eq) ?_ (List.forall₂_refl g.roots)
  rintro id _ rfl
  rw [tree?, tree?, rebind_block?]
  cases known : g.block? id with
  | none => exact .none
  | some root =>
    obtain ⟨own, _⟩ := wf.built _ root known
    refine .some ?_
    rw [tree, tree, size]
    exact planTree_native wf vars procedures g.size (own.symm ▸ known)

theorem planAll_native {trees trees' : List Tree} (same : List.Forall₂ (PlannedAs g tables) trees trees')
    {natives : List SavedBlock} (translated : List.Forall₂ (NativeBlock g) (trees.map captureTree) natives) :
    planAll tables natives = planAll tables (trees'.map captureTree) ∧
      natives.map (·.record.id) = (trees'.map captureTree).map (·.record.id) := by
  induction same generalizing natives with
  | nil =>
    cases translated
    exact ⟨rfl, rfl⟩
  | cons first _ ih =>
    cases translated with
    | cons here others =>
      obtain ⟨planned, id⟩ := first _ here
      obtain ⟨later, ids⟩ := ih others
      refine ⟨?_, List.cons_eq_cons.mpr ⟨id, ids⟩⟩
      rw [planAll, planned, later]
      rfl

theorem orderEdits_ids {form form' : Form}
    (ids : form.blocks.map (·.record.id) = form'.blocks.map (·.record.id)) :
    orderEdits form = orderEdits form' := by
  have edits : ∀ form : Form, orderEdits form
      = (form.blocks.map (·.record.id)).zipIdx.map fun e => .reorderRoot ⟨e.1⟩ e.2 := by
    intro form
    rw [List.zipIdx_map, List.map_map]
    rfl
  rw [edits, edits, ids]

theorem restore_native (wf : g.WellFormed) (ordered : g.InRootOrder) {form : Form}
    (native : NativeForm g form) : ∃ w, restore form = .ok w ∧ w.graph = g.rebind g.nativeId := by
  have wf' := wf.rebind (nativeId_injective wf)
  obtain ⟨w₀, declared, tables⟩ := declareTables_native wf ordered native
  have same := planForest_native wf tables.vars tables.procedures
  obtain ⟨planned, ids⟩ := planAll_native same native.blocks
  obtain ⟨plan, made, covers⟩ := planAll_ok wf' tables.procedures
    fun tree => wf'.linked.forest_full wf'.built
  obtain ⟨w, carried, reached⟩ := script_ok wf' (tables.holds wf') covers
    (orderEdits_ids ids)
  exact ⟨w, bind_eq_ok.mpr ⟨w₀, declared, bind_eq_ok.mpr ⟨plan, planned.trans made, carried⟩⟩, reached⟩

theorem native_form_loads_the_same_program {w : Workspace} (reached : w.Reachable)
    (ordered : w.graph.InRootOrder) {form : Form} (native : NativeForm w.graph form) :
    ∃ w', restore form = .ok w' ∧ w'.graph = w.graph.rebind w.graph.nativeId ∧
      ∀ options : Options, Generation.compile w'.graph options = Generation.compile w.graph options := by
  have wf := reached.wellFormed
  obtain ⟨w', restored, same⟩ := restore_native wf ordered native
  refine ⟨w', restored, same, fun options => ?_⟩
  rw [same]
  exact compile_rebind wf (nativeId_injective wf) options

-- Two procedures that call each other, one with a parameter, under names in another spelling than
-- their ids.
theorem mutual_calls_load_from_native_form :
    let w := (Editing.Session.runAll {} false [.edit (.createVariable "n"),
      .edit (.createProcedure "Halve it" [⟨"v1"⟩] true), .edit (.createProcedure "show" [] false),
      .edit (.addBlock (.call true)), .edit (.setField ⟨"b6"⟩ "NAME" (.procedureRef ⟨"p2"⟩)),
      .edit (.addBlock .variableGet), .edit (.setField ⟨"b7"⟩ "VAR" (.variableRef ⟨"v1"⟩)),
      .edit (.attach ⟨"b6"⟩ (.input "ARG0") ⟨"b7"⟩), .edit (.addBlock .print),
      .edit (.attach ⟨"b8"⟩ (.input "TEXT") ⟨"b6"⟩), .edit (.attach ⟨"b5"⟩ (.body "STACK") ⟨"b8"⟩),
      .edit (.addBlock (.call false)), .edit (.setField ⟨"b9"⟩ "NAME" (.procedureRef ⟨"p4"⟩)),
      .edit (.attach ⟨"b3"⟩ (.body "STACK") ⟨"b9"⟩)]).1.workspace
    (w.Reachable ∧ w.graph.InRootOrder ∧ NativeForm w.graph (nativeForm w.graph) ∧
      w.graph.nativeId ⟨"p2"⟩ = ⟨"b3_procedure"⟩ ∧ w.graph.roots = [⟨"b3"⟩, ⟨"b5"⟩]) ∧
      ∃ w', restore (nativeForm w.graph) = .ok w' ∧ w'.graph = w.graph.rebind w.graph.nativeId ∧
        ∀ options : Options, Generation.compile w'.graph options = Generation.compile w.graph options :=
  ⟨⟨Editing.Session.runAll_reachable false _, by decide +kernel,
      nativeForm_native (Editing.Session.runAll_reachable false _).wellFormed, by decide +kernel,
      by decide +kernel⟩,
    native_form_loads_the_same_program (Editing.Session.runAll_reachable false _) (by decide +kernel)
      (nativeForm_native (Editing.Session.runAll_reachable false _).wellFormed)⟩

end Blockwork.Snapshot
