import Mathlib
import Blockwork.Proofs.Rebinding

-- Saved forms without a list of procedures. Definitions and calls say by name what
-- they belong to, variables may be named too, and children may hang as shadows. Such
-- a form is loaded to the graph that was saved, but for the ids of its procedures:
-- they are made from the ids of the definitions.
namespace Blockwork

-- In a table with names of its own, a name finds what has it.
theorem Named.find?_name {α β : Type} {id : α → β} {name : α → String} {items : List α}
    (named : Named id name items) {a : α} (listed : a ∈ items) :
    items.find? (fun b => sameName (name b) (name a)) = some a := by
  cases found : items.find? fun b => sameName (name b) (name a) with
  | none =>
    have missed := List.find?_eq_none.mp found a listed
    simp [sameName] at missed
  | some b =>
    have same : foldName (name b) = foldName (name a) := by
      simpa [sameName] using List.find?_some found
    exact congrArg some
      (List.inj_on_of_nodup_map named.names (List.mem_of_find?_eq_some found) listed same)

namespace Graph

-- The id that a procedure gets where only its definition speaks of it.
def nativeId (g : Graph) (id : ProcedureId) : ProcedureId :=
  match g.procedureWith? id with
  | some p => ⟨p.definition.text ++ "_procedure"⟩
  | none => id

def InRootOrder (g : Graph) : Prop := (g.procedures.map (·.definition)).Sublist g.roots

instance (g : Graph) : Decidable g.InRootOrder :=
  inferInstanceAs (Decidable (List.Sublist _ _))

variable {g : Graph}

theorem nativeId_eq (wf : g.WellFormed) {p : Procedure} (listed : p ∈ g.procedures) :
    g.nativeId p.id = ⟨p.definition.text ++ "_procedure"⟩ := by
  rw [nativeId, wf.procedureWith?_listed listed]

theorem definition_injective (wf : g.WellFormed) {p q : Procedure} (first : p ∈ g.procedures)
    (second : q ∈ g.procedures) (same : p.definition = q.definition) : p = q :=
  wf.procedureNames.unique first second (wf.bound.same_definition first second same)

theorem nativeId_injective (wf : g.WellFormed) : ∀ p ∈ g.procedures, ∀ q ∈ g.procedures,
    g.nativeId p.id = g.nativeId q.id → p = q := by
  intro p first q second same
  rw [nativeId_eq wf first, nativeId_eq wf second] at same
  apply definition_injective wf first second
  have texts : p.definition.text = q.definition.text := by
    simpa [String.append_left_inj] using same
  exact congrArg BlockId.mk texts

end Graph

namespace Snapshot

open Blockwork.Graph

def nativeParam (g : Graph) (v : VariableId) : SavedParam :=
  ⟨((g.variableWith? v).map (·.name)).getD "", some v.text⟩

def isCallTag (tag : String) : Bool := tag == (Kind.call false).tag || tag == (Kind.call true).tag

-- One record in place of another. Where a reference gives way to a name, the name is that of
-- what it refers to.
inductive NativeRecord (g : Graph) : SavedRecord → SavedRecord → Prop where
  | definition {record : SavedRecord} {p : Procedure} (tag : isDefinitionTag record.kind = true)
      (listed : p ∈ g.procedures) (refers : record.fields.get? "NAME" = some (reference p.id.text)) :
      NativeRecord g record { record with
        fields := record.fields.insert "NAME" (.text p.name)
        extra := some { record.extra.getD {} with params := some (p.params.map (nativeParam g)) } }
  | call {record : SavedRecord} {p : Procedure} (tag : isCallTag record.kind = true)
      (listed : p ∈ g.procedures) (refers : record.fields.get? "NAME" = some (reference p.id.text)) :
      NativeRecord g record { record with fields := record.fields.insert "NAME" (.text p.name) }
  | callByState {record : SavedRecord} {p : Procedure} (tag : isCallTag record.kind = true)
      (listed : p ∈ g.procedures) (refers : record.fields.get? "NAME" = some (reference p.id.text)) :
      NativeRecord g record { record with
        fields := record.fields.restrict (· != "NAME")
        extra := some { record.extra.getD {} with name := some p.name } }
  | openCall {record : SavedRecord} (tag : isCallTag record.kind = true)
      (unbound : record.fields.get? "NAME" = none) : NativeRecord g record record
  | other {record : SavedRecord} {fields : Dict Json} (plain : isDefinitionTag record.kind = false)
      (plain' : isCallTag record.kind = false)
      (named : ∀ name, fields.get? name = record.fields.get? name ∨ ∃ v ∈ g.vars,
        record.fields.get? name = some (reference v.id.text) ∧ fields.get? name = some (.text v.name)) :
      NativeRecord g record { record with fields := fields }

mutual

inductive NativeBlock (g : Graph) : SavedBlock → SavedBlock → Prop where
  | mk {record record' : SavedRecord} {inputs inputs' : List (String × Connected SavedBlock)}
      {next next' : Option (Connected SavedBlock)} (own : NativeRecord g record record')
      (below : NativeInputs g inputs inputs') (after : NativeNext g next next') :
      NativeBlock g (.mk record inputs next) (.mk record' inputs' next')

inductive NativeInputs (g : Graph) :
    List (String × Connected SavedBlock) → List (String × Connected SavedBlock) → Prop where
  | nil : NativeInputs g [] []
  | cons {name : String} {child child' : Connected SavedBlock}
      {rest rest' : List (String × Connected SavedBlock)} (first : NativeConnected g child child')
      (others : NativeInputs g rest rest') :
      NativeInputs g ((name, child) :: rest) ((name, child') :: rest')

inductive NativeNext (g : Graph) :
    Option (Connected SavedBlock) → Option (Connected SavedBlock) → Prop where
  | none : NativeNext g none none
  | some {child child' : Connected SavedBlock} (follows : NativeConnected g child child') :
      NativeNext g (some child) (some child')

-- A child hangs as before or as a shadow.
inductive NativeConnected (g : Graph) : Connected SavedBlock → Connected SavedBlock → Prop where
  | kept {block block' : SavedBlock} (native : NativeBlock g block block') :
      NativeConnected g ⟨some block, none⟩ ⟨some block', none⟩
  | shadowed {block block' : SavedBlock} (native : NativeBlock g block block') :
      NativeConnected g ⟨some block, none⟩ ⟨none, some block'⟩

end

structure NativeForm (g : Graph) (form : Form) : Prop where
  vars : form.vars = (capture g).vars
  procedures : form.procedures = []
  blocks : List.Forall₂ (NativeBlock g) (capture g).blocks form.blocks

theorem NativeRecord.kind {g : Graph} {record native : SavedRecord} (own : NativeRecord g record native) :
    native.kind = record.kind := by
  cases own <;> rfl

theorem NativeRecord.id {g : Graph} {record native : SavedRecord} (own : NativeRecord g record native) :
    native.id = record.id := by
  cases own <;> rfl

theorem NativeBlock.record {g : Graph} {saved native : SavedBlock} (translated : NativeBlock g saved native) :
    NativeRecord g saved.record native.record := by
  cases translated with
  | mk own _ _ => exact own

-- Definitions stay where they are.
mutual

theorem definitions_native {g : Graph} {saved native : SavedBlock}
    (translated : NativeBlock g saved native) :
    List.Forall₂ (NativeBlock g) (definitions saved) (definitions native) := by
  cases translated with
  | @mk record record' _ _ _ _ own below after =>
    rw [definitions, definitions, own.kind]
    refine List.rel_append (List.rel_append ?_ (definitionsInputs_native below))
      (definitionsNext_native after)
    cases isDefinitionTag record.kind with
    | true => exact .cons (.mk own below after) .nil
    | false => exact .nil

theorem definitionsInputs_native {g : Graph} {inputs inputs' : List (String × Connected SavedBlock)}
    (translated : NativeInputs g inputs inputs') :
    List.Forall₂ (NativeBlock g) (definitionsInputs inputs) (definitionsInputs inputs') := by
  cases translated with
  | nil => exact .nil
  | cons first others =>
    rw [definitionsInputs, definitionsInputs]
    exact List.rel_append (definitionsConnected_native first) (definitionsInputs_native others)

theorem definitionsNext_native {g : Graph} {next next' : Option (Connected SavedBlock)}
    (translated : NativeNext g next next') :
    List.Forall₂ (NativeBlock g) (definitionsNext next) (definitionsNext next') := by
  cases translated with
  | none => exact .nil
  | some follows =>
    rw [definitionsNext, definitionsNext]
    exact definitionsConnected_native follows

theorem definitionsConnected_native {g : Graph} {child child' : Connected SavedBlock}
    (translated : NativeConnected g child child') :
    List.Forall₂ (NativeBlock g) (definitionsConnected child) (definitionsConnected child') := by
  cases translated with
  | kept native | shadowed native =>
    rw [definitionsConnected, definitionsConnected]
    exact definitions_native native

end

variable {g : Graph}

theorem isCallTag_tag (kind : Kind) : isCallTag kind.tag = kind.isCall := by
  cases kind with
  | definition returns | call returns => cases returns <;> decide
  | _ => decide

-- The procedure that a captured record refers to.
theorem procedure_of_reference (wf : g.WellFormed) {block : Block} (found : g.block? block.id = some block)
    (binds : block.kind.isDefinition = true ∨ block.kind.isCall = true) {id : ProcedureId}
    (refers : (captureRecord block).fields.get? "NAME" = some (reference id.text)) :
    block.fields = Dict.empty.insert "NAME" (.procedureRef id) := by
  have proper := (wf.built _ block found).2
  rw [captureRecord_field, Option.bind_eq_some_iff] at refers
  obtain ⟨value, held, written⟩ := refers
  have fits := proper.fitting "NAME" value _ held ((Kind.bound_slot binds).mpr ⟨rfl, rfl⟩)
  cases value with
  | procedureRef other =>
    have same : other = id := congrArg ProcedureId.mk (by simpa [fieldJson?, reference] using written)
    exact bound_entries proper binds (same ▸ held)
  | empty => cases written
  | _ => exact fits.elim

theorem reference_unbound (wf : g.WellFormed) {block : Block} (found : g.block? block.id = some block)
    (plain : block.kind.isDefinition = false) (plain' : block.kind.isCall = false) (name : String)
    (id : ProcedureId) : block.fields.get? name ≠ some (.procedureRef id) := by
  intro holds
  have proper := (wf.built _ block found).2
  obtain ⟨shape, sort⟩ := (proper.shaped.fields name).mp (by rw [holds]; rfl)
  have fits := proper.fitting name _ shape holds sort
  cases shape with
  | procedureRef =>
    rcases Kind.procedureRef_slot sort with defines | calls
    · rw [defines] at plain
      cases plain
    · rw [calls] at plain'
      cases plain'
  | _ => exact fits.elim

-- A record in native style. Calls for a value are named by their field, other calls by
-- their state.
def nativeRecord (g : Graph) (record : SavedRecord) : SavedRecord :=
  if isDefinitionTag record.kind || isCallTag record.kind then
    match ((record.fields.get? "NAME").bind referenceId?).bind fun id => g.procedureWith? ⟨id⟩ with
    | none => record
    | some p =>
      if isDefinitionTag record.kind then { record with
        fields := record.fields.insert "NAME" (.text p.name)
        extra := some { record.extra.getD {} with params := some (p.params.map (nativeParam g)) } }
      else if record.kind == (Kind.call true).tag then
        { record with fields := record.fields.insert "NAME" (.text p.name) }
      else { record with
        fields := record.fields.restrict (· != "NAME")
        extra := some { record.extra.getD {} with name := some p.name } }
  else { record with
    fields := record.fields.mapEntries fun _ json =>
      match (referenceId? json).bind fun id => g.variableWith? ⟨id⟩ with
      | none => json
      | some v => .text v.name }

mutual

-- A block in native style, with all that hangs below it as shadows.
def nativeBlock (g : Graph) : SavedBlock → SavedBlock
  | .mk record inputs next => .mk (nativeRecord g record) (nativeInputs g inputs) (nativeNext g next)

def nativeInputs (g : Graph) : List (String × Connected SavedBlock) → List (String × Connected SavedBlock)
  | [] => []
  | (name, child) :: rest => (name, nativeConnected g child) :: nativeInputs g rest

def nativeNext (g : Graph) : Option (Connected SavedBlock) → Option (Connected SavedBlock)
  | none => none
  | some child => some (nativeConnected g child)

def nativeConnected (g : Graph) : Connected SavedBlock → Connected SavedBlock
  | ⟨some block, _⟩ => ⟨none, some (nativeBlock g block)⟩
  | ⟨none, shadow⟩ => ⟨none, shadow⟩

end

def nativeForm (g : Graph) : Form :=
  { capture g with blocks := (capture g).blocks.map (nativeBlock g), procedures := [] }

theorem referenceId?_reference (id : String) : referenceId? (reference id) = some id := by
  simp [referenceId?, reference, Json.get?, Json.text?]

theorem referenceId?_fieldJson {value : FieldValue} {json : Json} (written : fieldJson? value = some json)
    {id : String} (refers : referenceId? json = some id) : json = reference id := by
  cases value with
  | variableRef v | procedureRef v =>
    cases written
    rw [referenceId?_reference] at refers
    cases refers
    rfl
  | number value =>
    simp only [fieldJson?, numberJson] at written
    split at written <;> cases written <;> cases refers
  | empty => cases written
  | _ =>
    cases written
    cases refers

-- Definitions refer to their procedure, and so do calls unless they are open.
theorem bound_reference (wf : g.WellFormed) {block : Block} (found : g.block? block.id = some block)
    (binds : block.kind.isDefinition = true ∨ block.kind.isCall = true) :
    (∃ p ∈ g.procedures, (captureRecord block).fields.get? "NAME" = some (reference p.id.text)) ∨
      block.kind.isCall = true ∧ (captureRecord block).fields.get? "NAME" = none := by
  rw [captureRecord_field]
  rcases binds with defines | calls
  · obtain ⟨p, listed, named, _⟩ := wf.definition_binds found defines
    exact .inl ⟨p, listed, by rw [named]; rfl⟩
  · rcases wf.call_binds found calls with ⟨p, listed, named, _⟩ | ⟨unbound, _⟩
    · exact .inl ⟨p, listed, by rw [named]; rfl⟩
    · exact .inr ⟨calls, by rw [unbound]; rfl⟩

theorem nativeRecord_native (wf : g.WellFormed) {block : Block} (found : g.block? block.id = some block) :
    NativeRecord g (captureRecord block) (nativeRecord g (captureRecord block)) := by
  have calls : isCallTag (captureRecord block).kind = block.kind.isCall := isCallTag_tag _
  have defines : isDefinitionTag (captureRecord block).kind = block.kind.isDefinition := isDefinitionTag_tag _
  unfold nativeRecord
  split
  · next binds =>
    rw [defines, calls, Bool.or_eq_true] at binds
    rcases bound_reference wf found binds with ⟨p, listed, refers⟩ | ⟨called, absent⟩
    · have known := wf.procedureWith?_listed listed
      rw [refers, Option.bind_some, referenceId?_reference, Option.bind_some]
      simp only [known]
      split
      · next tag => exact .definition tag listed refers
      · next other =>
        have tag : isCallTag (captureRecord block).kind = true := by
          rw [defines] at other
          rw [calls]
          exact binds.resolve_left other
        split
        · exact .call tag listed refers
        · exact .callByState tag listed refers
    · rw [absent]
      exact .openCall (calls.trans called) absent
  · next plain =>
    rw [Bool.or_eq_true, not_or, Bool.not_eq_true, Bool.not_eq_true] at plain
    refine .other plain.1 plain.2 fun name => ?_
    rw [Dict.get?_mapEntries]
    cases held : (captureRecord block).fields.get? name with
    | none => exact .inl rfl
    | some json =>
      rw [Option.map_some]
      split
      · exact .inl rfl
      · next v known =>
        obtain ⟨id, refers, listed⟩ := Option.bind_eq_some_iff.mp known
        rw [captureRecord_field, Option.bind_eq_some_iff] at held
        obtain ⟨value, _, written⟩ := held
        have own : v.id = ⟨id⟩ := by simpa using List.find?_some listed
        refine .inr ⟨v, List.mem_of_find?_eq_some listed, ?_, rfl⟩
        rw [referenceId?_fieldJson written refers, own]

theorem nativeInputs_native {inputs : List (String × Connected SavedBlock)}
    (each : ∀ e ∈ inputs, NativeConnected g e.2 (nativeConnected g e.2)) :
    NativeInputs g inputs (nativeInputs g inputs) := by
  induction inputs with
  | nil => exact .nil
  | cons entry rest ih =>
    rw [List.forall_mem_cons] at each
    exact .cons each.1 (ih each.2)

theorem nativeBlock_native (wf : g.WellFormed) {tree : Tree} (full : g.Full tree) :
    NativeBlock g (captureTree tree) (nativeBlock g (captureTree tree)) := by
  induction full with
  | @node block branches found whole below ih =>
    refine .mk (nativeRecord_native wf found) (nativeInputs_native fun e member => ?_) ?_
    · have listed := Dict.mem_ofList member
      rw [captureInputs_eq] at listed
      obtain ⟨p, kept, rfl⟩ := List.mem_map.mp listed
      exact .shadowed (ih p (List.mem_of_mem_filter kept))
    · rw [captureNext_eq]
      cases first : (branches.filter (·.1 = .next)).head? with
      | none => exact .none
      | some p => exact .some (.shadowed (ih p (List.mem_of_mem_filter (List.mem_of_mem_head? first))))

-- What was saved of a graph can always be written so.
theorem nativeForm_native (wf : g.WellFormed) : NativeForm g (nativeForm g) := by
  refine ⟨rfl, rfl, ?_⟩
  refine List.forall₂_map_right_iff.mpr (List.forall₂_same.mpr fun saved member => ?_)
  obtain ⟨tree, planted, rfl⟩ := List.mem_map.mp member
  exact nativeBlock_native wf (wf.linked.forest_full wf.built planted)

end Snapshot
end Blockwork
