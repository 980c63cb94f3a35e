import Mathlib
import Blockwork.Proofs.Planning

-- Carrying out a plan. The blocks go through the same stages one after another:
-- added, grown, filled, and at last linked to each other and laid out.
namespace Blockwork

namespace Block

theorem fresh_shaped (id : BlockId) (kind : Kind) (extent : Extent) : (fresh id kind extent).Shaped :=
  reshape_shaped _ extent

-- Growing a new block and adding a grown one come to the same.
theorem fresh_reshape (id : BlockId) (kind : Kind) (before extent : Extent) :
    (fresh id kind before).reshape extent = fresh id kind extent := by
  refine eq_of_held (reshape_shaped _ _) (fresh_shaped _ _ _) rfl rfl rfl rfl
    (Dict.ext_get? fun name => ?_) rfl fun place => ?_
  · rw [reshape_fields, fresh_fields, fresh_fields, fresh_kind]
    rcases sort : kind.slot? extent name with _ | ⟨shape⟩ | _ | _
    · rfl
    · rw [Kind.slot?_field.mpr (Kind.slot?_field.mp sort)]
      rfl
    · rfl
    · rfl
  · rw [reshape_held, fresh_held, fresh_held]
    split <;> rfl

-- A block of which only some links are made, and which may not have been laid out.
def strip (linked placed : List BlockId) (block : Block) : Block :=
  { block with
    position := if block.id ∈ placed then block.position else none
    parent := if block.id ∈ linked then block.parent else none
    inputs := block.inputs.mapEntries fun _ child => child.filter (· ∈ linked)
    bodies := block.bodies.mapEntries fun _ child => child.filter (· ∈ linked)
    next := block.next.filter (· ∈ linked) }

theorem strip_held (linked placed : List BlockId) (block : Block) (place : Place) :
    (block.strip linked placed).held place = (block.held place).filter (· ∈ linked) := by
  cases place with
  | input slot => cases present : block.inputs.get? slot <;> simp [held, strip, present]
  | body slot => cases present : block.bodies.get? slot <;> simp [held, strip, present]
  | next => rfl

theorem strip_shaped {block : Block} (shaped : block.Shaped) (linked placed : List BlockId) :
    (block.strip linked placed).Shaped := by
  refine ⟨shaped.fields, fun name => ?_, fun name => ?_⟩
  · rw [strip, Dict.get?_mapEntries, Option.isSome_map]
    exact shaped.inputs name
  · rw [strip, Dict.get?_mapEntries, Option.isSome_map]
    exact shaped.bodies name

-- Without any link a block is a new one with its fields filled.
theorem strip_none {block : Block} (shaped : block.Shaped) :
    block.strip [] [] = { fresh block.id block.kind block.extent with fields := block.fields } := by
  have slots := fresh_shaped block.id block.kind block.extent
  refine eq_of_held (strip_shaped shaped _ _) ⟨shaped.fields, slots.inputs, slots.bodies⟩ rfl rfl
    (by simp [strip]; rfl) rfl rfl (by simp [strip]) fun place => ?_
  have bare := fresh_held block.id block.kind block.extent place
  rw [strip_held]
  refine Eq.trans ?_ (bare.symm.trans (by cases place <;> rfl))
  cases block.held place <;> rfl

theorem strip_all {linked placed : List BlockId} {block : Block} (shaped : block.Shaped)
    (laid : block.id ∈ placed) (attached : block.parent ≠ none → block.id ∈ linked)
    (children : ∀ place child, block.held place = some child → child ∈ linked) :
    block.strip linked placed = block := by
  refine eq_of_held (strip_shaped shaped _ _) shaped rfl rfl (by simp [strip, laid]) rfl rfl ?_
    fun place => ?_
  · cases parent : block.parent with
    | none => simp [strip, parent]
    | some link => simp [strip, parent, attached (by simp [parent])]
  · rw [strip_held]
    cases holds : block.held place with
    | none => rfl
    | some child => simp [children place child holds]

end Block

theorem Graph.block?_reshape_bare {g : Graph} {id : BlockId} {block : Block}
    (found : g.block? id = some block) (bare : ∀ place, block.held place = none) (extent : Extent)
    (x : BlockId) : (g.reshape id extent).block? x
      = if x = id then some (block.reshape extent) else g.block? x := by
  have stay : ∀ child, child ∉ block.displaced extent := by
    intro child member
    obtain ⟨place, holds, _⟩ := Block.mem_displaced.mp member
    rw [bare] at holds
    cases holds
  rw [block?_reshape found]
  by_cases here : x = id
  · simp [here, found, stay]
  · cases g.block? x <;> simp [here, stay]

namespace Snapshot

open Blockwork.Graph

theorem editAll_append {first second : List Edit} {w mid : Workspace}
    (made : editAll w first = .ok mid) : editAll w (first ++ second) = editAll mid second := by
  induction first generalizing w with
  | nil =>
    cases made
    rfl
  | cons e rest ih =>
    obtain ⟨next, step, later⟩ := bind_eq_ok.mp made
    rw [List.cons_append, editAll, step]
    exact ih later

variable {g : Graph}

-- A workspace on the way to the graph: its tables are there, and its blocks are as
-- told.
structure Holds (g : Graph) (w : Workspace) (blocks : BlockId → Option Block) : Prop where
  wf : w.graph.WellFormed
  vars : w.graph.vars = g.vars
  procedures : w.graph.procedures = g.procedures
  blocks : ∀ x, w.graph.block? x = blocks x

theorem Holds.edit {w : Workspace} {blocks after : BlockId → Option Block} (holds : Holds g w blocks)
    {e : Edit} {change : Change EditError Graph Unit} {g' : Graph}
    (does : Change.perform e = .keepSerial change) (made : w.graph.after change = .ok g') (vars : g'.vars = w.graph.vars)
    (procedures : g'.procedures = w.graph.procedures) (result : ∀ x, g'.block? x = after x) :
    ∃ w', editAll w [e] = .ok w' ∧ Holds g w' after := by
  have applied : w.apply e = .ok (⟨g', w.serial⟩, .done) := by
    rw [Workspace.apply, does]
    exact Workspace.keepSerial_made made
  refine ⟨⟨g', w.serial⟩, ?_, Workspace.apply_wellFormed holds.wf applied, vars.trans holds.vars,
    procedures.trans holds.procedures, result⟩
  rw [editAll, edit_eq_ok.mpr ⟨_, applied⟩]
  rfl

def settle (blocks : BlockId → Option Block) (id : BlockId) (block : Block) : BlockId → Option Block :=
  fun x => if x = id then some block else blocks x

theorem settle_same (blocks : BlockId → Option Block) (id : BlockId) (block : Block) :
    settle blocks id block id = some block := if_pos rfl

theorem settle_other (blocks : BlockId → Option Block) {id x : BlockId} (block : Block) (other : x ≠ id) :
    settle blocks id block x = blocks x := if_neg other

theorem settle_settle (blocks : BlockId → Option Block) (id : BlockId) (first second : Block) :
    settle (settle blocks id first) id second = settle blocks id second := by
  funext x
  unfold settle
  split <;> rfl

-- A stage is passed by one block after another, in any order.
theorem phase {edits : Planned → List Edit} {before : Block → Option Block} {after : Block → Block}
    (step : ∀ w blocks block planned, Plans block planned → g.block? block.id = some block →
      Holds g w blocks → blocks block.id = before block →
      ∃ w', editAll w (edits planned) = .ok w' ∧ Holds g w' (settle blocks block.id (after block)))
    {order : List Block} {planned : List Planned} (plans : List.Forall₂ Plans order planned)
    (distinct : (order.map (·.id)).Nodup) (known : ∀ b ∈ order, g.block? b.id = some b)
    {w : Workspace} {blocks : BlockId → Option Block} (holds : Holds g w blocks)
    (ready : ∀ b ∈ order, blocks b.id = before b) :
    ∃ w' blocks', editAll w (planned.flatMap edits) = .ok w' ∧ Holds g w' blocks' ∧
      (∀ b ∈ order, blocks' b.id = some (after b)) ∧
      ∀ x, x ∉ order.map (·.id) → blocks' x = blocks x := by
  induction plans generalizing w blocks with
  | nil => exact ⟨w, blocks, rfl, holds, by simp, fun x _ => rfl⟩
  | @cons block p rest ps one _ ih =>
    obtain ⟨new, tail⟩ := List.nodup_cons.mp distinct
    rw [List.forall_mem_cons] at known ready
    obtain ⟨mid, first, settled⟩ := step w blocks block p one known.1 holds ready.1
    have others : ∀ b ∈ rest, b.id ≠ block.id := fun b member same =>
      new (List.mem_map.mpr ⟨b, member, same⟩)
    obtain ⟨w', blocks', later, held, reached, kept⟩ := ih tail known.2 settled fun b member => by
      rw [settle_other _ _ (others b member)]
      exact ready.2 b member
    refine ⟨w', blocks', ?_, held, ?_, ?_⟩
    · rw [List.flatMap_cons, editAll_append first]
      exact later
    · refine List.forall_mem_cons.mpr ⟨?_, reached⟩
      rw [kept _ new, settle_same]
    · intro x outside
      rw [List.map_cons, List.mem_cons, not_or] at outside
      rw [kept x outside.2, settle_other _ _ outside.1]

theorem Holds.settled {w : Workspace} {blocks : BlockId → Option Block} (holds : Holds g w blocks)
    {id : BlockId} {block : Block} (there : blocks id = some block) :
    Holds g w (settle blocks id block) := by
  refine ⟨holds.wf, holds.vars, holds.procedures, fun x => ?_⟩
  rw [holds.blocks, settle]
  split
  · next here => rw [here, there]
  · rfl

-- A block that has been added. Definitions come with their procedures, and so complete.
def added (block : Block) : Block :=
  if block.kind.isDefinition then block.strip [] []
  else .fresh block.id block.kind block.kind.defaultExtent

-- A block that has grown. A call grows when its procedure is set.
def grown (block : Block) : Block :=
  if block.kind.isDefinition then block.strip [] []
  else .fresh block.id block.kind (if block.kind.isCall then {} else block.extent)

theorem add_step {w : Workspace} {blocks : BlockId → Option Block} {block : Block} {planned : Planned}
    (plans : Plans block planned) (holds : Holds g w blocks)
    (ready : blocks block.id = if block.kind.isDefinition then some (block.strip [] []) else none) :
    ∃ w', editAll w planned.addEdits = .ok w' ∧ Holds g w' (settle blocks block.id (added block)) := by
  unfold Planned.addEdits added
  rw [plans.kind, plans.id]
  cases defines : block.kind.isDefinition with
  | true =>
    rw [defines, if_pos rfl] at ready
    exact ⟨w, rfl, holds.settled ready⟩
  | false =>
    rw [defines, if_neg Bool.false_ne_true] at ready
    have absent : w.graph.block? block.id = none := (holds.blocks _).trans ready
    refine holds.edit rfl (addBlock_eq_ok.mpr ⟨defines, absent, rfl⟩) rfl rfl fun x => ?_
    rw [block?_addRoot, holds.blocks]
    rfl

theorem resize_step {w : Workspace} {blocks : BlockId → Option Block} {id : BlockId} {kind : Kind}
    {before after : Extent} (holds : Holds g w blocks) (ready : blocks id = some (.fresh id kind before))
    (e : Edit) {change : Change EditError Graph Unit} (does : Change.perform e = .keepSerial change)
    (made : w.graph.after change = .ok (w.graph.reshape id after)) :
    ∃ w', editAll w [e] = .ok w' ∧ Holds g w' (settle blocks id (.fresh id kind after)) := by
  have found : w.graph.block? id = some (.fresh id kind before) := (holds.blocks _).trans ready
  obtain ⟨vars, procedures⟩ := reshape_tables w.graph id after
  refine holds.edit does made vars procedures fun x => ?_
  rw [block?_reshape_bare found (Block.fresh_held _ _ _), Block.fresh_reshape, holds.blocks]
  rfl

-- Branches are counted first and get their last part after that.
theorem branch_step {w : Workspace} {blocks : BlockId → Option Block} {id : BlockId} {kind : Kind}
    {extent : Extent} (grows : kind.variadic = some .branches) (bounded : extent.items ≤ maxItems)
    (holds : Holds g w blocks) (ready : blocks id = some (.fresh id kind {})) :
    ∃ w', editAll w [.setItemCount id extent.items, .setHasElse id extent.hasElse] = .ok w' ∧
      Holds g w' (settle blocks id (.fresh id kind extent)) := by
  have found : w.graph.block? id = some (.fresh id kind {}) := (holds.blocks _).trans ready
  have made : w.graph.after (.setItemCount id extent.items)
      = .ok (w.graph.reshape id { items := extent.items }) :=
    setItemCount_eq_ok.mpr ⟨_, found, .inr grows, bounded, rfl⟩
  obtain ⟨mid, first, settled⟩ := resize_step holds ready (.setItemCount _ _) rfl made
  have again : mid.graph.block? id = some _ := (settled.blocks _).trans (settle_same _ _ _)
  have made' : mid.graph.after (.setHasElse id extent.hasElse) = .ok (mid.graph.reshape id extent) :=
    setHasElse_eq_ok.mpr ⟨_, again, grows, rfl⟩
  obtain ⟨w', second, reached⟩ := resize_step settled (settle_same _ _ _) (.setHasElse _ _) rfl made'
  rw [settle_settle] at reached
  exact ⟨w', (editAll_append first).trans second, reached⟩

theorem grow_step (wf : g.WellFormed) {w : Workspace} {blocks : BlockId → Option Block} {block : Block}
    {planned : Planned} (plans : Plans block planned) (known : g.block? block.id = some block)
    (holds : Holds g w blocks) (ready : blocks block.id = some (added block)) :
    ∃ w', editAll w planned.extentEdits = .ok w' ∧
      Holds g w' (settle blocks block.id (grown block)) := by
  have allowed := (wf.built _ block known).2.allowed
  unfold Planned.extentEdits
  rw [plans.kind, plans.id, plans.extent]
  unfold added at ready
  unfold grown
  cases defines : block.kind.isDefinition with
  | true =>
    rw [defines, if_pos rfl] at ready
    have fixed : block.kind.variadic = none := by
      cases kind : block.kind <;> first | rfl | (rw [kind] at defines; cases defines)
    rw [fixed]
    exact ⟨w, rfl, holds.settled ready⟩
  | false =>
    rw [defines, if_neg Bool.false_ne_true] at ready
    rw [if_neg Bool.false_ne_true]
    have found : w.graph.block? block.id = some (.fresh block.id block.kind block.kind.defaultExtent) :=
      (holds.blocks _).trans ready
    have unchanged : (if block.kind.isCall then {} else block.extent) = block.kind.defaultExtent →
        Holds g w (settle blocks block.id
          (.fresh block.id block.kind (if block.kind.isCall then {} else block.extent))) := by
      intro same
      rw [same]
      exact holds.settled ready
    have bare : block.kind.variadic ≠ some .items → block.kind.defaultExtent = {} := by
      cases block.kind <;> simp [Kind.variadic, Kind.defaultExtent]
    cases grows : block.kind.variadic with
    | none =>
      refine ⟨w, rfl, unchanged ?_⟩
      rw [bare (by rw [grows]; simp), allowed.extent_eq (by rw [grows]; simp), allowed.fixed grows]
      split <;> rfl
    | some sort =>
      have free : sort ≠ .arguments → block.kind.isCall = false := fun other =>
        (Kind.plain_of_variadic grows other).2
      cases sort with
      | items =>
        have whole : ({ block.kind.defaultExtent with items := block.extent.items } : Extent)
            = block.extent := by
          rw [(Kind.defaultExtent_allowed block.kind).extent_eq (by rw [grows]; simp)]
          exact (allowed.extent_eq (by rw [grows]; simp)).symm
        have made := setItemCount_eq_ok.mpr ⟨_, found, .inl grows, allowed.bounded, rfl⟩
        rw [Block.fresh_extent, whole] at made
        rw [free (by simp)]
        exact resize_step holds ready (.setItemCount _ _) rfl made
      | arguments =>
        refine ⟨w, rfl, unchanged ?_⟩
        rw [bare (by rw [grows]; simp), Kind.variadic_arguments.mp grows]
        rfl
      | branches =>
        rw [bare (by rw [grows]; simp)] at ready
        rw [free (by simp)]
        exact branch_step grows allowed.bounded holds ready

theorem write_step {w : Workspace} {blocks : BlockId → Option Block} {id : BlockId} {current : Block}
    {name : String} {shape : FieldShape} {value : FieldValue} (holds : Holds g w blocks)
    (ready : blocks id = some current)
    (sort : current.kind.slot? current.extent name = some (.field shape))
    (admitted : w.graph.Admits current shape value) (plain : w.graph.arity? shape value = none) :
    ∃ w', editAll w [.setField id name value] = .ok w' ∧
      Holds g w' (settle blocks id { current with fields := current.fields.insert name value }) := by
  have found : w.graph.block? id = some current := (holds.blocks _).trans ready
  have made := setField_eq_ok.mpr ⟨current, shape, found, sort, admitted, rfl⟩
  obtain ⟨vars, procedures⟩ := written_tables w.graph id name shape value
  refine holds.edit rfl made vars procedures fun x => ?_
  rw [written, plain, block?_update, holds.blocks, settle]
  split
  · next here =>
    rw [here, ready]
    rfl
  · rfl

theorem writeAll {w : Workspace} {blocks : BlockId → Option Block} {id : BlockId} {current : Block}
    {fields : List (String × FieldValue)} (holds : Holds g w blocks) (ready : blocks id = some current)
    (admitted : ∀ e ∈ fields, ∃ shape, current.kind.slot? current.extent e.1 = some (.field shape) ∧
      w.graph.Admits current shape e.2 ∧ w.graph.arity? shape e.2 = none) :
    ∃ w', editAll w (fields.map fun e => .setField id e.1 e.2) = .ok w' ∧
      Holds g w' (settle blocks id
        { current with fields := fields.foldl (fun d e => d.insert e.1 e.2) current.fields }) := by
  induction fields generalizing w blocks current with
  | nil => exact ⟨w, rfl, holds.settled ready⟩
  | cons e rest ih =>
    rw [List.forall_mem_cons] at admitted
    obtain ⟨⟨shape, sort, fine, plain⟩, others⟩ := admitted
    obtain ⟨mid, first, settled⟩ := write_step holds ready sort fine plain
    -- Admission looks at tables and kinds, which writing leaves alone.
    have tables : mid.graph.vars = w.graph.vars ∧ mid.graph.procedures = w.graph.procedures :=
      ⟨settled.vars.trans holds.vars.symm, settled.procedures.trans holds.procedures.symm⟩
    have later : ∀ e' ∈ rest, ∃ shape, current.kind.slot? current.extent e'.1 = some (.field shape) ∧
        mid.graph.Admits { current with fields := current.fields.insert e.1 e.2 } shape e'.2 ∧
        mid.graph.arity? shape e'.2 = none := by
      intro e' member
      obtain ⟨shape', sort', fine', plain'⟩ := others e' member
      refine ⟨shape', sort', ?_, ?_⟩
      · unfold Admits variableWith? procedureWith? at fine' ⊢
        rw [tables.1, tables.2]
        exact fine'
      · unfold arity? procedureWith? at plain' ⊢
        rw [tables.2]
        exact plain'
    obtain ⟨w', second, reached⟩ := ih settled (settle_same _ _ _) later
    refine ⟨w', (editAll_append first).trans second, ?_⟩
    rw [settle_settle] at reached
    exact reached

-- Defaults and saved values together are all values.
theorem refilled {block : Block} (proper : block.Proper) (free : block.kind.isDefinition = false) :
    (setFields block).foldl (fun d e => d.insert e.1 e.2)
      (Block.fresh block.id block.kind block.extent).fields = block.fields := by
  have distinct : ((setFields block).map (·.1)).Nodup := by
    rw [setFields, free, if_neg Bool.false_ne_true]
    exact block.fields.keys_nodup.sublist (List.filter_sublist.map _)
  refine Dict.ext_get? fun name => ?_
  rw [Dict.get?_foldl_insert _ _ _ distinct, Block.fresh_fields]
  cases held : block.fields.get? name with
  | some value =>
    obtain ⟨shape, sort⟩ := (proper.shaped.fields name).mp (by rw [held]; rfl)
    have fits := proper.fitting name value shape held sort
    rw [lookup_setFields free held, sort]
    split
    · next empty =>
      subst empty
      cases shape <;> first | rfl | exact fits.elim
    · rfl
  | none =>
    have absent : (setFields block).lookup name = none := by
      rw [setFields, free, if_neg Bool.false_ne_true, List.lookup_eq_none_iff]
      rintro ⟨other, value⟩ member
      have different : name ≠ other := by
        rintro rfl
        have present := Dict.mem_entries.mp (List.mem_of_mem_filter member)
        rw [held] at present
        cases present
      simp [different]
    rw [absent, Option.none_or]
    split
    · next shape sort =>
      have present := (proper.shaped.fields name).mpr ⟨shape, sort⟩
      rw [held] at present
      cases present
    · rfl

theorem bound_entries {block : Block} (proper : block.Proper)
    (binds : block.kind.isDefinition = true ∨ block.kind.isCall = true) {value : FieldValue}
    (holds : block.fields.get? "NAME" = some value) : block.fields = Dict.empty.insert "NAME" value := by
  refine Dict.ext_get? fun name => ?_
  rw [Dict.get?_insert, Dict.get?_empty]
  split
  · next here => rw [here, holds]
  · next other =>
    rw [← Option.not_isSome_iff_eq_none, proper.bound_field binds]
    exact other

-- A new block that refers to a procedure has all its fields.
theorem rebound {block : Block} (proper : block.Proper)
    (binds : block.kind.isDefinition = true ∨ block.kind.isCall = true) {value : FieldValue}
    (holds : block.fields.get? "NAME" = some value) (extent : Extent) :
    (Block.fresh block.id block.kind extent).fields.insert "NAME" value = block.fields := by
  rw [bound_entries proper binds holds]
  refine Dict.ext_get? fun name => ?_
  rw [Dict.get?_insert, Dict.get?_insert, Dict.get?_empty]
  split
  · rfl
  · next other =>
    rw [Block.fresh_fields]
    split
    · next shape sort => exact absurd ((Kind.bound_slot binds).mp sort).1 other
    · rfl

def boundCall (block : Block) (p : ProcedureId) : Block :=
  { Block.fresh block.id block.kind {} with
    fields := (Block.fresh block.id block.kind {}).fields.insert "NAME" (.procedureRef p) }

theorem boundCall_held (block : Block) (p : ProcedureId) (place : Place) :
    (boundCall block p).held place = none := by
  refine Eq.trans ?_ (Block.fresh_held block.id block.kind {} place)
  cases place <;> rfl

theorem boundCall_reshape {block : Block} (proper : block.Proper) (calls : block.kind.isCall = true)
    {p : ProcedureId} (named : block.fields.get? "NAME" = some (.procedureRef p)) :
    (boundCall block p).reshape block.extent = block.strip [] [] := by
  have sort : block.kind.slot? {} "NAME" = some (.field .procedureRef) :=
    (Kind.bound_slot (.inr calls)).mpr ⟨rfl, rfl⟩
  have fits : (FieldValue.procedureRef p).Fits .procedureRef := trivial
  have fresh := Block.fresh_proper block.id (Kind.call_allows calls (Nat.zero_le maxItems))
  have shaped : (boundCall block p).Shaped := (Block.setField_proper fresh sort fits).shaped
  have fields : (boundCall block p).fields = block.fields := rebound proper (.inr calls) named {}
  have filled := (Block.reshape_fields_eq shaped block.extent).trans fields
  calc (boundCall block p).reshape block.extent
      = { (Block.fresh block.id block.kind {}).reshape block.extent with
          fields := ((boundCall block p).reshape block.extent).fields } := rfl
    _ = { Block.fresh block.id block.kind block.extent with fields := block.fields } := by
        rw [Block.fresh_reshape, filled]
    _ = block.strip [] [] := (Block.strip_none proper.shaped).symm

theorem call_step {w : Workspace} {blocks : BlockId → Option Block} {block : Block}
    (proper : block.Proper) (holds : Holds g w blocks) (calls : block.kind.isCall = true)
    (ready : blocks block.id = some (.fresh block.id block.kind {}))
    {procedure : Procedure} (listed : w.graph.procedureWith? procedure.id = some procedure)
    (named : block.fields.get? "NAME" = some (.procedureRef procedure.id))
    (kind : block.kind = .call procedure.returns)
    (items : block.extent.items = procedure.params.length) :
    ∃ w', editAll w [.setField block.id "NAME" (.procedureRef procedure.id)] = .ok w' ∧
      Holds g w' (settle blocks block.id (block.strip [] [])) := by
  have found : w.graph.block? block.id = some (.fresh block.id block.kind {}) :=
    (holds.blocks _).trans ready
  have sort : block.kind.slot? {} "NAME" = some (.field .procedureRef) :=
    (Kind.bound_slot (.inr calls)).mpr ⟨rfl, rfl⟩
  have admitted : w.graph.Admits (.fresh block.id block.kind {}) .procedureRef
      (.procedureRef procedure.id) := ⟨by rw [Block.fresh_kind, kind]; rfl, procedure, listed, kind⟩
  have made := setField_eq_ok.mpr ⟨_, _, found, sort, admitted, rfl⟩
  obtain ⟨vars, procedures⟩ := written_tables w.graph block.id "NAME" .procedureRef
    (.procedureRef procedure.id)
  refine holds.edit rfl made vars procedures fun x => ?_
  have follows : w.graph.arity? .procedureRef (.procedureRef procedure.id)
      = some procedure.params.length := by simp [arity?, listed]
  have whole : ({ items := procedure.params.length } : Extent) = block.extent := by
    rw [← items]
    exact (proper.allowed.extent_eq (by rw [kind]; simp [Kind.variadic])).symm
  have wrote : (w.graph.update block.id fun b =>
      { b with fields := b.fields.insert "NAME" (.procedureRef procedure.id) }).block? block.id
        = some (boundCall block procedure.id) := by
    rw [block?_update, if_pos rfl, found]
    rfl
  rw [written, follows]
  dsimp only
  rw [whole, block?_reshape_bare wrote (boundCall_held _ _), boundCall_reshape proper calls named,
    block?_update, holds.blocks, settle]
  split <;> rfl

-- Blocks that are neither definitions nor bound calls take their fields one by one.
theorem plain_step (wf : g.WellFormed) {w : Workspace} {blocks : BlockId → Option Block} {block : Block}
    (known : g.block? block.id = some block) (holds : Holds g w blocks)
    (ready : blocks block.id = some (.fresh block.id block.kind block.extent))
    (defines : block.kind.isDefinition = false)
    (unbound : block.kind.isCall = true → block.fields.get? "NAME" = some .empty) :
    ∃ w', editAll w ((setFields block).map fun e => .setField block.id e.1 e.2) = .ok w' ∧
      Holds g w' (settle blocks block.id (block.strip [] [])) := by
  have proper := (wf.built _ block known).2
  have sound := wf.bound.blocks _ _ (contents_of_block known)
  have admitted : ∀ e ∈ setFields block, ∃ shape,
      block.kind.slot? block.extent e.1 = some (.field shape) ∧
      w.graph.Admits (.fresh block.id block.kind block.extent) shape e.2 ∧
      w.graph.arity? shape e.2 = none := by
    rw [setFields, defines, if_neg Bool.false_ne_true]
    rintro ⟨name, value⟩ member
    obtain ⟨listed, filled⟩ := List.mem_filter.mp member
    have held := Dict.mem_entries.mp listed
    obtain ⟨shape, sort, fits⟩ := fields_fitting wf known _ listed
    refine ⟨shape, sort, ?_⟩
    cases shape with
    | procedureRef =>
      rcases Kind.procedureRef_slot sort with other | calls
      · exact absurd (other.symm.trans defines) (by simp)
      · obtain ⟨rfl, _⟩ := (Kind.bound_slot (.inr calls)).mp sort
        cases held.symm.trans (unbound calls)
        simp at filled
    | variableRef =>
      cases value with
      | variableRef v =>
        refine ⟨variableWith?_isSome.mpr ?_, rfl⟩
        rw [holds.vars]
        exact sound.reads name v held
      | empty => simp at filled
      | _ => exact fits.elim
    | _ => cases value <;> first | exact fits.elim | exact ⟨fits, rfl⟩
  obtain ⟨w', made, reached⟩ := writeAll holds ready admitted
  refine ⟨w', made, ?_⟩
  rw [refilled proper defines, ← Block.strip_none proper.shaped] at reached
  exact reached

theorem fill_step (wf : g.WellFormed) {w : Workspace} {blocks : BlockId → Option Block} {block : Block}
    {planned : Planned} (plans : Plans block planned) (known : g.block? block.id = some block)
    (holds : Holds g w blocks) (ready : blocks block.id = some (grown block)) :
    ∃ w', editAll w planned.fieldEdits = .ok w' ∧
      Holds g w' (settle blocks block.id (block.strip [] [])) := by
  have proper := (wf.built _ block known).2
  unfold Planned.fieldEdits
  rw [plans.id, plans.fields]
  unfold grown at ready
  cases defines : block.kind.isDefinition with
  | true =>
    rw [defines, if_pos rfl] at ready
    rw [setFields, defines]
    exact ⟨w, rfl, holds.settled ready⟩
  | false =>
    rw [defines, if_neg Bool.false_ne_true] at ready
    cases calls : block.kind.isCall with
    | false =>
      rw [calls, if_neg Bool.false_ne_true] at ready
      exact plain_step wf known holds ready defines fun other => absurd (calls.symm.trans other) (by simp)
    | true =>
      rw [calls, if_pos rfl] at ready
      rcases wf.call_binds known calls with ⟨p, member, named, call, extent⟩ | ⟨unbound, extent⟩
      · have listed : w.graph.procedureWith? p.id = some p :=
          holds.wf.procedureWith?_listed (holds.procedures ▸ member)
        have single : setFields block = [("NAME", .procedureRef p.id)] := by
          rw [setFields, defines, if_neg Bool.false_ne_true, bound_entries proper (.inr calls) named]
          rfl
        rw [single]
        exact call_step proper holds calls ready listed named call (by rw [extent])
      · rw [← extent] at ready
        exact plain_step wf known holds ready defines fun _ => unbound

end Snapshot

end Blockwork
