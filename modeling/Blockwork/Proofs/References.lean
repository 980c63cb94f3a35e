import Mathlib
import Blockwork.Proofs.Names
import Blockwork.Proofs.Pruning

-- What fields refer to. References are seen by contents and tables alone, so
-- edits that only move blocks keep the rules below without a proof of their own.
namespace Blockwork

-- A block refers to what exists: a definition to its procedure, a call to one that it
-- fits.
structure Content.Sound (vars : List Variable) (procedures : List Procedure) (id : BlockId)
    (c : Content) : Prop where
  reads : ∀ name v, c.fields.get? name = some (.variableRef v) → ∃ x ∈ vars, x.id = v
  serves : ∀ name p, c.fields.get? name = some (.procedureRef p) → ∃ procedure ∈ procedures,
    procedure.id = p ∧ ((c.kind = .definition procedure.returns ∧ procedure.definition = id) ∨
      (c.kind = .call procedure.returns ∧ c.extent.items = procedure.params.length))
  unbound : c.kind.isCall = true → c.fields.get? "NAME" = some .empty → c.extent.items = 0
  bound : c.kind.isDefinition = true → ∃ p, c.fields.get? "NAME" = some (.procedureRef p)

structure Procedure.Sound (vars : List Variable) (contents : BlockId → Option Content)
    (p : Procedure) : Prop where
  defined : ∃ c, contents p.definition = some c ∧ c.kind = .definition p.returns ∧
    c.fields.get? "NAME" = some (.procedureRef p.id)
  short : p.params.length ≤ maxItems
  distinct : p.params.Nodup
  known : ∀ v ∈ p.params, ∃ x ∈ vars, x.id = v

-- Only definitions and calls name procedures, in a field of one name that is their only one.
theorem Kind.procedureRef_slot {kind : Kind} {extent : Extent} {name : String}
    (sort : kind.slot? extent name = some (.field .procedureRef)) :
    kind.isDefinition = true ∨ kind.isCall = true := by
  have listed := Kind.slot?_field.mp sort
  cases kind with
  | definition returns => exact .inl rfl
  | call returns => exact .inr rfl
  | _ => simp [fixedSlots, Slot.dropdown, Slot.variableRef, Slot.anyInput, Slot.input, Slot.body] at listed

theorem Kind.bound_slot {kind : Kind} {extent : Extent} {name : String} {shape : FieldShape}
    (binds : kind.isDefinition = true ∨ kind.isCall = true) :
    kind.slot? extent name = some (.field shape) ↔ name = "NAME" ∧ shape = .procedureRef := by
  rw [Kind.slot?_field]
  cases kind with
  | definition returns =>
    cases returns <;> simp [fixedSlots, Slot.procedureRef, Slot.body, Slot.anyInput]
  | call returns => simp [fixedSlots, Slot.procedureRef]
  | _ => simp [isDefinition, isCall] at binds

theorem Block.Proper.bound_field {block : Block} (proper : block.Proper)
    (binds : block.kind.isDefinition = true ∨ block.kind.isCall = true) {name : String} :
    (block.fields.get? name).isSome ↔ name = "NAME" := by
  rw [proper.shaped.fields name]
  simp only [Kind.bound_slot binds, exists_eq_right]

theorem Block.Proper.only_field {block : Block} (proper : block.Proper)
    (binds : block.kind.isDefinition = true ∨ block.kind.isCall = true) {value : FieldValue}
    (name : String) (held : FieldValue)
    (present : (block.fields.insert "NAME" value).get? name = some held) : held = value := by
  rw [Dict.get?_insert] at present
  split at present
  · exact (Option.some.inj present).symm
  · next other =>
    exact absurd ((proper.bound_field binds).mp (by rw [present]; rfl)) other

-- A new block refers to nothing.
theorem FieldValue.initial_plain (shape : FieldShape) :
    (∀ v, initial shape ≠ .variableRef v) ∧ ∀ p, initial shape ≠ .procedureRef p := by
  constructor
  · intro v same
    unfold initial at same
    split at same <;> cases same
  · intro p same
    unfold initial at same
    split at same <;> cases same

theorem Block.fresh_sound (vars : List Variable) (procedures : List Procedure) (id : BlockId)
    {kind : Kind} (free : kind.isDefinition = false) :
    (fresh id kind kind.defaultExtent).content.Sound vars procedures id := by
  have plain : ∀ name value, (fresh id kind kind.defaultExtent).fields.get? name = some value →
      ∃ shape, value = .initial shape := by
    intro name value found
    rw [fresh_fields] at found
    split at found
    · next shape _ => exact ⟨shape, (Option.some.inj found).symm⟩
    · cases found
  refine ⟨?_, ?_, ?_, ?_⟩
  · intro name v found
    obtain ⟨shape, same⟩ := plain name _ found
    exact absurd same.symm ((FieldValue.initial_plain shape).1 v)
  · intro name p found
    obtain ⟨shape, same⟩ := plain name _ found
    exact absurd same.symm ((FieldValue.initial_plain shape).2 p)
  · intro calls _
    cases kind <;> first | rfl | cases calls
  · intro defines
    exact absurd (defines.symm.trans free) (by simp)

theorem Block.procedureIn?_eq_some {block : Block} {name : String} {p : ProcedureId} :
    block.procedureIn? name = some p ↔ block.fields.get? name = some (.procedureRef p) := by
  unfold Block.procedureIn?
  split <;> simp_all

namespace Graph

variable {g g' : Graph}

structure Bound (g : Graph) : Prop where
  blocks : ∀ id c, g.contents id = some c → c.Sound g.vars g.procedures id
  procedures : ∀ p ∈ g.procedures, p.Sound g.vars g.contents

theorem variableWith?_isSome {v : VariableId} :
    (g.variableWith? v).isSome ↔ ∃ x ∈ g.vars, x.id = v := by
  unfold variableWith?
  rw [List.find?_isSome]
  simp only [beq_iff_eq]

theorem procedureWith?_mem {p : ProcedureId} {procedure : Procedure}
    (found : g.procedureWith? p = some procedure) : procedure ∈ g.procedures ∧ procedure.id = p := by
  unfold procedureWith? at found
  exact ⟨List.mem_of_find?_eq_some found, by simpa using List.find?_some found⟩

theorem procedureWith?_eq_some (distinct : (g.procedures.map (·.id)).Nodup) {p : ProcedureId}
    {procedure : Procedure} :
    g.procedureWith? p = some procedure ↔ procedure ∈ g.procedures ∧ procedure.id = p := by
  refine ⟨procedureWith?_mem, ?_⟩
  rintro ⟨member, rfl⟩
  cases found : g.procedureWith? procedure.id with
  | none =>
    unfold procedureWith? at found
    have missed := List.find?_eq_none.mp found procedure member
    simp at missed
  | some other =>
    obtain ⟨member', same⟩ := procedureWith?_mem found
    exact congrArg some (List.inj_on_of_nodup_map distinct member' member same)

theorem Bound.congr (bound : g.Bound) (contents : g'.contents = g.contents) (vars : g'.vars = g.vars)
    (procedures : g'.procedures = g.procedures) : g'.Bound := by
  obtain ⟨blocks, procs⟩ := bound
  exact ⟨by rw [contents, vars, procedures]; exact blocks, by rw [contents, vars, procedures]; exact procs⟩

theorem Built.named_field (built : g.Built) {x : BlockId} {c : Content} (known : g.contents x = some c)
    (binds : c.kind.isDefinition = true ∨ c.kind.isCall = true) {name : String} {value : FieldValue}
    (holds : c.fields.get? name = some value) : name = "NAME" := by
  obtain ⟨b, found, rfl⟩ := block_of_contents known
  refine ((built x b found).2.bound_field binds).mp ?_
  rw [show b.fields.get? name = _ from holds]
  rfl

theorem addRoot_contents (g : Graph) (block : Block) (x : BlockId) :
    (g.addRoot block).contents x = if x = block.id then some block.content else g.contents x := by
  unfold contents
  rw [block?_addRoot]
  split <;> rfl

theorem contents_none {id : BlockId} (absent : g.block? id = none) : g.contents id = none := by
  rw [contents, absent]
  rfl

theorem Bound.addBlock (bound : g.Bound) {id : BlockId} {kind : Kind} (new : g.block? id = none)
    (free : kind.isDefinition = false) :
    (g.addRoot (.fresh id kind kind.defaultExtent)).Bound := by
  refine ⟨fun x c found => ?_, fun p member => ?_⟩
  · rw [addRoot_contents] at found
    split at found
    · next here =>
      cases found
      subst here
      exact Block.fresh_sound _ _ _ free
    · exact bound.blocks x c found
  · obtain ⟨⟨c, found, rest⟩, short, distinct, known⟩ := bound.procedures p member
    refine ⟨⟨c, ?_, rest⟩, short, distinct, known⟩
    have other : p.definition ≠ id := by
      rintro same
      rw [same, contents_none new] at found
      cases found
    rw [addRoot_contents, Block.fresh_id, if_neg other]
    exact found

-- Another extent matters to calls only.
theorem Bound.reshape (bound : g.Bound) (built : g.Built) {id : BlockId} {block : Block}
    (found : g.block? id = some block) (extent : Extent)
    (free : block.kind.isDefinition = false ∧ block.kind.isCall = false) :
    (g.reshape id extent).Bound := by
  obtain ⟨vars, procedures⟩ := reshape_tables g id extent
  refine ⟨fun x c known => ?_, fun p member => ?_⟩
  · rw [reshape_contents built found] at known
    rw [vars, procedures]
    obtain ⟨old, before, rfl⟩ := Option.map_eq_some_iff.mp known
    have sound := bound.blocks x old before
    by_cases here : x = id
    · subst here
      cases (contents_of_block found).symm.trans before
      refine ⟨sound.reads, fun name p named => ?_, fun calls => ?_, sound.bound⟩
      · obtain ⟨procedure, _, _, ⟨kind, _⟩ | ⟨kind, _⟩⟩ := sound.serves name p named
        · rw [show block.kind = _ from kind] at free
          cases free.1
        · rw [show block.kind = _ from kind] at free
          cases free.2
      · exact absurd (calls.symm.trans free.2) (by simp)
    · simpa only [here, if_false] using sound
  · rw [procedures] at member
    obtain ⟨⟨c, known, kind, named⟩, short, distinct, exist⟩ := bound.procedures p member
    rw [vars]
    refine ⟨⟨{ c with extent := if p.definition = id then extent else c.extent }, ?_, kind, named⟩,
      short, distinct, exist⟩
    rw [reshape_contents built found, known]
    rfl

theorem block_of_definition (bound : g.Bound) {p : Procedure} (member : p ∈ g.procedures) :
    ∃ block, g.block? p.definition = some block ∧ block.kind = .definition p.returns ∧
      block.fields.get? "NAME" = some (.procedureRef p.id) := by
  obtain ⟨c, known, kind, named⟩ := (bound.procedures p member).defined
  obtain ⟨block, found, rfl⟩ := block_of_contents known
  exact ⟨block, found, kind, named⟩

theorem Bound.same_definition (bound : g.Bound) {p q : Procedure} (first : p ∈ g.procedures)
    (second : q ∈ g.procedures) (same : p.definition = q.definition) : p.id = q.id := by
  obtain ⟨block, found, _, named⟩ := block_of_definition bound first
  obtain ⟨block', found', _, named'⟩ := block_of_definition bound second
  rw [same, found'] at found
  cases found
  simpa using named.symm.trans named'

-- Definitions join nothing.
theorem Linked.definition_root (linked : g.Linked) {id : BlockId} {block : Block}
    (found : g.block? id = some block) (defines : block.kind.isDefinition = true) :
    block.parent = none := by
  cases attached : block.parent with
  | none => rfl
  | some link =>
    obtain ⟨t, parent, holds⟩ := linked.up id _ link (wiring_of_block found) attached
    obtain ⟨s, known, _, accepts⟩ := linked.down _ t link.place id parent holds
    cases (wiring_of_block found).symm.trans known
    have top : block.kind.connection = .topLevel := by
      cases kind : block.kind with
      | definition returns => rfl
      | _ => rw [kind] at defines; cases defines
    have joins : block.kind.connection = .expression ∨ block.kind.connection = .statement := by
      cases place : link.place with
      | input slot => rw [place] at accepts; exact .inl accepts.1
      | body slot => rw [place] at accepts; exact .inr accepts
      | next => rw [place] at accepts; exact .inr accepts.1
    rw [top] at joins
    rcases joins with same | same <;> cases same

theorem Linked.definition_below (linked : g.Linked) (built : g.Built) {id x : BlockId}
    {top block : Block} (found : g.block? id = some top) (known : g.block? x = some block)
    (defines : block.kind.isDefinition = true) : x ∈ (g.tree top).ids ↔ x = id := by
  rw [linked.mem_tree_wired built found (wiring_of_block known)]
  exact Wiring.above_root (wiring_of_block known) (linked.definition_root known defines)

theorem written_contents (built : g.Built) {id : BlockId} {block : Block} {slot : String}
    {shape : FieldShape} {value : FieldValue} (found : g.block? id = some block)
    (sort : block.kind.slot? block.extent slot = some (.field shape)) (fits : value.Fits shape)
    (x : BlockId) : (g.written id slot shape value).contents x = (g.contents x).map fun c =>
      if x = id then
        { c with
          extent := ((g.arity? shape value).map fun items => { items := items }).getD c.extent
          fields := c.fields.insert slot value }
      else c := by
  have wrote : (g.update id fun b => { b with fields := b.fields.insert slot value }).Built := by
    refine update_built built fun b known proper => ⟨rfl, ?_⟩
    cases found.symm.trans known
    exact Block.setField_proper proper sort fits
  have known : (g.update id fun b => { b with fields := b.fields.insert slot value }).block? id
      = some { block with fields := block.fields.insert slot value } := by
    rw [block?_update, if_pos rfl, found]
    rfl
  have before : ∀ x, (g.update id fun b => { b with fields := b.fields.insert slot value }).contents x
      = (g.contents x).map fun c =>
        if x = id then { c with fields := c.fields.insert slot value } else c := by
    intro x
    simp only [contents, block?_update]
    cases g.block? x <;> by_cases here : x = id <;> simp [here, Block.content]
  unfold written
  cases g.arity? shape value with
  | none => exact before x
  | some items =>
    simp only
    rw [reshape_contents wrote known, before]
    cases g.contents x <;> by_cases here : x = id <;> simp [here]

theorem Admits.fits {block : Block} {shape : FieldShape} {value : FieldValue}
    (admitted : g.Admits block shape value) : value.Fits shape := by
  cases shape <;> cases value <;> trivial

-- Setting a procedure makes a call follow it; other values leave the extent.
theorem Admits.cases {block : Block} {shape : FieldShape} {value : FieldValue}
    (admitted : g.Admits block shape value) :
    (shape ≠ .procedureRef ∧ (∀ p, value ≠ .procedureRef p) ∧ g.arity? shape value = none) ∨
    (shape = .procedureRef ∧ block.kind.isDefinition = false ∧ value = .empty ∧
      g.arity? shape value = some 0) ∨
    (shape = .procedureRef ∧ ∃ procedure ∈ g.procedures, value = .procedureRef procedure.id ∧
      block.kind = .call procedure.returns ∧
      g.arity? shape value = some procedure.params.length) := by
  cases shape with
  | procedureRef =>
    cases value with
    | procedureRef id =>
      obtain ⟨_, procedure, found, kind⟩ := admitted
      obtain ⟨member, same⟩ := procedureWith?_mem found
      exact .inr (.inr ⟨rfl, procedure, member, by rw [same], kind, by simp [arity?, found]⟩)
    | empty => exact .inr (.inl ⟨rfl, admitted, rfl, rfl⟩)
    | _ => exact admitted.elim
  | _ => cases value <;> first | exact admitted.elim | exact .inl ⟨by simp, by simp, rfl⟩

theorem Admits.not_definition {block : Block} {slot : String} {shape : FieldShape} {value : FieldValue}
    (admitted : g.Admits block shape value)
    (sort : block.kind.slot? block.extent slot = some (.field shape)) :
    block.kind.isDefinition = false := by
  cases defines : block.kind.isDefinition with
  | false => rfl
  | true =>
    obtain ⟨_, rfl⟩ := (Kind.bound_slot (.inl defines)).mp sort
    rcases admitted.cases with ⟨plain, _⟩ | ⟨_, free, _⟩ | ⟨_, procedure, _, _, call, _⟩
    · exact absurd rfl plain
    · exact defines.symm.trans free
    · rw [call] at defines
      cases defines

theorem written_tables (g : Graph) (id : BlockId) (slot : String) (shape : FieldShape)
    (value : FieldValue) : (g.written id slot shape value).vars = g.vars ∧
      (g.written id slot shape value).procedures = g.procedures := by
  unfold written
  simp only
  split
  · exact reshape_tables _ _ _
  · exact ⟨rfl, rfl⟩

section

variable {block : Block} {id : BlockId}

-- A plain value; what the block says of procedures stays.
theorem Admits.sound_plain {slot : String} {shape : FieldShape} {value : FieldValue}
    (admitted : g.Admits block shape value)
    (sort : block.kind.slot? block.extent slot = some (.field shape)) (plain : shape ≠ .procedureRef)
    (unnamed : ∀ p, value ≠ .procedureRef p) (sound : block.content.Sound g.vars g.procedures id) :
    Content.Sound g.vars g.procedures id
      { block.content with fields := block.fields.insert slot value } := by
  have other : block.kind.isDefinition = true ∨ block.kind.isCall = true → False := fun binds =>
    plain ((Kind.bound_slot binds).mp sort).2
  refine ⟨fun name v holds => ?_, fun name p holds => ?_, fun calls => ?_, fun defines => ?_⟩
  · rw [Dict.get?_insert] at holds
    split at holds
    · cases holds
      cases shape with
      | variableRef => exact variableWith?_isSome.mp admitted
      | _ => exact admitted.elim
    · exact sound.reads name v holds
  · rw [Dict.get?_insert] at holds
    split at holds
    · cases holds
      exact absurd rfl (unnamed p)
    · exact sound.serves name p holds
  · exact (other (.inr calls)).elim
  · exact (other (.inl defines)).elim

-- A call has no field but the one that is set.
theorem free_call_sound (proper : block.Proper) (calls : block.kind.isCall = true) :
    Content.Sound g.vars g.procedures id
      { block.content with extent := { items := 0 }, fields := block.fields.insert "NAME" .empty } := by
  have only := @Block.Proper.only_field block proper (.inr calls) .empty
  refine ⟨fun name v holds => ?_, fun name p holds => ?_, fun _ _ => rfl, fun defines => ?_⟩
  · cases only name _ holds
  · cases only name _ holds
  · exact absurd (defines.symm.trans (Kind.call_not_definition calls)) (by simp)

theorem bound_call_sound (proper : block.Proper) {p : Procedure} (listed : p ∈ g.procedures)
    (kind : block.kind = .call p.returns) :
    Content.Sound g.vars g.procedures id { block.content with
      extent := { items := p.params.length }
      fields := block.fields.insert "NAME" (.procedureRef p.id) } := by
  have calls : block.kind.isCall = true := by rw [kind]; rfl
  have only := @Block.Proper.only_field block proper (.inr calls) (.procedureRef p.id)
  refine ⟨fun name v holds => ?_, fun name q holds => ?_, fun _ holds => ?_, fun defines => ?_⟩
  · cases only name _ holds
  · cases only name _ holds
    exact ⟨p, listed, rfl, .inr ⟨kind, rfl⟩⟩
  · cases only "NAME" _ holds
  · exact absurd (defines.symm.trans (Kind.call_not_definition calls)) (by simp)

end

theorem Bound.written (bound : g.Bound) (built : g.Built) {id : BlockId} {block : Block}
    {slot : String} {shape : FieldShape} {value : FieldValue} (found : g.block? id = some block)
    (sort : block.kind.slot? block.extent slot = some (.field shape))
    (admitted : g.Admits block shape value) : (g.written id slot shape value).Bound := by
  obtain ⟨vars, procedures⟩ := written_tables g id slot shape value
  have contents := written_contents built found sort admitted.fits
  have proper := (built id block found).2
  refine ⟨fun x c known => ?_, fun p member => ?_⟩
  · rw [contents] at known
    rw [vars, procedures]
    obtain ⟨old, before, rfl⟩ := Option.map_eq_some_iff.mp known
    have sound := bound.blocks x old before
    by_cases here : x = id
    · rw [if_pos here]
      subst here
      cases (contents_of_block found).symm.trans before
      rcases admitted.cases with ⟨plain, unnamed, same⟩ | ⟨rfl, free, rfl, same⟩ |
        ⟨rfl, procedure, member, rfl, kind, same⟩
      · rw [same]
        exact admitted.sound_plain sort plain unnamed sound
      · have calls : block.kind.isCall = true :=
          (Kind.procedureRef_slot sort).resolve_left (by simp [free])
        obtain ⟨rfl, _⟩ := (Kind.bound_slot (.inr calls)).mp sort
        rw [same]
        exact free_call_sound proper calls
      · have calls : block.kind.isCall = true := by rw [kind]; rfl
        obtain ⟨rfl, _⟩ := (Kind.bound_slot (.inr calls)).mp sort
        rw [same]
        exact bound_call_sound proper member kind
    · rw [if_neg here]
      exact sound
  · rw [procedures] at member
    obtain ⟨⟨c, known, kind, named⟩, short, distinct, exist⟩ := bound.procedures p member
    rw [vars]
    refine ⟨⟨c, ?_, kind, named⟩, short, distinct, exist⟩
    have other : p.definition ≠ id := by
      rintro same
      rw [same, contents_of_block found] at known
      cases known
      have free := admitted.not_definition sort
      rw [show block.kind = _ from kind] at free
      cases free
    rw [contents, known, Option.map_some, if_neg other]

-- Removal of a tree without a definition.
theorem Bound.removeTree (bound : g.Bound) (linked : g.Linked) (built : g.Built) {id : BlockId}
    {block : Block} (found : g.block? id = some block) (free : block.kind.isDefinition = false) :
    (g.removeTree id).Bound := by
  obtain ⟨vars, procedures⟩ := removeTree_tables g id
  refine ⟨fun x c known => ?_, fun p member => ?_⟩
  · rw [removeTree_contents found] at known
    rw [vars, procedures]
    split at known
    · cases known
    · exact bound.blocks x c known
  · rw [procedures] at member
    obtain ⟨definition, known, kind, named⟩ := block_of_definition bound member
    have defines : definition.kind.isDefinition = true := by rw [kind]; rfl
    have stays : p.definition ∉ (g.tree block).ids := by
      rw [linked.definition_below built found known defines]
      rintro same
      rw [same, found] at known
      cases known
      exact absurd (defines.symm.trans free) (by simp)
    obtain ⟨_, short, distinct, exist⟩ := bound.procedures p member
    rw [vars]
    refine ⟨⟨definition.content, ?_, kind, named⟩, short, distinct, exist⟩
    rw [removeTree_contents found, if_neg stays]
    exact contents_of_block known

theorem mem_callers (built : g.Built) {p : ProcedureId} {x : BlockId} : x ∈ g.callers p ↔
    ∃ c, g.contents x = some c ∧ c.kind.isCall = true ∧
      c.fields.get? "NAME" = some (.procedureRef p) := by
  unfold callers
  simp only [List.mem_map, List.mem_filter, mem_blocks built, Bool.and_eq_true, beq_iff_eq,
    Block.procedureIn?_eq_some]
  constructor
  · rintro ⟨block, ⟨found, calls, named⟩, rfl⟩
    exact ⟨_, contents_of_block found, calls, named⟩
  · rintro ⟨c, known, calls, named⟩
    obtain ⟨block, found, rfl⟩ := block_of_contents known
    have same := (built x block found).1
    exact ⟨block, ⟨same.symm ▸ found, calls, named⟩, same⟩

-- A procedure that nothing calls leaves no trace when it goes with its definition.
theorem Bound.removeProcedure (bound : g.Bound) (linked : g.Linked) (built : g.Built)
    (distinctIds : (g.procedures.map (·.id)).Nodup) {procedure : Procedure}
    (listed : procedure ∈ g.procedures) (uncalled : g.callers procedure.id = []) :
    { g.removeTree procedure.definition with
      procedures := (g.removeTree procedure.definition).procedures.filter
        (·.id != procedure.id) }.Bound := by
  obtain ⟨vars, procedures⟩ := removeTree_tables g procedure.definition
  obtain ⟨block, found, kind, _⟩ := block_of_definition bound listed
  have contents := removeTree_contents found
  have first : procedure.definition ∈ (g.tree block).ids := by
    have defines : block.kind.isDefinition = true := by rw [kind]; rfl
    exact (linked.definition_below built found found defines).mpr rfl
  refine ⟨fun x c known => ?_, fun p member => ?_⟩
  · have known : (g.removeTree procedure.definition).contents x = some c := known
    rw [contents] at known
    split at known
    · cases known
    · next stays =>
      have sound := bound.blocks x c known
      refine ⟨?_, fun name p holds => ?_, sound.unbound, sound.bound⟩
      · rw [vars]
        exact sound.reads
      · obtain ⟨q, member, rfl, fits⟩ := sound.serves name p holds
        refine ⟨q, List.mem_filter.mpr ⟨procedures ▸ member, ?_⟩, rfl, fits⟩
        rw [bne_iff_ne]
        intro same
        cases List.inj_on_of_nodup_map distinctIds member listed same
        rcases fits with ⟨_, here⟩ | ⟨call, _⟩
        · exact stays (here ▸ first)
        · have calls : c.kind.isCall = true := by rw [call]; rfl
          have caller : x ∈ g.callers procedure.id := by
            obtain rfl := built.named_field known (.inr calls) holds
            exact (mem_callers built).mpr ⟨_, known, calls, holds⟩
          rw [uncalled] at caller
          cases caller
  · obtain ⟨member, other⟩ := List.mem_filter.mp member
    rw [procedures] at member
    rw [bne_iff_ne] at other
    obtain ⟨definition, known, kind', named'⟩ := block_of_definition bound member
    have defines : definition.kind.isDefinition = true := by rw [kind']; rfl
    have stays : p.definition ∉ (g.tree block).ids := by
      rw [linked.definition_below built found known defines]
      exact fun same => other (bound.same_definition member listed same)
    obtain ⟨_, short, distinct, exist⟩ := bound.procedures p member
    refine ⟨⟨definition.content, ?_, kind', named'⟩, short, distinct, ?_⟩
    · refine (contents p.definition).trans ?_
      rw [if_neg stays]
      exact contents_of_block known
    · rw [vars]
      exact exist

-- Changes of the tables alone.
theorem Bound.withVars (bound : g.Bound) {vars : List Variable}
    (reads : ∀ x c name v, g.contents x = some c → c.fields.get? name = some (.variableRef v) →
      (∃ y ∈ g.vars, y.id = v) → ∃ y ∈ vars, y.id = v)
    (params : ∀ p ∈ g.procedures, ∀ v ∈ p.params, (∃ y ∈ g.vars, y.id = v) → ∃ y ∈ vars, y.id = v) :
    { g with vars := vars }.Bound := by
  refine ⟨fun x c known => ?_, fun p member => ?_⟩
  · have sound := bound.blocks x c known
    refine ⟨fun name v holds => ?_, sound.serves, sound.unbound, sound.bound⟩
    exact reads x c name v known holds (sound.reads name v holds)
  · obtain ⟨defined, short, distinct, known⟩ := bound.procedures p member
    exact ⟨defined, short, distinct, fun v used => params p member v used (known v used)⟩

theorem usesVariable_false {v : VariableId} (unused : g.usesVariable v = false) :
    (∀ x c name, g.contents x = some c → c.fields.get? name ≠ some (.variableRef v)) ∧
      ∀ p ∈ g.procedures, v ∉ p.params := by
  unfold usesVariable at unused
  rw [Bool.or_eq_false_iff, List.any_eq_false, List.any_eq_false] at unused
  constructor
  · intro x c name known holds
    obtain ⟨block, found, rfl⟩ := block_of_contents known
    have listed : block ∈ g.blocks.values := Dict.mem_values.mpr ⟨_, found⟩
    refine unused.1 block listed ?_
    rw [List.contains_iff_mem]
    exact Dict.mem_values.mpr ⟨name, holds⟩
  · intro p member used
    exact unused.2 p member (by simpa using used)

theorem Bound.deleteVariable (bound : g.Bound) {v : VariableId} (unused : g.usesVariable v = false) :
    { g with vars := g.vars.filter (·.id != v) }.Bound := by
  obtain ⟨fields, params⟩ := usesVariable_false unused
  have stays : ∀ u, u ≠ v → (∃ y ∈ g.vars, y.id = u) → ∃ y ∈ g.vars.filter (·.id != v), y.id = u := by
    rintro u other ⟨y, member, rfl⟩
    exact ⟨y, List.mem_filter.mpr ⟨member, bne_iff_ne.mpr other⟩, rfl⟩
  refine bound.withVars (fun x c name u known holds => stays u ?_) fun p member u used => stays u ?_
  · rintro rfl
    exact fields x c name known holds
  · rintro rfl
    exact params p member used

theorem Bound.addVariable (bound : g.Bound) (v : VariableId) (name : String) :
    (g.addVariable v name).Bound := by
  have stays : ∀ u, (∃ y ∈ g.vars, y.id = u) → ∃ y ∈ g.vars ++ [⟨v, name⟩], y.id = u := by
    rintro u ⟨y, member, rfl⟩
    exact ⟨y, List.mem_append_left _ member, rfl⟩
  exact bound.withVars (fun _ _ _ u _ _ => stays u) fun _ _ u _ => stays u

theorem Bound.renameVariable (bound : g.Bound) (v : VariableId) (name : String) :
    { g with vars := g.vars.map fun x : Variable => if x.id = v then { x with name := name } else x }.Bound := by
  have stays : ∀ u, (∃ y ∈ g.vars, y.id = u) → ∃ y ∈ g.vars.map
      (fun x : Variable => if x.id = v then { x with name := name } else x), y.id = u := by
    rintro u ⟨y, member, rfl⟩
    refine ⟨_, List.mem_map_of_mem member, ?_⟩
    split <;> rfl
  exact bound.withVars (fun _ _ _ u _ _ => stays u) fun _ _ u _ => stays u

theorem Bound.renameProcedure (bound : g.Bound) (id : ProcedureId) (name : String) :
    (g.updateProcedure id fun p => { p with name := name }).Bound := by
  refine ⟨fun x c known => ?_, fun q member => ?_⟩
  · have sound := bound.blocks x c known
    refine ⟨sound.reads, fun field p holds => ?_, sound.unbound, sound.bound⟩
    obtain ⟨procedure, member, same, fits⟩ := sound.serves field p holds
    refine ⟨_, List.mem_map_of_mem member, ?_⟩
    split
    · exact ⟨same, fits⟩
    · exact ⟨same, fits⟩
  · obtain ⟨p, listed, rfl⟩ := List.mem_map.mp member
    obtain ⟨defined, short, distinct, known⟩ := bound.procedures p listed
    split <;> exact ⟨defined, short, distinct, known⟩

theorem Bound.addProcedure (bound : g.Bound) {id : ProcedureId} {definition : BlockId} {name : String}
    {params : List VariableId} {returns : Bool} (new : g.block? definition = none)
    (checked : g.checkParams params = .ok ()) :
    (g.addProcedure id definition name params returns).Bound := by
  obtain ⟨short, known, distinct⟩ := checkParams_eq_ok.mp checked
  have proper := Block.fresh_proper definition (Kind.defaultExtent_allowed (.definition returns))
  have only := @Block.Proper.only_field _ proper (.inl rfl) (.procedureRef id)
  have contents : ∀ x, (g.addProcedure id definition name params returns).contents x
      = if x = definition then some ⟨.definition returns, {},
        (Block.fresh definition (.definition returns) {}).fields.insert "NAME" (.procedureRef id)⟩
        else g.contents x := fun x => addRoot_contents g _ x
  refine ⟨fun x c found => ?_, fun p member => ?_⟩
  · rw [contents] at found
    split at found
    · next here =>
      cases found
      refine ⟨fun field v holds => ?_, fun field p holds => ?_, fun calls => ?_, fun _ => ?_⟩
      · cases only field _ holds
      · cases only field _ holds
        exact ⟨_, List.mem_append_right _ (List.mem_singleton_self _), rfl, .inl ⟨rfl, here.symm⟩⟩
      · cases calls
      · exact ⟨id, by simp⟩
    · have sound := bound.blocks x c found
      refine ⟨sound.reads, fun field p holds => ?_, sound.unbound, sound.bound⟩
      obtain ⟨procedure, member, fits⟩ := sound.serves field p holds
      exact ⟨procedure, List.mem_append_left _ member, fits⟩
  · rcases List.mem_append.mp member with old | last
    · obtain ⟨⟨c, found, rest⟩, short, distinct, exist⟩ := bound.procedures p old
      refine ⟨⟨c, ?_, rest⟩, short, distinct, exist⟩
      have other : p.definition ≠ definition := by
        rintro same
        rw [same, contents_none new] at found
        cases found
      rw [contents, if_neg other]
      exact found
    · rw [List.mem_singleton.mp last]
      refine ⟨⟨_, (contents definition).trans (if_pos rfl), rfl, by simp⟩, short, distinct, ?_⟩
      exact fun v used => variableWith?_isSome.mp (known v used)

end Graph
end Blockwork
