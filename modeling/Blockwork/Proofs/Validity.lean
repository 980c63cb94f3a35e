import Mathlib
import Blockwork.Proofs.WellFormed

-- The check of a graph succeeds where the rules hold. Each part of it is met by
-- one of them.
namespace Blockwork

-- Where slots are those of the kind, counting them gives nothing new.
theorem Block.Shaped.size {block : Block} (shaped : block.Shaped) :
    block.fields.size + block.inputs.size + block.bodies.size
      = (block.kind.slots block.extent).length := by
  have slotted : ∀ name, name ∈ (block.kind.slots block.extent).map (·.name) ↔
      ∃ sort, block.kind.slot? block.extent name = some sort := by
    intro name
    simp only [Kind.slot?_eq_some, List.mem_map]
    constructor
    · rintro ⟨slot, listed, rfl⟩
      exact ⟨slot.kind, listed⟩
    · rintro ⟨sort, listed⟩
      exact ⟨_, listed, rfl⟩
  have same : (block.fields.entries.map (·.1) ++ block.inputs.entries.map (·.1)
      ++ block.bodies.entries.map (·.1)).Perm ((block.kind.slots block.extent).map (·.name)) := by
    refine (List.perm_ext_iff_of_nodup ?_ (Kind.names_nodup _ _)).mpr fun name => ?_
    · refine (List.Nodup.append block.fields.keys_nodup block.inputs.keys_nodup ?_).append
        block.bodies.keys_nodup ?_
      all_goals
        rw [List.disjoint_left]
        intro name left right
        simp only [List.mem_append, Dict.mem_keys, shaped.fields, shaped.inputs, shaped.bodies]
          at left right
      · obtain ⟨_, left⟩ := left
        obtain ⟨_, right⟩ := right
        cases left.symm.trans right
      · rcases left with ⟨_, left⟩ | ⟨_, left⟩ <;> cases left.symm.trans right
    · simp only [List.mem_append, Dict.mem_keys, shaped.fields, shaped.inputs, shaped.bodies, slotted]
      constructor
      · rintro ((⟨_, sort⟩ | ⟨_, sort⟩) | sort)
        all_goals exact ⟨_, sort⟩
      · rintro ⟨_ | _ | _, sort⟩
        · exact .inl (.inl ⟨_, sort⟩)
        · exact .inl (.inr ⟨_, sort⟩)
        · exact .inr sort
  simpa [Dict.size, Nat.add_assoc] using same.length_eq

namespace Graph

variable {g : Graph}

theorem checkEach_eq_ok {α : Type} {items : List α} {check : α → Except EditError Unit} :
    checkEach items check = .ok () ↔ ∀ item ∈ items, check item = .ok () := by
  induction items with
  | nil => simp [checkEach]
  | cons head rest ih =>
    rw [checkEach, List.forall_mem_cons, ← ih]
    exact check_eq_ok

theorem validateRootsAfter_ok {seen roots : List BlockId} (distinct : roots.Nodup)
    (apart : ∀ id ∈ roots, id ∉ seen)
    (free : ∀ id ∈ roots, ∃ block, g.block? id = some block ∧ block.parent = none) :
    g.validateRootsAfter seen roots = .ok () := by
  induction roots generalizing seen with
  | nil => rfl
  | cons root rest ih =>
    obtain ⟨new, tail⟩ := List.nodup_cons.mp distinct
    rw [List.forall_mem_cons] at apart free
    obtain ⟨block, found, loose⟩ := free.1
    simp only [validateRootsAfter, found, loose, Option.isSome_none, Bool.false_eq_true, if_false,
      List.contains_iff_mem, apart.1]
    refine ih tail (fun id member => ?_) free.2
    rw [List.mem_cons, not_or]
    exact ⟨fun same => new (same ▸ member), apart.2 id member⟩

theorem WellFormed.validateRoots_ok (wf : g.WellFormed) : g.validateRoots = .ok () := by
  unfold validateRoots
  rw [check_eq_ok, checkEach_eq_ok]
  refine ⟨validateRootsAfter_ok wf.linked.nodup (by simp) fun id => wf.linked.root.mp, ?_⟩
  intro block member
  have found := (mem_blocks wf.built).mp member
  cases free : block.parent with
  | none =>
    have listed : block.id ∈ g.roots := wf.linked.root.mpr ⟨block, found, free⟩
    simp [listed]
  | some link => simp

theorem validateShape_ok {block : Block} (shaped : block.Shaped) : validateShape block = .ok () := by
  have counted := shaped.size
  unfold validateShape
  simp only [counted, ne_eq, not_true_eq_false, if_false]
  refine checkEach_eq_ok.mpr fun slot listed => ?_
  obtain ⟨name, sort⟩ := slot
  have known := Kind.slot?_eq_some.mpr listed
  cases sort with
  | field shape => simp [Dict.contains_eq, (shaped.fields name).mpr ⟨shape, known⟩]
  | input check => simp [Dict.contains_eq, (shaped.inputs name).mpr ⟨check, known⟩]
  | body => simp [Dict.contains_eq, (shaped.bodies name).mpr known]

theorem WellFormed.validateLink_ok (wf : g.WellFormed) {block : Block}
    (found : g.block? block.id = some block) {place : Place} {child : BlockId}
    (holds : block.held place = some child) : g.validateLink block (place, child) = .ok () := by
  obtain ⟨t, wired, back, accepts⟩ := wf.linked.down _ _ place child (wiring_of_block found) holds
  obtain ⟨c, known, rfl⟩ := block_of_wiring wired
  have back : c.parent = some ⟨block.id, place⟩ := back
  simp only [validateLink, known, back, ne_eq, not_true_eq_false, if_false]
  cases place with
  | input slot =>
    obtain ⟨connects, typed⟩ := accepts
    have connects : c.kind.connection = .expression := connects
    refine (check_eq_ok (f := fun _ => _)).mpr ⟨?_, by simp [connects]⟩
    dsimp only
    split
    · next expected yields sort given =>
      have same := typed expected yields sort given
      simp [same]
    · rfl
  | body slot =>
    have connects : c.kind.connection = .statement := accepts
    simp [connects, Except.bind]
  | next =>
    have connects : c.kind.connection = .statement := accepts.1
    simp [connects, Except.bind]

theorem WellFormed.validateLinks_ok (wf : g.WellFormed) {block : Block}
    (found : g.block? block.id = some block) : g.validateLinks block = .ok () := by
  unfold validateLinks
  rw [check_eq_ok, checkEach_eq_ok]
  refine ⟨?_, ?_⟩
  · rintro ⟨place, child⟩ member
    exact wf.validateLink_ok found (Block.mem_links.mp member)
  have follows : ¬(block.next.isSome = true ∧ block.kind.connection ≠ .statement) := by
    rintro ⟨present, other⟩
    obtain ⟨child, after⟩ := Option.isSome_iff_exists.mp present
    obtain ⟨_, _, _, accepts⟩ := wf.linked.down _ _ .next child (wiring_of_block found) after
    exact other accepts.2
  have plain : (block.next.isSome && decide (block.kind.connection ≠ .statement)) = false := by
    rw [Bool.eq_false_iff, ne_eq, Bool.and_eq_true, decide_eq_true_eq]
    exact follows
  rw [plain]
  cases attached : block.parent with
  | none => rfl
  | some link =>
    obtain ⟨t, wired, holds⟩ := wf.linked.up _ _ link (wiring_of_block found) attached
    obtain ⟨parent, known, rfl⟩ := block_of_wiring wired
    have holds : parent.held link.place = some block.id := holds
    simp [known, holds]

-- How definitions and calls stand to procedures: a definition is bound to the one it defines, a call
-- to one that it agrees with, or it is free and has no arguments.
theorem WellFormed.definition_binds (wf : g.WellFormed) {id : BlockId} {block : Block}
    (found : g.block? id = some block) (defines : block.kind.isDefinition = true) :
    ∃ p ∈ g.procedures, block.fields.get? "NAME" = some (.procedureRef p.id) ∧
      block.kind = .definition p.returns ∧ p.definition = id := by
  have sound := wf.bound.blocks id _ (contents_of_block found)
  obtain ⟨_, named⟩ := sound.bound defines
  obtain ⟨p, listed, rfl, ⟨kind, own⟩ | ⟨call, _⟩⟩ := sound.serves "NAME" _ named
  · exact ⟨p, listed, named, kind, own⟩
  · rw [show block.kind = _ from call] at defines
    cases defines

theorem WellFormed.call_binds (wf : g.WellFormed) {id : BlockId} {block : Block}
    (found : g.block? id = some block) (calls : block.kind.isCall = true) :
    (∃ p ∈ g.procedures, block.fields.get? "NAME" = some (.procedureRef p.id) ∧
        block.kind = .call p.returns ∧ block.extent = { items := p.params.length }) ∨
      block.fields.get? "NAME" = some .empty ∧ block.extent = {} := by
  have proper := (wf.built id block found).2
  have sound := wf.bound.blocks id _ (contents_of_block found)
  have extent : ∀ items, block.extent.items = items → block.extent = { items := items } := by
    rintro _ rfl
    exact proper.allowed.extent_eq (by rw [Kind.variadic_arguments.mpr calls]; simp)
  obtain ⟨value, named⟩ := Option.isSome_iff_exists.mp ((proper.bound_field (.inr calls)).mpr rfl)
  have fits := proper.fitting "NAME" value .procedureRef named ((Kind.bound_slot (.inr calls)).mpr ⟨rfl, rfl⟩)
  cases value with
  | procedureRef p =>
    obtain ⟨p, listed, rfl, ⟨defines, _⟩ | ⟨call, items⟩⟩ := sound.serves "NAME" _ named
    · rw [show block.kind = _ from defines] at calls
      cases calls
    · exact .inl ⟨p, listed, named, call, extent _ items⟩
  | empty => exact .inr ⟨named, extent _ (sound.unbound calls named)⟩
  | _ => exact fits.elim

theorem WellFormed.validateFields_ok (wf : g.WellFormed) {block : Block}
    (found : g.block? block.id = some block) : g.validateFields block = .ok () := by
  have sound := wf.bound.blocks _ _ (contents_of_block found)
  refine checkEach_eq_ok.mpr fun value member => ?_
  obtain ⟨name, holds⟩ := Dict.mem_values.mp member
  cases value with
  | variableRef v =>
    have known : (g.variableWith? v).isSome := variableWith?_isSome.mpr (sound.reads name v holds)
    simp [Option.isSome_iff_ne_none.mp known]
  | procedureRef p =>
    obtain ⟨procedure, listed, same, _⟩ := sound.serves name p holds
    simp [(procedureWith?_eq_some wf.procedureNames.ids).mpr ⟨listed, same⟩]
  | _ => rfl

theorem WellFormed.validateCall_ok (wf : g.WellFormed) {block : Block}
    (found : g.block? block.id = some block) (calls : block.kind.isCall = true) :
    g.validateCall block = .ok () := by
  unfold validateCall Block.procedureIn?
  rcases wf.call_binds found calls with ⟨p, listed, named, kind, extent⟩ | ⟨free, _⟩
  · simp [named, wf.procedureWith?_listed listed, kind, extent]
  · simp [free]

theorem WellFormed.validateDefinition_ok (wf : g.WellFormed) {block : Block}
    (found : g.block? block.id = some block) (defines : block.kind.isDefinition = true) :
    g.validateDefinition block = .ok () := by
  obtain ⟨p, listed, named, _, own⟩ := wf.definition_binds found defines
  unfold validateDefinition
  rw [Block.procedureIn?_eq_some.mpr named, Option.bind_some, wf.procedureWith?_listed listed]
  simp [own, wf.linked.definition_root found defines]

theorem WellFormed.validateReferences_ok (wf : g.WellFormed) {block : Block}
    (found : g.block? block.id = some block) : g.validateReferences block = .ok () := by
  unfold validateReferences
  rw [wf.validateFields_ok found]
  cases calls : block.kind.isCall with
  | true =>
    simp only [wf.validateCall_ok found calls, Kind.call_not_definition calls, if_true, Bool.false_eq_true, if_false]
    rfl
  | false =>
    cases defines : block.kind.isDefinition with
    | true =>
      simp only [wf.validateDefinition_ok found defines, if_true, Bool.false_eq_true, if_false]
      rfl
    | false => rfl

theorem WellFormed.validateNames_ok (wf : g.WellFormed) : g.validateNames = .ok () := by
  have vars := wf.variableNames.renumber (f := VariableId.text) fun a b same => by
    cases a; cases b; exact congrArg _ same
  have procedures := wf.procedureNames.renumber (f := ProcedureId.text) fun a b same => by
    cases a; cases b; exact congrArg _ same
  unfold validateNames
  rw [check_eq_ok]
  exact ⟨vars.validateEntries_ok, procedures.validateEntries_ok⟩

theorem WellFormed.validateProcedure_ok (wf : g.WellFormed) {procedure : Procedure}
    (listed : procedure ∈ g.procedures) : g.validateProcedure procedure = .ok () := by
  obtain ⟨block, found, kind, named⟩ := block_of_definition wf.bound listed
  obtain ⟨_, _, distinct, known⟩ := wf.bound.procedures procedure listed
  unfold validateProcedure
  rw [found]
  simp only [kind, Block.procedureIn?_eq_some.mpr named, ne_eq, not_true_eq_false, or_self, if_false]
  refine checkParamsAfter_eq_ok.mpr ⟨fun v used => ?_, distinct, by simp⟩
  exact variableWith?_isSome.mpr (known v used)

theorem WellFormed.validate_ok (wf : g.WellFormed) : g.validate = .ok () := by
  unfold validate
  simp only [check_eq_ok, checkEach_eq_ok]
  refine ⟨wf.validateRoots_ok, fun block member => ?_, ?_, wf.validateNames_ok,
    fun procedure listed => wf.validateProcedure_ok listed⟩
  · have found := (mem_blocks wf.built).mp member
    exact ⟨validateShape_ok (wf.built _ block found).2.shaped, wf.validateLinks_ok found,
      wf.validateReferences_ok found⟩
  · refine checkEach_eq_ok.mpr fun block member => ?_
    have found := (mem_blocks wf.built).mp member
    exact wf.linked.validateClimb_size (by simp [found])

-- The rules, said of the blocks and tables themselves.
structure Lawful (g : Graph) : Prop where
  rootsOnce : g.roots.Nodup
  roots : ∀ id, id ∈ g.roots ↔ ∃ block, g.block? id = some block ∧ block.parent = none
  keys : ∀ id block, g.block? id = some block → block.id = id
  slots : ∀ id block, g.block? id = some block → block.Proper
  children : ∀ id block place child, g.block? id = some block → block.held place = some child →
    ∃ c, g.block? child = some c ∧ c.parent = some ⟨id, place⟩ ∧ Asks block place c.kind
  parents : ∀ id block link, g.block? id = some block → block.parent = some link →
    ∃ parent, g.block? link.parent = some parent ∧ parent.held link.place = some id
  climbs : ∀ id block, g.block? id = some block → ∃ root ∈ g.roots, g.wiring.Above root id
  variableNames : Named (·.id) (·.name) g.vars
  procedureNames : Named (·.id) (·.name) g.procedures
  variableRefs : ∀ id block name v, g.block? id = some block →
    block.fields.get? name = some (.variableRef v) → (g.variableWith? v).isSome
  procedureRefs : ∀ id block name p, g.block? id = some block →
    block.fields.get? name = some (.procedureRef p) → (g.procedureWith? p).isSome
  params : ∀ p ∈ g.procedures, p.params.Nodup ∧ ∀ v ∈ p.params, (g.variableWith? v).isSome
  definitions : ∀ p ∈ g.procedures, ∀ id, id = p.definition ↔ ∃ block, g.block? id = some block ∧
    block.kind = .definition p.returns ∧ block.procedureIn? "NAME" = some p.id
  defines : ∀ id block, g.block? id = some block → block.kind.isDefinition = true →
    ∃ p ∈ g.procedures, p.definition = id
  calls : ∀ id block p, g.block? id = some block → block.kind.isCall = true →
    block.procedureIn? "NAME" = some p → ∃ procedure, g.procedureWith? p = some procedure ∧
      block.kind = .call procedure.returns ∧ block.extent.items = procedure.params.length

theorem WellFormed.asks (wf : g.WellFormed) {id child : BlockId} {block c : Block} {place : Place}
    (found : g.block? id = some block) (holds : block.held place = some child)
    (accepts : block.stance.Accepts place c.stance) : Asks block place c.kind := by
  have has := Block.hasPlace_of_held (wf.built id block found).2.shaped holds
  cases place with
  | input slot =>
    obtain ⟨check, sort⟩ := Kind.hasPlace_input.mp has
    refine ⟨accepts.1, check, sort, ?_⟩
    rintro expected yields rfl given
    exact accepts.2 expected yields sort given
  | body slot => exact ⟨accepts, Kind.hasPlace_body.mp has⟩
  | next => exact accepts

theorem WellFormed.definition_of (wf : g.WellFormed) {p : Procedure} (listed : p ∈ g.procedures)
    {id : BlockId} {block : Block} (found : g.block? id = some block)
    (kind : block.kind = .definition p.returns) (named : block.procedureIn? "NAME" = some p.id) :
    id = p.definition := by
  have sound := wf.bound.blocks _ _ (contents_of_block found)
  obtain ⟨q, member, same, fits⟩ := sound.serves "NAME" p.id (Block.procedureIn?_eq_some.mp named)
  cases wf.procedureNames.unique member listed same
  rcases fits with ⟨_, own⟩ | ⟨call, _⟩
  · exact own.symm
  · cases kind.symm.trans call

theorem WellFormed.lawful (wf : g.WellFormed) : g.Lawful where
  rootsOnce := wf.linked.nodup
  roots _ := wf.linked.root
  keys id block found := (wf.built id block found).1
  slots id block found := (wf.built id block found).2
  children id block place child found holds := by
    obtain ⟨t, wired, back, accepts⟩ := wf.linked.down id _ place child (wiring_of_block found) holds
    obtain ⟨c, known, rfl⟩ := block_of_wiring wired
    exact ⟨c, known, back, wf.asks found holds accepts⟩
  parents id block link found attached := by
    obtain ⟨t, wired, holds⟩ := wf.linked.up id _ link (wiring_of_block found) attached
    obtain ⟨parent, known, rfl⟩ := block_of_wiring wired
    exact ⟨parent, known, holds⟩
  climbs id block found := wf.linked.root_above found
  variableNames := wf.variableNames
  procedureNames := wf.procedureNames
  variableRefs id block name v found holds :=
    variableWith?_isSome.mpr ((wf.bound.blocks _ _ (contents_of_block found)).reads name v holds)
  procedureRefs id block name p found holds := by
    obtain ⟨procedure, member, same, _⟩ :=
      (wf.bound.blocks _ _ (contents_of_block found)).serves name p holds
    rw [(procedureWith?_eq_some wf.procedureNames.ids).mpr ⟨member, same⟩]
    rfl
  params p listed := by
    obtain ⟨_, _, distinct, known⟩ := wf.bound.procedures p listed
    exact ⟨distinct, fun v used => variableWith?_isSome.mpr (known v used)⟩
  definitions p listed id := by
    constructor
    · rintro rfl
      obtain ⟨block, found, kind, named⟩ := block_of_definition wf.bound listed
      exact ⟨block, found, kind, Block.procedureIn?_eq_some.mpr named⟩
    · rintro ⟨block, found, kind, named⟩
      exact wf.definition_of listed found kind named
  defines id block found isDefinition := by
    obtain ⟨p, listed, _, _, own⟩ := wf.definition_binds found isDefinition
    exact ⟨p, listed, own⟩
  calls id block p found isCall named := by
    have named := Block.procedureIn?_eq_some.mp named
    rcases wf.call_binds found isCall with ⟨q, listed, bound, kind, extent⟩ | ⟨free, _⟩
    · cases bound.symm.trans named
      exact ⟨q, wf.procedureWith?_listed listed, kind, by rw [extent]⟩
    · cases free.symm.trans named

end Graph
end Blockwork
