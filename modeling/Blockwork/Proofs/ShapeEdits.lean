import Mathlib
import Blockwork.Proofs.Reshaping

-- The edits that reshape blocks: a number of items or branches, a last alternative, a field, or the
-- parameters of a procedure. Each settles the shapes that blocks get, and can be taken back by an edit
-- of the same sort where it only adds slots.
namespace Blockwork
namespace Graph

variable {g g' : Graph}

-- The extent of a block once one of its fields has the value. Calls follow the procedure that they
-- name.
def extentWith (g : Graph) (block : Block) : FieldValue → Extent
  | .procedureRef p => { items := ((g.procedureWith? p).map (·.params.length)).getD 0 }
  | .empty => if block.kind.isCall then {} else block.extent
  | _ => block.extent

-- The shape that an edit gives to a block, if it reshapes it.
def shapeFor (g : Graph) : Edit → Block → Option Shape
  | .setItemCount id items, b =>
    if b.id = id then some ⟨{ b.extent with items := items }, b.fields⟩ else none
  | .setHasElse id hasElse, b =>
    if b.id = id then some ⟨{ b.extent with hasElse := hasElse }, b.fields⟩ else none
  | .setField id slot value, b =>
    if b.id = id then some ⟨g.extentWith b value, b.fields.insert slot value⟩ else none
  | .setParams procedure params, b =>
    if b.Calls procedure then some ⟨{ items := params.length }, b.fields⟩ else none
  | _, _ => none

def proceduresAfter (g : Graph) : Edit → List Procedure
  | .setParams id params => g.procedures.map fun p => if p.id = id then { p with params := params } else p
  | _ => g.procedures

-- The edit that asks for what there was before another one.
def restoring (g : Graph) : Edit → Option Edit
  | .setItemCount id _ => (g.block? id).map fun b => .setItemCount id b.extent.items
  | .setHasElse id _ => (g.block? id).map fun b => .setHasElse id b.extent.hasElse
  | .setField id slot _ => (g.block? id).bind fun b => (b.fields.get? slot).map (.setField id slot)
  | .setParams id _ => (g.procedureWith? id).map fun p => .setParams id p.params
  | _ => none

-- The edit changes nothing but the shapes of blocks and the parameters of procedures.
structure Reforms (g g' : Graph) (e : Edit) : Prop where
  blocks : ∃ lost, g.Reshaped g' (g.shapeFor e) lost
  vars : g'.vars = g.vars
  procedures : g'.procedures = g.proceduresAfter e

theorem Built.elsewhere (built : g.Built) {x id : BlockId} {b : Block} (known : g.block? x = some b)
    (other : x ≠ id) : b.id ≠ id := by rw [(built x b known).1]; exact other

theorem Built.reshape_reforms (built : g.Built) {e : Edit} {id : BlockId} {block : Block}
    {extent : Extent} (found : g.block? id = some block)
    (given : g.shapeFor e block = some ⟨extent, block.fields⟩)
    (others : ∀ b, b.id ≠ id → g.shapeFor e b = none)
    (procedures : g.proceduresAfter e = g.procedures) : g.Reforms (g.reshape id extent) e := by
  obtain ⟨vars, same⟩ := reshape_tables g id extent
  refine ⟨built.reshape_reshaped found given (fun x b known other => ?_) found (fun _ _ => rfl) rfl,
    vars, same.trans procedures.symm⟩
  exact others b (built.elsewhere known other)

theorem WellFormed.setItemCount_reforms (wf : g.WellFormed) {id : BlockId} {items : Nat}
    (edited : g.after (.setItemCount id items) = .ok g') : g.Reforms g' (.setItemCount id items) := by
  obtain ⟨block, found, _, _, rfl⟩ := setItemCount_eq_ok.mp edited
  exact wf.built.reshape_reforms found (if_pos (wf.built id block found).1) (fun b other => if_neg other) rfl

theorem WellFormed.setHasElse_reforms (wf : g.WellFormed) {id : BlockId} {hasElse : Bool}
    (edited : g.after (.setHasElse id hasElse) = .ok g') : g.Reforms g' (.setHasElse id hasElse) := by
  obtain ⟨block, found, _, rfl⟩ := setHasElse_eq_ok.mp edited
  exact wf.built.reshape_reforms found (if_pos (wf.built id block found).1) (fun b other => if_neg other) rfl

-- A field that names no procedure leaves the extent, which is to say that it gives the same again.
theorem Built.written_eq (built : g.Built) {id : BlockId} {block : Block} {slot : String}
    {shape : FieldShape} {value : FieldValue} (found : g.block? id = some block)
    (sort : block.kind.slot? block.extent slot = some (.field shape))
    (admitted : g.Admits block shape value) :
    let wrote := g.update id fun b => { b with fields := b.fields.insert slot value }
    wrote.Built ∧ wrote.block? id = some { block with fields := block.fields.insert slot value } ∧
      g.written id slot shape value = wrote.reshape id (g.extentWith block value) := by
  intro wrote
  have proper : wrote.Built := by
    refine update_built built fun b known proper => ⟨rfl, ?_⟩
    cases found.symm.trans known
    exact Block.setField_proper proper sort admitted.fits
  have here : wrote.block? id = some { block with fields := block.fields.insert slot value } := by
    rw [block?_update, if_pos rfl, found]
    rfl
  refine ⟨proper, here, ?_⟩
  unfold written
  rcases admitted.cases with ⟨plain, unnamed, same⟩ | ⟨rfl, free, rfl, same⟩ |
    ⟨rfl, procedure, _, rfl, kind, same⟩
  · have extent : g.extentWith block value = block.extent := by
      cases value with
      | procedureRef p => exact absurd rfl (unnamed p)
      | empty =>
        refine if_neg fun calls => plain ?_
        exact ((Kind.bound_slot (.inr calls)).mp sort).2
      | _ => rfl
    rw [same, extent]
    exact (reshape_same proper here).symm
  · have calls : block.kind.isCall = true := by
      rcases Kind.procedureRef_slot sort with defines | calls
      · cases free.symm.trans defines
      · exact calls
    rw [same, extentWith, if_pos calls]
  · rw [arity?] at same
    rw [arity?, same, extentWith, same]
    rfl

theorem WellFormed.setField_reforms (wf : g.WellFormed) {id : BlockId} {slot : String}
    {value : FieldValue} (edited : g.after (.setField id slot value) = .ok g') :
    g.Reforms g' (.setField id slot value) := by
  obtain ⟨block, shape, found, sort, admitted, rfl⟩ := setField_eq_ok.mp edited
  obtain ⟨proper, here, same⟩ := wf.built.written_eq found sort admitted
  have given : g.shapeFor (.setField id slot value) block
      = some ⟨g.extentWith block value, block.fields.insert slot value⟩ :=
    if_pos (wf.built id block found).1
  obtain ⟨vars, procedures⟩ := written_tables g id slot shape value
  refine ⟨?_, vars, procedures⟩
  rw [same]
  refine proper.reshape_reshaped found given (fun x b known other => ?_) here (fun x other => ?_) rfl
  · exact if_neg (wf.built.elsewhere known other)
  · rw [block?_update, if_neg other]

theorem Built.callers_nodup (built : g.Built) (p : ProcedureId) : (g.callers p).Nodup := by
  have keys : g.blocks.values.map (·.id) = (g.blocks.entries.map (·.1)).map BlockId.mk := by
    rw [Dict.values, List.map_map, List.map_map]
    refine List.map_congr_left fun e member => ?_
    exact (built ⟨e.1⟩ e.2 (Dict.mem_entries.mp member)).1
  have distinct : (g.blocks.values.map (·.id)).Nodup := by
    rw [keys]
    exact g.blocks.keys_nodup.map fun a b same => BlockId.mk.inj same
  exact distinct.sublist (List.filter_sublist.map _)

theorem WellFormed.setParams_reforms (wf : g.WellFormed) {id : ProcedureId} {params : List VariableId}
    (edited : g.after (.setParams id params) = .ok g') : g.Reforms g' (.setParams id params) := by
  obtain ⟨_, checked, rfl⟩ := setParams_eq_ok.mp edited
  have shapes : ∀ b shape, g.shapeFor (.setParams id params) b = some shape ↔
      b.Calls id ∧ shape = ⟨{ items := params.length }, b.fields⟩ := by
    intro b shape
    simp only [shapeFor, Option.ite_none_right_eq_some, Option.some.injEq, @eq_comm _ shape]
  -- Blocks are not touched by the change of the tables.
  have built : (g.updateProcedure id fun p => { p with params := params }).Built := wf.built
  refine ⟨⟨_, built.reshapeAll_reshaped (built.callers_nodup id) (fun x => ?_) rfl (fun x => ?_)
    fun x b shape _ given => by rw [((shapes b shape).mp given).2]⟩, ?_, ?_⟩
  · change g.block? x = _
    cases g.block? x with
    | none => rfl
    | some b =>
      cases given : g.shapeFor (.setParams id params) b with
      | none => simp [given]
      | some shape =>
        obtain ⟨_, rfl⟩ := (shapes b shape).mp given
        simp [given]
  · refine (mem_callers_iff built).trans ?_
    constructor
    · rintro ⟨call, found, calls⟩
      exact ⟨call, _, found, (shapes call _).mpr ⟨calls, rfl⟩⟩
    · rintro ⟨call, shape, found, given⟩
      exact ⟨call, found, ((shapes call shape).mp given).1⟩
  · exact (reshapeAll_tables _ _ _).1
  · exact (reshapeAll_tables _ _ _).2

-- The way back. What a graph holds, it takes.
theorem WellFormed.admits_held (wf : g.WellFormed) {id : BlockId} {block : Block} {slot : String}
    {shape : FieldShape} {value : FieldValue} (found : g.block? id = some block)
    (sort : block.kind.slot? block.extent slot = some (.field shape))
    (holds : block.fields.get? slot = some value) (free : block.kind.isDefinition = false) :
    g.Admits block shape value := by
  have fits := (wf.built id block found).2.fitting slot value shape holds sort
  have sound := wf.bound.blocks id _ (contents_of_block found)
  cases value with
  | variableRef v =>
    cases shape with
    | variableRef => exact variableWith?_isSome.mpr (sound.reads slot v holds)
    | _ => exact fits.elim
  | procedureRef p =>
    cases shape with
    | procedureRef =>
      obtain ⟨procedure, member, same, ⟨kind, _⟩ | ⟨kind, _⟩⟩ := sound.serves slot p holds
      · rw [show block.kind = _ from kind] at free
        cases free
      · exact ⟨free, procedure, (procedureWith?_eq_some wf.procedureNames.ids).mpr ⟨member, same⟩, kind⟩
    | _ => exact fits.elim
  | empty =>
    cases shape with
    | procedureRef => exact free
    | variableRef => trivial
    | _ => exact fits.elim
  | _ => cases shape <;> exact fits

theorem Admits.congr {block block' : Block} {shape : FieldShape} {value : FieldValue}
    (admitted : g.Admits block shape value) (vars : g'.vars = g.vars)
    (procedures : g'.procedures = g.procedures) (kind : block'.kind = block.kind) :
    g'.Admits block' shape value := by
  unfold Admits variableWith? procedureWith? at *
  rw [vars, procedures, kind]
  exact admitted

theorem Admits.unnamed {block : Block} {shape : FieldShape} {value : FieldValue}
    (admitted : g.Admits block shape value) (other : block.kind.isCall = false) (p : ProcedureId) :
    value ≠ .procedureRef p := by
  rcases admitted.cases with ⟨_, unnamed, _⟩ | ⟨_, _, rfl, _⟩ | ⟨_, procedure, _, _, call, _⟩
  · exact unnamed p
  · simp
  · rw [call] at other
    cases other

theorem extentWith_plain {block : Block} {value : FieldValue} (other : block.kind.isCall = false)
    (unnamed : ∀ p, value ≠ .procedureRef p) : g.extentWith block value = block.extent := by
  cases value with
  | procedureRef p => exact absurd rfl (unnamed p)
  | empty => exact if_neg (by simp [other])
  | _ => rfl

-- A call has the extent that its procedure asks for.
theorem WellFormed.extentWith_call (wf : g.WellFormed) {id : BlockId} {block block' : Block}
    {value : FieldValue} (found : g.block? id = some block) (calls : block.kind.isCall = true)
    (holds : block.fields.get? "NAME" = some value) (procedures : g'.procedures = g.procedures)
    (kind : block'.kind = block.kind) : g'.extentWith block' value = block.extent := by
  rcases wf.call_binds found calls with ⟨p, listed, named, _, extent⟩ | ⟨unbound, extent⟩
  · cases named.symm.trans holds
    have known : g'.procedureWith? p.id = some p := by
      rw [procedureWith?, procedures]
      exact wf.procedureWith?_listed listed
    rw [extentWith, known, extent]
    rfl
  · cases unbound.symm.trans holds
    rw [extentWith, kind, if_pos calls, extent]

namespace Reforms

variable {g'' : Graph} {e : Edit}

theorem restored {back : Edit} (first : g.Reforms g' e) (second : g'.Reforms g'' back) (built : g.Built)
    (grows : g.Grows (g.shapeFor e))
    (shapes : ∀ x b b', g.block? x = some b → g'.block? x = some b' →
      g'.shapeFor back b' = (g.shapeFor e b).map fun _ => ⟨b.extent, b.fields⟩)
    (procedures : g'.proceduresAfter back = g.procedures) : g'' = g := by
  obtain ⟨lost, there⟩ := first.blocks
  obtain ⟨lost', again⟩ := second.blocks
  obtain ⟨blocks, roots⟩ := there.restored again built grows shapes
  exact eq_of_blocks blocks roots (second.vars.trans first.vars) (second.procedures.trans procedures)

-- Where one block is reshaped, only that one has to be given back.
theorem restored_at (first : g.Reforms g' e) (back : Edit) (built : g.Built) (built' : g'.Built)
    (grows : g.Grows (g.shapeFor e)) {id : BlockId} {block : Block} (found : g.block? id = some block)
    {shape : Shape} (given : g.shapeFor e block = some shape)
    (others : ∀ b, b.id ≠ id → g.shapeFor e b = none)
    (others' : ∀ b, b.id ≠ id → g'.shapeFor back b = none)
    (procedures : g'.proceduresAfter back = g.procedures) {edited : Except EditError Graph}
    (returns : ∀ block', g'.block? id = some block' → block.Reshaped block' shape →
      g'.shapeFor back block' = some ⟨block.extent, block.fields⟩ ∧
        ∃ g'', edited = .ok g'' ∧ g'.Reforms g'' back) : edited = .ok g := by
  obtain ⟨lost, there⟩ := first.blocks
  obtain ⟨block', found', now, _⟩ := there.shaped id block shape found given
  obtain ⟨given', g'', accepted, second⟩ := returns block' found' now
  rw [accepted]
  refine congrArg _ (first.restored second built grows (fun x b b' known known' => ?_) procedures)
  by_cases here : x = id
  · subst here
    cases found.symm.trans known
    cases found'.symm.trans known'
    rw [given, given']
    rfl
  · rw [others b (built.elsewhere known here), others' b' (built'.elsewhere known' here)]
    rfl

end Reforms

theorem WellFormed.setItemCount_restored (wf : g.WellFormed) {id : BlockId} {items : Nat}
    (edited : g.after (.setItemCount id items) = .ok g') (grows : g.Grows (g.shapeFor (.setItemCount id items))) :
    ∃ block, g.block? id = some block ∧ g'.after (.setItemCount id block.extent.items) = .ok g := by
  obtain ⟨block, found, sort, _, _⟩ := setItemCount_eq_ok.mp edited
  have wf' := wf.setItemCount edited
  have first := wf.setItemCount_reforms edited
  refine ⟨block, found, first.restored_at (.setItemCount id block.extent.items) wf.built wf'.built
    grows found (if_pos (wf.built id block found).1) (fun b other => if_neg other)
    (fun b other => if_neg other) first.procedures
    fun block' found' now => ⟨?_, ?_⟩⟩
  · rw [shapeFor, if_pos (wf'.built id block' found').1, now.extent, now.fields]
  · have accepted := setItemCount_eq_ok.mpr ⟨block', found', now.kind.symm ▸ sort,
      (wf.built id block found).2.allowed.bounded, rfl⟩
    exact ⟨_, accepted, wf'.setItemCount_reforms accepted⟩

theorem WellFormed.setHasElse_restored (wf : g.WellFormed) {id : BlockId} {hasElse : Bool}
    (edited : g.after (.setHasElse id hasElse) = .ok g') (grows : g.Grows (g.shapeFor (.setHasElse id hasElse))) :
    ∃ block, g.block? id = some block ∧ g'.after (.setHasElse id block.extent.hasElse) = .ok g := by
  obtain ⟨block, found, sort, _⟩ := setHasElse_eq_ok.mp edited
  have wf' := wf.setHasElse edited
  have first := wf.setHasElse_reforms edited
  refine ⟨block, found, first.restored_at (.setHasElse id block.extent.hasElse) wf.built wf'.built
    grows found (if_pos (wf.built id block found).1) (fun b other => if_neg other)
    (fun b other => if_neg other) first.procedures
    fun block' found' now => ⟨?_, ?_⟩⟩
  · rw [shapeFor, if_pos (wf'.built id block' found').1, now.extent, now.fields]
  · have accepted : g'.after (.setHasElse id block.extent.hasElse)
        = .ok (g'.reshape id { block'.extent with hasElse := block.extent.hasElse }) :=
      setHasElse_eq_ok.mpr ⟨block', found', now.kind.symm ▸ sort, rfl⟩
    exact ⟨_, accepted, wf'.setHasElse_reforms accepted⟩

theorem WellFormed.setField_restored (wf : g.WellFormed) {id : BlockId} {slot : String}
    {value : FieldValue} (edited : g.after (.setField id slot value) = .ok g')
    (grows : g.Grows (g.shapeFor (.setField id slot value))) :
    ∃ block old, g.block? id = some block ∧ block.fields.get? slot = some old ∧
      g'.after (.setField id slot old) = .ok g := by
  obtain ⟨block, shape, found, sort, admitted, _⟩ := setField_eq_ok.mp edited
  have wf' := wf.setField edited
  have first := wf.setField_reforms edited
  have slots := (wf.built id block found).2.shaped
  obtain ⟨old, holds⟩ := Option.isSome_iff_exists.mp ((slots.fields slot).mpr ⟨shape, sort⟩)
  have admitted' := wf.admits_held found sort holds (admitted.not_definition sort)
  refine ⟨block, old, found, holds, first.restored_at (.setField id slot old) wf.built wf'.built grows
    found (if_pos (wf.built id block found).1) (fun b other => if_neg other)
    (fun b other => if_neg other) first.procedures
    fun block' found' now => ⟨?_, ?_⟩⟩
  · have fields : (block.fields.insert slot value).insert slot old = block.fields := by
      ext1 name
      simp only [Dict.get?_insert]
      split
      · next here => rw [here, holds]
      · rfl
    have extent : g'.extentWith block' old = block.extent := by
      cases calls : block.kind.isCall with
      | true =>
        obtain ⟨rfl, _⟩ := (Kind.bound_slot (.inr calls)).mp sort
        exact wf.extentWith_call found calls holds first.procedures now.kind
      | false =>
        have still : block'.kind.isCall = false := by rw [now.kind, calls]
        rw [extentWith_plain still (admitted'.unnamed calls), now.extent,
          extentWith_plain calls (admitted.unnamed calls)]
    rw [shapeFor, if_pos (wf'.built id block' found').1, now.fields, fields, extent]
  · have sort' : block'.kind.slot? block'.extent slot = some (.field shape) := by
      rw [now.kind]
      exact Kind.slot?_field.mpr (Kind.slot?_field.mp sort)
    have accepted := setField_eq_ok.mpr ⟨block', shape, found', sort',
      admitted'.congr first.vars first.procedures now.kind, rfl⟩
    exact ⟨_, accepted, wf'.setField_reforms accepted⟩

theorem WellFormed.setParams_restored (wf : g.WellFormed) {id : ProcedureId} {params : List VariableId}
    (edited : g.after (.setParams id params) = .ok g') (grows : g.Grows (g.shapeFor (.setParams id params))) :
    ∃ procedure, g.procedureWith? id = some procedure ∧ g'.after (.setParams id procedure.params) = .ok g := by
  obtain ⟨known, _, _⟩ := setParams_eq_ok.mp edited
  obtain ⟨procedure, found⟩ := Option.isSome_iff_exists.mp known
  have wf' := wf.setParams edited
  have first := wf.setParams_reforms edited
  obtain ⟨member, rfl⟩ := procedureWith?_mem found
  have sound := wf.bound.procedures procedure member
  have checked : g'.checkParams procedure.params = .ok () := by
    refine checkParams_eq_ok.mpr ⟨sound.short, fun v used => ?_, sound.distinct⟩
    rw [variableWith?_isSome, first.vars]
    exact sound.known v used
  have still : (g'.procedureWith? procedure.id).isSome := by
    rw [procedureWith?, List.find?_isSome, first.procedures]
    exact ⟨{ procedure with params := params }, List.mem_map.mpr ⟨procedure, member, if_pos rfl⟩, by simp⟩
  have accepted := setParams_eq_ok.mpr ⟨still, checked, rfl⟩
  refine ⟨procedure, found, accepted.trans (congrArg _ ?_)⟩
  refine first.restored (wf'.setParams_reforms accepted) wf.built grows (fun x b b' known known' => ?_) ?_
  · obtain ⟨lost, there⟩ := first.blocks
    by_cases calls : b.Calls procedure.id
    · have given : g.shapeFor (.setParams procedure.id params) b
          = some ⟨{ items := params.length }, b.fields⟩ := if_pos calls
      have now := there.now known given known'
      have still : b'.Calls procedure.id := by
        rw [Block.Calls, now.kind, now.fields]
        exact calls
      have extent := wf.extentWith_call known calls.1 calls.2 rfl rfl
      rw [extentWith, found] at extent
      rw [given, shapeFor, if_pos still, now.fields, ← extent]
      rfl
    · have given : g.shapeFor (.setParams procedure.id params) b = none := if_neg calls
      cases known'.symm.trans (there.kept x b known given)
      rw [given]
      exact if_neg calls
  · rw [proceduresAfter, first.procedures, proceduresAfter, List.map_map]
    refine (List.map_congr_left fun p listed => ?_).trans (List.map_id _)
    rw [Function.comp_apply]
    by_cases same : p.id = procedure.id
    · obtain rfl := wf.procedureNames.unique listed member same
      simp
    · simp [same]

-- A block is not below its own child.
theorem Linked.not_below (linked : g.Linked) {high low : BlockId} (holds : g.Holds high low) :
    ¬Relation.ReflTransGen g.Holds low high := by
  obtain ⟨block, place, found, attached⟩ := linked.holds_iff.mp holds
  rw [← linked.above_iff_holds]
  exact Wiring.Linked.not_above_parent linked (wiring_of_block found) attached

-- Other edits than that of parameters reshape one block at most, and that is above what it loses.
theorem Reshaped.plain_below {e : Edit} {lost : List BlockId}
    (reshaped : g.Reshaped g' (g.shapeFor e) lost) (linked : g.Linked) (built : g.Built)
    (single : ∀ p params, e ≠ .setParams p params) {y x : BlockId} {b : Block} (member : y ∈ lost)
    (below : Relation.ReflTransGen g.Holds y x) (known : g.block? x = some b) : g.shapeFor e b = none := by
  obtain ⟨high, top, shape, place, found, given, holds, _⟩ := (reshaped.displaced y).mp member
  have apart : b.id ≠ top.id := by
    rw [(built x b known).1, (built high top found).1]
    rintro rfl
    exact linked.not_below ⟨top, place, found, holds⟩ below
  cases e with
  | setParams p params => exact absurd rfl (single p params)
  | setItemCount id items | setHasElse id hasElse | setField id slot value =>
    have here := (Option.ite_none_right_eq_some.mp given).1
    exact if_neg (here ▸ apart)
  | _ => cases given

end Graph

-- Edits that give blocks other slots, or other values in them.
def Edit.reshapes : Edit → Bool
  | .setItemCount _ _ | .setHasElse _ _ | .setField _ _ _ | .setParams _ _ => true
  | _ => false

theorem Workspace.apply_reforms {w w' : Workspace} {e : Edit} {reply : EditReply}
    (wf : w.graph.WellFormed) (reshapes : e.reshapes = true) (made : w.apply e = .ok (w', reply)) :
    reply = .done ∧ w'.serial = w.serial ∧ w.graph.Reforms w'.graph e ∧
      (w.graph.Grows (w.graph.shapeFor e) →
        ∃ back, w.graph.restoring e = some back ∧ w'.apply back = .ok (w, .done)) := by
  cases e with
  | setItemCount id items =>
    obtain ⟨g', edited, same⟩ := keepSerial_iff.mp made
    cases same
    refine ⟨rfl, rfl, wf.setItemCount_reforms edited, fun grows => ?_⟩
    obtain ⟨block, found, back⟩ := wf.setItemCount_restored edited grows
    refine ⟨.setItemCount id block.extent.items, ?_, keepSerial_made back⟩
    rw [Graph.restoring, found, Option.map_some]
  | setHasElse id hasElse =>
    obtain ⟨g', edited, same⟩ := keepSerial_iff.mp made
    cases same
    refine ⟨rfl, rfl, wf.setHasElse_reforms edited, fun grows => ?_⟩
    obtain ⟨block, found, back⟩ := wf.setHasElse_restored edited grows
    refine ⟨.setHasElse id block.extent.hasElse, ?_, keepSerial_made back⟩
    rw [Graph.restoring, found, Option.map_some]
  | setField id slot value =>
    obtain ⟨g', edited, same⟩ := keepSerial_iff.mp made
    cases same
    refine ⟨rfl, rfl, wf.setField_reforms edited, fun grows => ?_⟩
    obtain ⟨block, old, found, holds, back⟩ := wf.setField_restored edited grows
    refine ⟨.setField id slot old, ?_, keepSerial_made back⟩
    rw [Graph.restoring, found, Option.bind_some, holds, Option.map_some]
  | setParams id params =>
    obtain ⟨g', edited, same⟩ := keepSerial_iff.mp made
    cases same
    refine ⟨rfl, rfl, wf.setParams_reforms edited, fun grows => ?_⟩
    obtain ⟨procedure, found, back⟩ := wf.setParams_restored edited grows
    refine ⟨.setParams id procedure.params, ?_, keepSerial_made back⟩
    rw [Graph.restoring, found, Option.map_some]
  | _ => cases reshapes

-- Reshaping loses nothing, and what was only made larger can be had back as it was.
theorem reshaping_loses_nothing {w w' : Workspace} (reached : w.Reachable) {e : Edit} {reply : EditReply}
    (reshapes : e.reshapes = true) (made : w.apply e = .ok (w', reply)) :
    reply = .done ∧ w'.serial = w.serial ∧ w'.graph.vars = w.graph.vars ∧
      w'.graph.procedures = w.graph.proceduresAfter e ∧
      (∃ lost, w.graph.LosesNothing w'.graph (w.graph.shapeFor e) lost ∧
        ((∀ p params, e ≠ .setParams p params) → ∀ y ∈ lost, ∀ x, Relation.TransGen w.graph.Holds y x →
          Relation.TransGen w'.graph.Holds y x ∧ w'.graph.block? x = w.graph.block? x)) ∧
      (w.graph.Grows (w.graph.shapeFor e) →
        ∃ back, w.graph.restoring e = some back ∧ w'.apply back = .ok (w, .done)) := by
  have wf := reached.wellFormed
  have wf' := Workspace.apply_wellFormed wf made
  obtain ⟨done, serial, reforms, restored⟩ := Workspace.apply_reforms wf reshapes made
  obtain ⟨lost, reshaped⟩ := reforms.blocks
  refine ⟨done, serial, reforms.vars, reforms.procedures,
    ⟨lost, reshaped.losesNothing wf.linked wf'.linked, fun single y member x way => ?_⟩, restored⟩
  exact reshaped.below wf.linked (fun _ _ below known =>
    reshaped.plain_below wf.linked wf.built single member below known) way

-- One call as an argument of another, both of one procedure. Without its last parameter both lose an
-- argument; a further parameter comes and goes without a trace.
theorem nested_calls_keep_their_arguments :
    let w := (Editing.Session.runAll {} false
      [.edit (.createVariable "a"), .edit (.createVariable "b"), .edit (.createVariable "c"),
        .edit (.createProcedure "f" [⟨"v1"⟩, ⟨"v2"⟩] true),
        .edit (.addBlock (.call true)), .edit (.setField ⟨"b6"⟩ "NAME" (.procedureRef ⟨"p4"⟩)),
        .edit (.addBlock (.call true)), .edit (.setField ⟨"b7"⟩ "NAME" (.procedureRef ⟨"p4"⟩)),
        .edit (.attach ⟨"b6"⟩ (.input "ARG1") ⟨"b7"⟩),
        .edit (.addBlock .number), .edit (.attach ⟨"b7"⟩ (.input "ARG0") ⟨"b8"⟩),
        .edit (.addBlock .text), .edit (.attach ⟨"b7"⟩ (.input "ARG1") ⟨"b9"⟩)]).1.workspace
    let fewer : Edit := .setParams ⟨"p4"⟩ [⟨"v1"⟩]
    let more : Edit := .setParams ⟨"p4"⟩ [⟨"v1"⟩, ⟨"v2"⟩, ⟨"v3"⟩]
    (∃ w', w.apply fewer = .ok (w', .done) ∧
      w.graph.LosesNothing w'.graph (w.graph.shapeFor fewer) [⟨"b7"⟩, ⟨"b9"⟩]) ∧
    ∃ w', w.apply more = .ok (w', .done) ∧
      w'.apply (.setParams ⟨"p4"⟩ [⟨"v1"⟩, ⟨"v2"⟩]) = .ok (w, .done) := by
  have shrinks : ∀ (w : Workspace) (e : Edit) (lost : List BlockId), w.Reachable → e.reshapes = true →
      (w.apply e).toOption.map (·.1.graph.roots) = some (w.graph.roots ++ lost) →
      ∃ w', w.apply e = .ok (w', .done) ∧ w.graph.LosesNothing w'.graph (w.graph.shapeFor e) lost := by
    intro w e lost reached reshapes accepted
    cases made : w.apply e with
    | error _ => rw [made] at accepted; cases accepted
    | ok result =>
      obtain ⟨w', reply⟩ := result
      obtain ⟨rfl, _, _, _, ⟨lost', kept, _⟩, _⟩ := reshaping_loses_nothing reached reshapes made
      rw [made] at accepted
      have roots := kept.roots.symm.trans (Option.some.inj accepted)
      exact ⟨w', rfl, List.append_cancel_left roots ▸ kept⟩
  have returns : ∀ (w : Workspace) (e back : Edit), w.Reachable → e.reshapes = true →
      (w.apply e).isOk = true → (∀ b ∈ w.graph.blocks.values, ∀ shape ∈ w.graph.shapeFor e b,
        b.extent.items ≤ shape.extent.items ∧ (b.extent.hasElse = true → shape.extent.hasElse = true)) →
      w.graph.restoring e = some back →
      ∃ w', w.apply e = .ok (w', .done) ∧ w'.apply back = .ok (w, .done) := by
    intro w e back reached reshapes accepted grows same
    obtain ⟨⟨w', reply⟩, made⟩ := exists_of_isOk accepted
    obtain ⟨rfl, _, _, _, _, restored⟩ := reshaping_loses_nothing reached reshapes made
    obtain ⟨back', same', returned⟩ := restored fun x b shape found given =>
      grows b (Dict.mem_values.mpr ⟨_, found⟩) shape given
    cases same.symm.trans same'
    exact ⟨w', made, returned⟩
  have reached := Editing.Session.runAll_reachable false
  exact ⟨shrinks _ _ _ (reached _) rfl (by decide +kernel),
    returns _ _ _ (reached _) rfl (by decide +kernel) (by decide +kernel) (by decide +kernel)⟩

end Blockwork
