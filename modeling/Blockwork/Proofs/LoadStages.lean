import Mathlib
import Blockwork.Proofs.Placement
import Blockwork.Proofs.SavedTables
import Blockwork.Proofs.SkippedSlots

-- What the edits of a load do to the blocks of a workspace, told for any load that succeeds.
-- First blocks are added, then they get their extents, and at last their links and positions.
namespace Blockwork

-- What a load says about a block, its fields apart.
structure Sketch where
  kind : Kind
  extent : Extent
  position : Option Position
  parent : Option ParentLink

def Block.sketch (block : Block) : Sketch := ⟨block.kind, block.extent, block.position, block.parent⟩

def Sketch.new (kind : Kind) : Sketch := ⟨kind, kind.defaultExtent, none, none⟩

namespace Graph

def sketch (g : Graph) (x : BlockId) : Option Sketch := (g.block? x).map Block.sketch

variable {g g' : Graph}

theorem sketch_of_block {x : BlockId} {block : Block} (found : g.block? x = some block) :
    g.sketch x = some block.sketch := by rw [sketch, found, Option.map_some]

-- No block hangs at another one.
def Loose (g : Graph) : Prop := ∀ x s, g.sketch x = some s → s.parent = none

-- A graph without links is the same after a reshaping, but for the extent of one block.
theorem sketch_reshape {id : BlockId} {block : Block} (loose : g.Loose)
    (found : g.block? id = some block) (extent : Extent) (x : BlockId) :
    (g.reshape id extent).sketch x
      = (g.sketch x).map fun s => if x = id then { s with extent := extent } else s := by
  unfold sketch
  rw [block?_reshape found, Option.map_map, Option.map_map]
  cases there : g.block? x with
  | none => rfl
  | some b =>
    have free : b.parent = none := loose x _ (sketch_of_block there)
    simp only [Option.map_some, Function.comp_apply, Option.some.injEq]
    split <;> split <;> simp [Block.sketch, Block.reshape, free]

theorem sketch_addRoot (block : Block) (x : BlockId) :
    (g.addRoot block).sketch x = if x = block.id then some block.sketch else g.sketch x := by
  rw [sketch, block?_addRoot]
  split <;> rfl

end Graph

namespace Snapshot

open Blockwork.Graph

theorem editAll_append_eq_ok {first second : List Edit} {w w' : Workspace} :
    editAll w (first ++ second) = .ok w' ↔
      ∃ mid, editAll w first = .ok mid ∧ editAll mid second = .ok w' := by
  constructor
  · intro made
    induction first generalizing w with
    | nil => exact ⟨w, rfl, made⟩
    | cons e rest ih =>
      obtain ⟨next, step, later⟩ := bind_eq_ok.mp made
      obtain ⟨mid, before, after⟩ := ih later
      exact ⟨mid, bind_eq_ok.mpr ⟨next, step, before⟩, after⟩
  · rintro ⟨mid, before, after⟩
    rw [editAll_append before, after]

-- Blocks have been added under ids that were free, and nothing else has changed.
structure Adds (w w' : Workspace) (added : List (BlockId × Kind)) : Prop where
  distinct : (added.map (·.1)).Nodup
  absent : ∀ e ∈ added, w.graph.sketch e.1 = none
  present : ∀ e ∈ added, w'.graph.sketch e.1 = some (.new e.2)
  kept : ∀ x, x ∉ added.map (·.1) → w'.graph.sketch x = w.graph.sketch x

namespace Adds

variable {w mid w' : Workspace} {first second added : List (BlockId × Kind)}

theorem nothing (same : ∀ x, w'.graph.sketch x = w.graph.sketch x) : Adds w w' [] :=
  ⟨List.nodup_nil, by simp, by simp, fun x _ => same x⟩

theorem one {id : BlockId} {kind : Kind} (absent : w.graph.sketch id = none)
    (there : ∀ x, w'.graph.sketch x = if x = id then some (.new kind) else w.graph.sketch x) :
    Adds w w' [(id, kind)] := by
  refine ⟨by simp, by simpa using absent, by simp [there], fun x outside => ?_⟩
  rw [there, if_neg (by simpa using outside)]

theorem append (before : Adds w mid first) (after : Adds mid w' second) : Adds w w' (first ++ second) := by
  have apart : ∀ e ∈ first, e.1 ∉ second.map (·.1) := by
    intro e member again
    obtain ⟨other, later, same⟩ := List.mem_map.mp again
    have free := after.absent other later
    rw [same, before.present e member] at free
    cases free
  refine ⟨?_, ?_, ?_, ?_⟩
  · rw [List.map_append, List.nodup_append]
    refine ⟨before.distinct, after.distinct, fun id listed other later same => ?_⟩
    obtain ⟨e, member, rfl⟩ := List.mem_map.mp listed
    exact apart e member (same ▸ later)
  · intro e member
    rcases List.mem_append.mp member with early | late
    · exact before.absent e early
    · by_cases listed : e.1 ∈ first.map (·.1)
      · obtain ⟨other, early, same⟩ := List.mem_map.mp listed
        exact absurd (List.mem_map_of_mem late) (same ▸ apart other early)
      · rw [← before.kept e.1 listed]
        exact after.absent e late
  · intro e member
    rcases List.mem_append.mp member with early | late
    · rw [after.kept e.1 (apart e early)]
      exact before.present e early
    · exact after.present e late
  · intro x outside
    rw [List.map_append, List.mem_append, not_or] at outside
    rw [after.kept x outside.2, before.kept x outside.1]

theorem perm (adds : Adds w w' added) {others : List (BlockId × Kind)} (same : added.Perm others) :
    Adds w w' others := by
  refine ⟨(same.map _).nodup_iff.mp adds.distinct, fun e member => adds.absent e (same.mem_iff.mpr member),
    fun e member => adds.present e (same.mem_iff.mpr member), fun x outside => adds.kept x ?_⟩
  exact fun listed => outside ((same.map _).mem_iff.mp listed)

end Adds

theorem addBlockAs_adds {w w' : Workspace} {id : BlockId} {kind : Kind}
    (made : edit w (.addBlockAs id kind) = .ok w') : Adds w w' [(id, kind)] := by
  obtain ⟨reply, applied⟩ := edit_eq_ok.mp made
  obtain ⟨g, added, rfl⟩ := Workspace.keepSerial_eq_ok applied
  obtain ⟨_, absent, same⟩ := addBlock_eq_ok.mp added
  refine .one (by rw [sketch, absent]; rfl) fun x => ?_
  rw [same, sketch_addRoot]
  rfl

theorem createProcedureAs_adds {w w' : Workspace} {id : ProcedureId} {definition : BlockId}
    {name : String} {params : List VariableId} {returns : Bool}
    (made : edit w (.createProcedureAs id definition name params returns) = .ok w') :
    Adds w w' [(definition, .definition returns)] := by
  obtain ⟨reply, applied⟩ := edit_eq_ok.mp made
  obtain ⟨g, created, rfl⟩ := Workspace.keepSerial_eq_ok applied
  obtain ⟨_, absent, _, _, same⟩ := createProcedure_eq_ok.mp created
  refine .one (by rw [sketch, absent]; rfl) fun x => ?_
  rw [same]
  exact sketch_addRoot _ x

-- The tables. Variables leave the blocks as they are.
theorem createVariableAs_sketch {w w' : Workspace} {id : VariableId} {name : String}
    (made : edit w (.createVariableAs id name) = .ok w') (x : BlockId) :
    w'.graph.sketch x = w.graph.sketch x := by
  obtain ⟨reply, applied⟩ := edit_eq_ok.mp made
  obtain ⟨g, created, rfl⟩ := Workspace.keepSerial_eq_ok applied
  obtain ⟨_, _, _, same⟩ := createVariable_eq_ok.mp created
  rw [same]
  rfl

theorem createVariables_sketch {vars : List SavedVariable} {w w' : Workspace}
    (made : editAll w (vars.map fun v => .createVariableAs ⟨v.id⟩ v.name) = .ok w') (x : BlockId) :
    w'.graph.sketch x = w.graph.sketch x := by
  induction vars generalizing w with
  | nil =>
    cases made
    rfl
  | cons v rest ih =>
    obtain ⟨mid, first, later⟩ := bind_eq_ok.mp made
    exact (ih later).trans (createVariableAs_sketch first x)

theorem resolveParam_sketch {w w' : Workspace} {param : SavedParam} {id : VariableId}
    (made : resolveParam w param = .ok (w', id)) (x : BlockId) :
    w'.graph.sketch x = w.graph.sketch x := by
  unfold resolveParam at made
  split at made
  · cases made
    rfl
  · split at made
    · cases made
      rfl
    · split at made
      · obtain ⟨mid, first, later⟩ := bind_eq_ok.mp made
        cases later
        exact createVariableAs_sketch first x
      · obtain ⟨_, _, same⟩ := Workspace.makeVariable_iff.mp (accepted_eq_ok.mp made)
        cases same
        rfl

theorem resolveParams_sketch {params : List SavedParam} {w w' : Workspace} {ids : List VariableId}
    (made : resolveParams w params = .ok (w', ids)) (x : BlockId) :
    w'.graph.sketch x = w.graph.sketch x := by
  induction params generalizing w ids with
  | nil =>
    cases made
    rfl
  | cons param rest ih =>
    obtain ⟨⟨mid, first⟩, resolved, later⟩ := bind_eq_ok.mp made
    obtain ⟨⟨last, others⟩, remaining, same⟩ := bind_eq_ok.mp later
    cases same
    exact (ih remaining).trans (resolveParam_sketch resolved x)

-- The block that a saved definition becomes.
def definedBy (definition : SavedBlock) : BlockId × Kind :=
  (⟨definition.record.id⟩, .definition (returnsValue definition))

theorem declareNative_adds {unlisted : List (String × SavedBlock)} {w w' : Workspace}
    (made : declareNative w unlisted = .ok w') : Adds w w' (unlisted.map (definedBy ·.2)) := by
  induction unlisted generalizing w with
  | nil =>
    cases made
    exact .nothing fun x => rfl
  | cons head rest ih =>
    obtain ⟨name, definition⟩ := head
    rw [declareNative] at made
    simp only at made
    split at made
    · cases made
    · obtain ⟨⟨mid, params⟩, resolved, later⟩ := bind_eq_ok.mp made
      obtain ⟨last, created, remaining⟩ := bind_eq_ok.mp later
      have before : Adds w mid [] := .nothing (resolveParams_sketch resolved)
      exact before.append ((createProcedureAs_adds created).append (ih remaining))

theorem perm_filter_lookup {bound : List (String × SavedBlock)} {id : String} {definition : SavedBlock}
    (distinct : (bound.map (·.1)).Nodup) (found : bound.lookup id = some definition) :
    ((id, definition) :: bound.filter (·.1 != id)).Perm bound := by
  have only : bound.filter (·.1 == id) = [(id, definition)] := by
    induction bound with
    | nil => cases found
    | cons entry rest ih =>
      obtain ⟨key, value⟩ := entry
      obtain ⟨new, distinct⟩ := List.nodup_cons.mp distinct
      by_cases same : key = id
      · subst same
        have none : rest.filter (·.1 == key) = [] := by
          apply List.filter_eq_nil_iff.mpr
          intro other member equal
          exact new (List.mem_map.mpr ⟨other, member, beq_iff_eq.mp equal⟩)
        have here : value = definition := by simpa using found
        simp [none, here]
      · have later : rest.lookup id = some definition := by
          simpa [List.lookup_cons, beq_eq_false_iff_ne.mpr (Ne.symm same)] using found
        simp [same, ih distinct later]
  have parts := List.filter_append_perm (fun entry : String × SavedBlock => entry.1 == id) bound
  rw [only] at parts
  exact parts

theorem declareListed_adds {listed : List SavedProcedure} {bound : List (String × SavedBlock)}
    {w w' : Workspace} (distinct : (bound.map (·.1)).Nodup) (made : declareListed bound w listed = .ok w') :
    Adds w w' (bound.map (definedBy ·.2)) := by
  induction listed generalizing bound w with
  | nil =>
    cases bound with
    | nil =>
      cases made
      exact .nothing fun x => rfl
    | cons head rest => cases made
  | cons procedure rest ih =>
    rw [declareListed] at made
    split at made
    · exact ih distinct made
    · next definition found =>
      obtain ⟨mid, created, later⟩ := bind_eq_ok.mp made
      have fewer : ((bound.filter (·.1 != procedure.id)).map (·.1)).Nodup :=
        distinct.sublist (List.filter_sublist.map _)
      have both := (createProcedureAs_adds created).append (ih fewer later)
      exact both.perm ((perm_filter_lookup distinct found).map fun e : String × SavedBlock => definedBy e.2)

theorem sortDefinitions_perm {found : List SavedBlock} {seen : List String} {sorted : Definitions}
    (made : sortDefinitions seen found = .ok sorted) :
    (sorted.bound.map (·.2) ++ sorted.native.map (·.2)).Perm found := by
  induction found generalizing seen sorted with
  | nil =>
    cases made
    exact .nil
  | cons definition rest ih =>
    rw [sortDefinitions] at made
    split at made
    · split at made
      · cases made
      · split at made
        · cases made
        · obtain ⟨others, sortedRest, rfl⟩ := map_eq_ok.mp made
          exact (ih sortedRest).cons definition
    · obtain ⟨others, sortedRest, rfl⟩ := map_eq_ok.mp made
      exact List.perm_middle.trans ((ih sortedRest).cons definition)
    · cases made

theorem declareTables_adds {form : Form} {w : Workspace} (made : declareTables form = .ok w) :
    Adds .empty w ((form.blocks.flatMap definitions).map definedBy) := by
  obtain ⟨start, first, later⟩ := bind_eq_ok.mp made
  obtain ⟨sorted, divided, later⟩ := bind_eq_ok.mp later
  obtain ⟨listed, second, third⟩ := bind_eq_ok.mp later
  obtain ⟨_, distinct, _⟩ := sortDefinitions_count divided
  have before : Adds .empty start [] := .nothing (createVariables_sketch first)
  have all := before.append ((declareListed_adds distinct second).append (declareNative_adds third))
  refine all.perm (List.Perm.trans ?_ ((sortDefinitions_perm divided).map definedBy))
  rw [List.map_append, List.map_map, List.map_map]
  exact .refl _

-- The blocks of a plan that do not come with a procedure.
def plannedBlock (planned : Planned) : BlockId × Kind := (planned.id, planned.kind)

theorem addEdits_adds {planned : List Planned} {w w' : Workspace}
    (made : editAll w (planned.flatMap Planned.addEdits) = .ok w') :
    Adds w w' ((planned.filter fun p => !p.kind.isDefinition).map plannedBlock) := by
  induction planned generalizing w with
  | nil =>
    cases made
    exact .nothing fun x => rfl
  | cons p rest ih =>
    rw [List.flatMap_cons] at made
    obtain ⟨mid, first, later⟩ := editAll_append_eq_ok.mp made
    rw [Planned.addEdits] at first
    cases defines : p.kind.isDefinition with
    | true =>
      rw [defines, if_pos rfl] at first
      cases first
      simpa [defines] using ih later
    | false =>
      rw [defines, if_neg Bool.false_ne_true] at first
      obtain ⟨last, added, done⟩ := bind_eq_ok.mp first
      cases done
      have both := (addBlockAs_adds added).append (ih later)
      simpa [defines, plannedBlock] using both

-- The edits after that. What each of them does to a block is known from the block and the tables.
def redraw (g : Graph) (x : BlockId) (s : Sketch) : Edit → Sketch
  | .setItemCount id items => if x = id then { s with extent.items := items } else s
  | .setHasElse id hasElse => if x = id then { s with extent.hasElse := hasElse } else s
  | .setField id _ value =>
    if x = id ∧ s.kind.isCall then { s with extent := { items := plannedArity g [("NAME", value)] } } else s
  | .attach parent place child => if x = child then { s with parent := some ⟨parent, place⟩ } else s
  | .setPosition id position => if x = id then { s with position := some position } else s
  | _ => s

def redrawAll (g : Graph) (edits : List Edit) (x : BlockId) (s : Sketch) : Sketch :=
  edits.foldl (redraw g x) s

-- Edits that change the extent of a block, and edits that move blocks and lay them out.
def shapes : Edit → Bool
  | .setItemCount .. | .setHasElse .. | .setField .. => true
  | _ => false

def arranges : Edit → Bool
  | .attach .. | .setPosition .. | .reorderRoot .. => true
  | _ => false

theorem plannedArity_tables {g g' : Graph} (same : g'.procedures = g.procedures)
    (fields : List (String × FieldValue)) : plannedArity g' fields = plannedArity g fields := by
  unfold plannedArity procedureWith?
  rw [same]

-- A field of a call is the reference to its procedure, and only that has an arity.
theorem arity?_admitted {g : Graph} {block : Block} {name : String} {shape : FieldShape} {value : FieldValue}
    (sort : block.kind.slot? block.extent name = some (.field shape)) (admitted : g.Admits block shape value) :
    g.arity? shape value
      = if block.kind.isCall then some (plannedArity g [("NAME", value)]) else none := by
  cases calls : block.kind.isCall with
  | true =>
    obtain ⟨rfl, rfl⟩ := (Kind.bound_slot (.inr calls)).mp sort
    cases value with
    | procedureRef id =>
      obtain ⟨_, procedure, found, _⟩ := admitted
      simp [arity?, plannedArity, found]
    | empty => rfl
    | _ => exact admitted.elim
  | false =>
    cases shape with
    | procedureRef =>
      have defines := (Kind.procedureRef_slot sort).resolve_right (by simp [calls])
      cases value with
      | procedureRef id => simp [admitted.1] at defines
      | empty => simp [show block.kind.isDefinition = false from admitted] at defines
      | _ => exact admitted.elim
    | _ => cases value <;> first | rfl | exact admitted.elim

theorem sketch_update (g : Graph) (id : BlockId) {f : Block → Block} (draw : Sketch → Sketch)
    (draws : ∀ b, (f b).sketch = draw b.sketch) (x : BlockId) :
    (g.update id f).sketch x = (g.sketch x).map fun s => if x = id then draw s else s := by
  rw [sketch, block?_update, sketch]
  cases g.block? x with
  | none => split <;> rfl
  | some b =>
    split
    · exact congrArg some (draws b)
    · rfl

-- An edit of one block, told by what it does there.
theorem redraw_at {g : Graph} {id : BlockId} {block : Block} (found : g.block? id = some block)
    (draw : Sketch → Sketch) (e : Edit) (here : redraw g id block.sketch e = draw block.sketch)
    (apart : ∀ x s, x ≠ id → redraw g x s e = s) (x : BlockId) :
    (g.sketch x).map (fun s => if x = id then draw s else s)
      = (g.sketch x).map fun s => redraw g x s e := by
  refine Option.map_congr fun s known => ?_
  by_cases same : x = id
  · subst same
    rw [sketch_of_block found] at known
    cases known
    rw [if_pos rfl, here]
  · rw [if_neg same, apart x s same]

theorem shape_step {w w' : Workspace} {e : Edit} (shaping : shapes e) (loose : w.graph.Loose)
    (made : edit w e = .ok w') (x : BlockId) :
    w'.graph.sketch x = (w.graph.sketch x).map fun s => redraw w.graph x s e := by
  obtain ⟨reply, applied⟩ := edit_eq_ok.mp made
  cases e with
  | setItemCount id items =>
    obtain ⟨g, edited, rfl⟩ := Workspace.keepSerial_eq_ok applied
    obtain ⟨block, found, _, _, same⟩ := setItemCount_eq_ok.mp edited
    rw [same, sketch_reshape loose found]
    refine redraw_at found _ (.setItemCount id items) ?_ (fun x s other => if_neg other) x
    exact if_pos rfl
  | setHasElse id hasElse =>
    obtain ⟨g, edited, rfl⟩ := Workspace.keepSerial_eq_ok applied
    obtain ⟨block, found, _, same⟩ := setHasElse_eq_ok.mp edited
    rw [same, sketch_reshape loose found]
    refine redraw_at found _ (.setHasElse id hasElse) ?_ (fun x s other => if_neg other) x
    exact if_pos rfl
  | setField id name value =>
    obtain ⟨g, edited, rfl⟩ := Workspace.keepSerial_eq_ok applied
    obtain ⟨block, shape, found, sort, admitted, same⟩ := setField_eq_ok.mp edited
    have wrote := sketch_update w.graph id (f := fun b => { b with fields := b.fields.insert name value })
      (fun s => s) fun _ => rfl
    simp only [ite_self, Option.map_id'] at wrote
    have apart : ∀ x s, x ≠ id → redraw w.graph x s (.setField id name value) = s :=
      fun x s other => if_neg fun both => other both.1
    rw [same, written, arity?_admitted sort admitted]
    cases calls : block.kind.isCall with
    | true =>
      simp only [if_true]
      rw [sketch_reshape (fun y s known => loose y s (wrote y ▸ known))
        (by rw [block?_update, if_pos rfl, found, Option.map_some]), wrote]
      refine redraw_at found _ (.setField id name value) ?_ apart x
      exact if_pos ⟨rfl, calls⟩
    | false =>
      have stays : redraw w.graph id block.sketch (.setField id name value) = block.sketch :=
        if_neg fun both => by simp [Block.sketch, calls] at both
      simp only [Bool.false_eq_true, if_false]
      rw [wrote, ← redraw_at found (fun s => s) _ stays apart x]
      simp
  | _ => cases shaping

theorem arrange_step {w w' : Workspace} {e : Edit} (arranging : arranges e)
    (made : edit w e = .ok w') (g : Graph) (x : BlockId) :
    w'.graph.sketch x = (w.graph.sketch x).map fun s => redraw g x s e := by
  obtain ⟨reply, applied⟩ := edit_eq_ok.mp made
  cases e with
  | attach parent place child =>
    obtain ⟨g', edited, rfl⟩ := Workspace.keepSerial_eq_ok applied
    obtain ⟨_, same⟩ := attach_eq_ok.mp edited
    rw [same, sketch, attached_rewired, sketch, Option.map_map, Option.map_map]
    refine Option.map_congr fun b known => ?_
    simp only [Function.comp_apply, redraw]
    split <;> rfl
  | setPosition id position =>
    obtain ⟨g', edited, rfl⟩ := Workspace.keepSerial_eq_ok applied
    obtain ⟨_, same⟩ := setPosition_eq_ok.mp edited
    rw [same, sketch_update _ id (fun s => { s with position := some position }) fun _ => rfl]
    rfl
  | reorderRoot id index =>
    obtain ⟨g', edited, rfl⟩ := Workspace.keepSerial_eq_ok applied
    obtain ⟨_, _, same⟩ := reorderRoot_eq_ok.mp edited
    rw [same]
    exact Option.map_id_apply.symm
  | _ => cases arranging

theorem redraw_tables {g g' : Graph} (same : g'.procedures = g.procedures) (x : BlockId) (s : Sketch)
    (e : Edit) : redraw g' x s e = redraw g x s e := by
  cases e with
  | setField id name value => simp only [redraw, plannedArity_tables same]
  | _ => rfl

theorem shape_run {g : Graph} {edits : List Edit} (shaping : ∀ e ∈ edits, shapes e) {w w' : Workspace}
    (tables : w.graph.procedures = g.procedures) (loose : w.graph.Loose) (made : editAll w edits = .ok w')
    (x : BlockId) : w'.graph.sketch x = (w.graph.sketch x).map (redrawAll g edits x) := by
  induction edits generalizing w with
  | nil =>
    cases made
    exact Option.map_id_apply.symm
  | cons e rest ih =>
    rw [List.forall_mem_cons] at shaping
    obtain ⟨mid, first, later⟩ := bind_eq_ok.mp made
    have step := shape_step shaping.1 loose first
    have still : mid.graph.procedures = g.procedures := by
      obtain ⟨reply, applied⟩ := edit_eq_ok.mp first
      exact (apply_spares (by cases e <;> first | rfl | cases shaping.1) applied).1.trans tables
    have unlinked : mid.graph.Loose := by
      intro y s known
      rw [step, Option.map_eq_some_iff] at known
      obtain ⟨old, before, rfl⟩ := known
      have free := loose y old before
      cases e with
      | setItemCount | setHasElse | setField =>
        simp only [redraw]
        split <;> exact free
      | _ => cases shaping.1
    rw [ih shaping.2 still unlinked later, step, Option.map_map]
    refine Option.map_congr fun s _ => ?_
    rw [Function.comp_apply, redraw_tables tables]
    rfl

theorem arrange_run {edits : List Edit} (arranging : ∀ e ∈ edits, arranges e) {w w' : Workspace}
    (made : editAll w edits = .ok w') (g : Graph) (x : BlockId) :
    w'.graph.sketch x = (w.graph.sketch x).map (redrawAll g edits x) := by
  induction edits generalizing w with
  | nil =>
    cases made
    exact Option.map_id_apply.symm
  | cons e rest ih =>
    rw [List.forall_mem_cons] at arranging
    obtain ⟨mid, first, later⟩ := bind_eq_ok.mp made
    rw [ih arranging.2 later, arrange_step arranging.1 first g, Option.map_map]
    rfl

-- What the edits come to at one block.
theorem redrawAll_append (g : Graph) (first second : List Edit) (x : BlockId) (s : Sketch) :
    redrawAll g (first ++ second) x s = redrawAll g second x (redrawAll g first x s) :=
  List.foldl_append

-- Each planned block is changed by its own edits only.
theorem redrawAll_own {g : Graph} {edits : Planned → List Edit} {planned : List Planned}
    (distinct : (planned.map (·.id)).Nodup)
    (apart : ∀ q : Planned, ∀ x s, q.id ≠ x → redrawAll g (edits q) x s = s) {p : Planned}
    (member : p ∈ planned) (s : Sketch) :
    redrawAll g (planned.flatMap edits) p.id s = redrawAll g (edits p) p.id s := by
  have others : ∀ rest : List Planned, p.id ∉ rest.map (·.id) → ∀ s,
      redrawAll g (rest.flatMap edits) p.id s = s := by
    intro rest outside
    induction rest with
    | nil => exact fun s => rfl
    | cons q rest ih =>
      intro s
      rw [List.map_cons, List.mem_cons, not_or] at outside
      rw [List.flatMap_cons, redrawAll_append, apart q p.id s (Ne.symm outside.1), ih outside.2]
  induction planned generalizing s with
  | nil => cases member
  | cons q rest ih =>
    obtain ⟨new, distinct⟩ := List.nodup_cons.mp distinct
    rw [List.flatMap_cons, redrawAll_append]
    rcases List.mem_cons.mp member with rfl | later
    · exact others rest new _
    · have different : q.id ≠ p.id := fun same => new (List.mem_map.mpr ⟨p, later, same.symm⟩)
      rw [apart q p.id s different, ih distinct later]

-- A part of a block that some of the edits set, each of them for another block.
def setAt {β : Type} (x : BlockId) (old : Option β) : Option (BlockId × β) → Option β
  | some (id, b) => if x = id then some b else old
  | none => old

theorem redrawAll_part {β : Type} {g : Graph} {part : Sketch → Option β} {sets : Edit → Option (BlockId × β)}
    {x : BlockId} (steps : ∀ s e, part (redraw g x s e) = setAt x (part s) (sets e))
    {edits : List Edit} (distinct : ((edits.filterMap sets).map (·.1)).Nodup) (s : Sketch) :
    (∀ b, (x, b) ∈ edits.filterMap sets → part (redrawAll g edits x s) = some b) ∧
      (x ∉ (edits.filterMap sets).map (·.1) → part (redrawAll g edits x s) = part s) := by
  induction edits generalizing s with
  | nil => exact ⟨by simp, fun _ => rfl⟩
  | cons e rest ih =>
    have step := steps s e
    cases setting : sets e with
    | none =>
      rw [setting] at step
      rw [List.filterMap_cons, setting] at distinct ⊢
      have both := ih distinct (redraw g x s e)
      rw [step] at both
      exact both
    | some entry =>
      rw [setting] at step
      rw [List.filterMap_cons, setting] at distinct ⊢
      obtain ⟨new, distinct⟩ := List.nodup_cons.mp distinct
      obtain ⟨set, unset⟩ := ih distinct (redraw g x s e)
      refine ⟨fun b member => ?_, fun outside => ?_⟩
      · rcases List.mem_cons.mp member with here | later
        · subst here
          exact (unset new).trans (step.trans (if_pos rfl))
        · exact set b later
      · rw [List.map_cons, List.mem_cons, not_or] at outside
        exact (unset outside.2).trans (step.trans (if_neg outside.1))

def linkSet : Edit → Option (BlockId × ParentLink)
  | .attach parent place child => some (child, ⟨parent, place⟩)
  | _ => none

def positionSet : Edit → Option (BlockId × Position)
  | .setPosition id position => some (id, position)
  | _ => none

theorem redraw_parent (g : Graph) (x : BlockId) (s : Sketch) (e : Edit) :
    (redraw g x s e).parent = setAt x s.parent (linkSet e) := by
  cases e with
  | setItemCount | setHasElse | setField | attach | setPosition =>
    simp only [redraw, linkSet, setAt]
    split <;> rfl
  | _ => rfl

theorem redraw_position (g : Graph) (x : BlockId) (s : Sketch) (e : Edit) :
    (redraw g x s e).position = setAt x s.position (positionSet e) := by
  cases e with
  | setItemCount | setHasElse | setField | attach | setPosition =>
    simp only [redraw, positionSet, setAt]
    split <;> rfl
  | _ => rfl

theorem redrawAll_arranges (g : Graph) {edits : List Edit} (arranging : ∀ e ∈ edits, arranges e)
    (x : BlockId) (s : Sketch) :
    (redrawAll g edits x s).kind = s.kind ∧ (redrawAll g edits x s).extent = s.extent := by
  induction edits generalizing s with
  | nil => exact ⟨rfl, rfl⟩
  | cons e rest ih =>
    rw [List.forall_mem_cons] at arranging
    have step : (redraw g x s e).kind = s.kind ∧ (redraw g x s e).extent = s.extent := by
      cases e with
      | attach | setPosition =>
        simp only [redraw]
        split <;> exact ⟨rfl, rfl⟩
      | reorderRoot => exact ⟨rfl, rfl⟩
      | _ => cases arranging.1
    obtain ⟨kind, extent⟩ := ih arranging.2 (redraw g x s e)
    exact ⟨kind.trans step.1, extent.trans step.2⟩

-- The roots are put into order one after another.
theorem order_run {tops : List BlockId} {w w' : Workspace} {before : List BlockId}
    (ahead : before <+: w.graph.roots) (distinct : (before ++ tops).Nodup)
    (made : editAll w ((tops.zipIdx before.length).map fun e => .reorderRoot e.1 e.2) = .ok w') :
    before ++ tops <+: w'.graph.roots := by
  induction tops generalizing w before with
  | nil =>
    cases made
    rwa [List.append_nil]
  | cons id rest ih =>
    obtain ⟨mid, first, later⟩ := bind_eq_ok.mp made
    obtain ⟨reply, applied⟩ := edit_eq_ok.mp first
    obtain ⟨g, edited, same⟩ := Workspace.keepSerial_eq_ok applied
    obtain ⟨_, listed, moved⟩ := reorderRoot_eq_ok.mp edited
    obtain ⟨after, split⟩ := ahead
    have outside : id ∉ before := by
      rw [List.nodup_append] at distinct
      exact fun inside => distinct.2.2 id inside id List.mem_cons_self rfl
    have roots : mid.graph.roots = (before ++ [id]) ++ after.erase id := by
      rw [same, moved, ← split, List.erase_append_right _ outside]
      simp
    have again : before ++ id :: rest = (before ++ [id]) ++ rest := by simp
    rw [again] at distinct ⊢
    refine ih ⟨_, roots.symm⟩ distinct ?_
    rw [List.length_append]
    exact later

end Snapshot
end Blockwork
