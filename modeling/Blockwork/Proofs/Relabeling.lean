import Mathlib
import Blockwork.Proofs.Trees

-- The same program under other ids, and laid out anew. Ids are given one for one, so
-- every look-up by a new id finds what the old id found.
namespace Blockwork

-- New ids for old ones, and where each block lies now.
structure Relabeling where
  block : BlockId ↪ BlockId
  variableId : VariableId ↪ VariableId
  procedure : ProcedureId ↪ ProcedureId
  position : Block → Option Position

def FieldValue.relabel (r : Relabeling) : FieldValue → FieldValue
  | .variableRef id => .variableRef (r.variableId id)
  | .procedureRef id => .procedureRef (r.procedure id)
  | value => value

def Variable.relabel (r : Relabeling) (v : Variable) : Variable := { v with id := r.variableId v.id }

def Procedure.relabel (r : Relabeling) (p : Procedure) : Procedure :=
  { p with
    id := r.procedure p.id
    params := p.params.map r.variableId
    definition := r.block p.definition }

namespace Block

def relabel (r : Relabeling) (block : Block) : Block :=
  { block with
    id := r.block block.id
    position := r.position block
    fields := block.fields.mapEntries fun _ value => value.relabel r
    inputs := block.inputs.mapEntries fun _ child => child.map r.block
    bodies := block.bodies.mapEntries fun _ child => child.map r.block
    next := block.next.map r.block
    parent := block.parent.map fun link => ⟨r.block link.parent, link.place⟩ }

variable (r : Relabeling) (block : Block)

@[simp] theorem relabel_kind : (block.relabel r).kind = block.kind := rfl

@[simp] theorem relabel_extent : (block.relabel r).extent = block.extent := rfl

theorem relabel_field (name : String) :
    (block.relabel r).fields.get? name = (block.fields.get? name).map (·.relabel r) :=
  Dict.get?_mapEntries _ _ name

@[simp] theorem relabel_choiceIn? (name : String) :
    (block.relabel r).choiceIn? name = block.choiceIn? name := by
  rw [choiceIn?, choiceIn?, relabel_field]
  cases block.fields.get? name with
  | none => rfl
  | some value => cases value <;> rfl

theorem relabel_variableIn? (name : String) :
    (block.relabel r).variableIn? name = (block.variableIn? name).map r.variableId := by
  rw [variableIn?, variableIn?, relabel_field]
  cases block.fields.get? name with
  | none => rfl
  | some value => cases value <;> rfl

theorem relabel_procedureIn? (name : String) :
    (block.relabel r).procedureIn? name = (block.procedureIn? name).map r.procedure := by
  rw [procedureIn?, procedureIn?, relabel_field]
  cases block.fields.get? name with
  | none => rfl
  | some value => cases value <;> rfl

theorem relabel_places :
    (block.relabel r).places = block.places.map fun p => (p.1, p.2.map r.block) := by
  simp [places, relabel, Dict.mapEntries, Function.comp_def]

theorem relabel_links : (block.relabel r).links = block.links.map fun p => (p.1, r.block p.2) := by
  rw [links, links, relabel_places, List.filterMap_map, List.map_filterMap]
  refine List.filterMap_congr fun p _ => ?_
  simp [Option.map_map, Function.comp_def]

end Block

-- A look-up does not mind new keys, if they are given one for one.
theorem lookup_mapped_keys {α β γ δ : Type} [DecidableEq α] [DecidableEq γ] {f : α → γ}
    (injective : Function.Injective f) (h : β → δ) (entries : List (α × β)) (key : α) :
    (entries.map fun e => (f e.1, h e.2)).lookup (f key) = (entries.lookup key).map h := by
  induction entries with
  | nil => rfl
  | cons head rest ih =>
    obtain ⟨k, v⟩ := head
    by_cases here : key = k
    · subst here
      simp
    · have apart : (f key == f k) = false := beq_eq_false_iff_ne.mpr fun same => here (injective same)
      have apart' : (key == k) = false := beq_eq_false_iff_ne.mpr here
      simp only [List.map_cons, List.lookup_cons, apart, apart', ih]

namespace Graph

def relabel (r : Relabeling) (g : Graph) : Graph where
  blocks := .ofList (g.blocks.entries.map fun e => ((r.block ⟨e.1⟩).text, e.2.relabel r))
  roots := g.roots.map r.block
  vars := g.vars.map (·.relabel r)
  procedures := g.procedures.map (·.relabel r)

variable (r : Relabeling) (g : Graph)

theorem relabel_key_injective : Function.Injective fun key : String => (r.block ⟨key⟩).text := by
  intro a b same
  have ids : r.block ⟨a⟩ = r.block ⟨b⟩ := by
    cases left : r.block ⟨a⟩
    cases right : r.block ⟨b⟩
    simpa [left, right] using same
  simpa using r.block.injective ids

theorem relabel_keys_nodup :
    ((g.blocks.entries.map fun e => ((r.block ⟨e.1⟩).text, e.2.relabel r)).map (·.1)).Nodup := by
  have keys := g.blocks.keys_nodup.map (relabel_key_injective r)
  rw [List.map_map] at keys ⊢
  exact keys

@[simp] theorem relabel_block? (id : BlockId) :
    (g.relabel r).block? (r.block id) = (g.block? id).map (·.relabel r) := by
  unfold block?
  rw [relabel, Dict.get?_ofList (g.relabel_keys_nodup r)]
  exact lookup_mapped_keys (relabel_key_injective r) (·.relabel r) g.blocks.entries id.text

theorem relabel_values : (g.relabel r).blocks.values.Perm (g.blocks.values.map (·.relabel r)) := by
  have listed := (Dict.ofList_perm (g.relabel_keys_nodup r)).map (·.2)
  rw [List.map_map] at listed
  rw [Dict.values, Dict.values, List.map_map]
  exact listed

@[simp] theorem relabel_size : (g.relabel r).size = g.size := by
  have listed := (g.relabel_values r).length_eq
  simpa [Dict.values, size, Dict.size] using listed

theorem relabel_procedureWith? (id : ProcedureId) :
    (g.relabel r).procedureWith? (r.procedure id) = (g.procedureWith? id).map (·.relabel r) := by
  unfold procedureWith?
  rw [relabel, List.find?_map]
  congr 2
  funext p
  exact Bool.eq_iff_iff.mpr (by simp [Procedure.relabel])

theorem relabel_branchesTo (depth : Nat) (block : Block) :
    (g.relabel r).branchesTo depth (block.relabel r) = block.links.filterMap fun link =>
      (g.block? link.2).map fun child => (link.1, (g.relabel r).treeTo depth (child.relabel r)) := by
  unfold branchesTo
  rw [Block.relabel_links, List.filterMap_map]
  refine List.filterMap_congr fun link _ => ?_
  simp only [Function.comp_apply, relabel_block?, Option.map_map]
  rfl

end Graph
end Blockwork
