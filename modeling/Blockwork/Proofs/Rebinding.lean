import Mathlib
import Blockwork.Proofs.SourceIdentity

-- Procedures under other ids, with everything that refers to them. As long as no two
-- of them come to share an id, the rules hold as before and so does the source.
namespace Blockwork

def FieldValue.rebind (f : ProcedureId → ProcedureId) : FieldValue → FieldValue
  | .procedureRef id => .procedureRef (f id)
  | value => value

def Block.rebind (f : ProcedureId → ProcedureId) (block : Block) : Block :=
  { block with fields := block.fields.mapEntries fun _ value => value.rebind f }

def Procedure.rebind (f : ProcedureId → ProcedureId) (p : Procedure) : Procedure := { p with id := f p.id }

def Graph.rebind (f : ProcedureId → ProcedureId) (g : Graph) : Graph :=
  { g with
    blocks := g.blocks.mapEntries fun _ block => block.rebind f
    procedures := g.procedures.map (·.rebind f) }

variable {f : ProcedureId → ProcedureId}

namespace Block

theorem rebind_field (f : ProcedureId → ProcedureId) (block : Block) (name : String) :
    (block.rebind f).fields.get? name = (block.fields.get? name).map (·.rebind f) :=
  Dict.get?_mapEntries _ _ name

theorem rebind_fits {value : FieldValue} {shape : FieldShape} (fits : value.Fits shape) :
    (value.rebind f).Fits shape := by
  cases value with
  | procedureRef id =>
    cases shape with
    | procedureRef => trivial
    | _ => exact fits.elim
  | _ => exact fits

theorem Proper.rebind {block : Block} (proper : block.Proper) : (block.rebind f).Proper where
  shaped := by
    refine ⟨fun name => ?_, proper.shaped.inputs, proper.shaped.bodies⟩
    rw [rebind_field, Option.isSome_map]
    exact proper.shaped.fields name
  fitting := by
    intro name value shape holds sort
    rw [rebind_field, Option.map_eq_some_iff] at holds
    obtain ⟨old, held, rfl⟩ := holds
    exact rebind_fits (proper.fitting name old shape held sort)
  allowed := proper.allowed

-- A field that refers to something refers to what the old field referred to.
theorem rebind_variableRef {value : FieldValue} {v : VariableId}
    (same : value.rebind f = .variableRef v) : value = .variableRef v := by
  cases value <;> first | exact same | cases same

theorem rebind_procedureRef {value : FieldValue} {id : ProcedureId}
    (same : value.rebind f = .procedureRef id) : ∃ old, value = .procedureRef old ∧ f old = id := by
  cases value with
  | procedureRef old => exact ⟨old, rfl, by simpa [FieldValue.rebind] using same⟩
  | _ => cases same

end Block

theorem Content.Sound.rebind {vars : List Variable} {procedures : List Procedure} {block : Block}
    (sound : block.content.Sound vars procedures block.id) :
    (block.rebind f).content.Sound vars (procedures.map (·.rebind f)) block.id where
  reads := by
    intro name v holds
    obtain ⟨old, held, same⟩ := Option.map_eq_some_iff.mp ((block.rebind_field f name).symm.trans holds)
    exact sound.reads name v (Block.rebind_variableRef same ▸ held)
  serves := by
    intro name id holds
    obtain ⟨value, held, same⟩ := Option.map_eq_some_iff.mp ((block.rebind_field f name).symm.trans holds)
    obtain ⟨old, known, renamed⟩ := Block.rebind_procedureRef same
    obtain ⟨p, listed, own, serves⟩ := sound.serves name old (known ▸ held)
    exact ⟨p.rebind f, List.mem_map_of_mem listed, by rw [← renamed, ← own]; rfl, serves⟩
  unbound := by
    intro calls holds
    obtain ⟨value, held, same⟩ := Option.map_eq_some_iff.mp ((block.rebind_field f "NAME").symm.trans holds)
    cases value with
    | empty => exact sound.unbound calls held
    | _ => cases same
  bound := by
    intro defines
    obtain ⟨id, held⟩ := sound.bound defines
    have held : block.fields.get? "NAME" = some (.procedureRef id) := held
    refine ⟨f id, (block.rebind_field f "NAME").trans ?_⟩
    rw [held]
    rfl

namespace Graph

variable {g : Graph}

theorem rebind_block? (f : ProcedureId → ProcedureId) (g : Graph) (id : BlockId) :
    (g.rebind f).block? id = (g.block? id).map (·.rebind f) := Dict.get?_mapEntries _ _ _

theorem rebind_wiring (f : ProcedureId → ProcedureId) (g : Graph) : (g.rebind f).wiring = g.wiring := by
  funext id
  rw [wiring, wiring, rebind_block?, Option.map_map]
  apply Option.map_congr
  intro block _
  exact congrArg (Stance.mk _ _ _) (funext fun place => by cases place <;> rfl)

theorem WellFormed.rebind (wf : g.WellFormed)
    (injective : ∀ p ∈ g.procedures, ∀ q ∈ g.procedures, f p.id = f q.id → p = q) :
    (g.rebind f).WellFormed where
  built := by
    intro id block found
    rw [rebind_block?, Option.map_eq_some_iff] at found
    obtain ⟨old, known, rfl⟩ := found
    obtain ⟨own, proper⟩ := wf.built id old known
    exact ⟨own, proper.rebind⟩
  linked := by
    have wired := wf.linked
    unfold Linked at wired ⊢
    rw [rebind_wiring]
    exact wired
  bound := by
    constructor
    · intro id c found
      obtain ⟨block, known, rfl⟩ := block_of_contents found
      rw [rebind_block?, Option.map_eq_some_iff] at known
      obtain ⟨old, known, rfl⟩ := known
      obtain ⟨rfl, _⟩ := wf.built id old known
      exact (wf.bound.blocks _ _ (contents_of_block known)).rebind
    · intro p member
      obtain ⟨old, listed, rfl⟩ := List.mem_map.mp member
      have sound := wf.bound.procedures old listed
      obtain ⟨block, known, kind, named⟩ := block_of_definition wf.bound listed
      have known' : (g.rebind f).block? old.definition = some (block.rebind f) := by
        rw [rebind_block?, known]
        rfl
      refine ⟨⟨_, contents_of_block known', kind, ?_⟩, sound.short, sound.distinct, sound.known⟩
      refine (block.rebind_field f "NAME").trans ?_
      rw [named]
      rfl
  variableNames := wf.variableNames
  procedureNames := by
    refine ⟨?_, ?_, ?_⟩
    · have ids : ((g.rebind f).procedures.map (·.id)) = g.procedures.map fun p => f p.id := List.map_map
      rw [ids]
      exact List.Nodup.map_on (fun p first q second same => injective p first q second same)
        wf.procedureNames.ids.of_map
    · have names : ((g.rebind f).procedures.map fun p => foldName p.name)
          = g.procedures.map fun p => foldName p.name := List.map_map
      rw [names]
      exact wf.procedureNames.names
    · intro p member
      obtain ⟨old, listed, rfl⟩ := List.mem_map.mp member
      exact wf.procedureNames.filled old listed

end Graph

-- A renaming that is one to one on some ids is so on all when it may do as it likes elsewhere.
theorem exists_perm_extending {α : Type} [DecidableEq α] {f : α → α} {ids : List α}
    (injective : ∀ a ∈ ids, ∀ b ∈ ids, f a = f b → a = b) :
    ∃ e : Equiv.Perm α, ∀ a ∈ ids, e a = f a := by
  induction ids with
  | nil => exact ⟨Equiv.refl α, by simp⟩
  | cons a rest ih =>
    obtain ⟨e, agrees⟩ := ih fun b first c second => injective b (.tail _ first) c (.tail _ second)
    refine ⟨e.trans (Equiv.swap (e a) (f a)), ?_⟩
    intro b member
    by_cases here : b = a
    · rw [here, Equiv.trans_apply, Equiv.swap_apply_left]
    · have listed : b ∈ rest := (List.mem_cons.mp member).resolve_left here
      have other : e b ≠ e a := fun same => here (e.injective same)
      have apart : e b ≠ f a := by
        intro same
        rw [agrees b listed] at same
        exact here (injective b member a (.head _) same)
      rw [Equiv.trans_apply, Equiv.swap_apply_of_ne_of_ne other apart, agrees b listed]

namespace Graph

variable {g : Graph}

theorem rebind_eq_relabel (wf : g.WellFormed) {r : Relabeling} (blocks : ∀ id, r.block id = id)
    (vars : ∀ id, r.variableId id = id) (procedures : ∀ p ∈ g.procedures, r.procedure p.id = f p.id)
    (position : ∀ block, r.position block = block.position) : g.rebind f = g.relabel r := by
  have child : ∀ child : Option BlockId, child.map r.block = child := by
    intro child
    cases child with
    | none => rfl
    | some id => exact congrArg some (blocks id)
  have children : ∀ d : Dict (Option BlockId), (d.mapEntries fun _ child => child.map r.block) = d := by
    intro d
    apply Dict.ext_get?
    intro key
    cases held : d.get? key <;> simp [held, child]
  have same : ∀ id block, g.block? id = some block → block.rebind f = block.relabel r := by
    intro id block found
    obtain ⟨rfl, _⟩ := wf.built id block found
    have sound := wf.bound.blocks _ _ (contents_of_block found)
    have fields : (block.rebind f).fields = (block.relabel r).fields := by
      apply Dict.ext_get?
      intro name
      rw [Block.rebind_field, Block.relabel_field]
      apply Option.map_congr
      intro value held
      cases value with
      | variableRef v => exact congrArg FieldValue.variableRef (vars v).symm
      | procedureRef id =>
        obtain ⟨p, listed, rfl, _⟩ := sound.serves name id held
        exact congrArg FieldValue.procedureRef (procedures p listed).symm
      | _ => rfl
    have parent : block.parent.map (fun link => ⟨r.block link.parent, link.place⟩) = block.parent := by
      cases block.parent with
      | none => rfl
      | some link => exact congrArg (fun id => some (ParentLink.mk id link.place)) (blocks link.parent)
    rw [Block.relabel, blocks, position, children, children, child, parent]
    exact congrArg (fun fields => { block with fields := fields }) fields
  have kept : (g.rebind f).blocks = (g.relabel r).blocks := by
    apply Dict.ext_get?
    intro key
    have found := g.relabel_block? r ⟨key⟩
    rw [blocks] at found
    refine (g.rebind_block? f ⟨key⟩).trans (Eq.trans ?_ found.symm)
    exact Option.map_congr fun block found => same _ block found
  have roots : g.roots = g.roots.map r.block := by
    rw [funext blocks, List.map_id']
  have tables : g.vars = g.vars.map (·.relabel r) := by
    refine (List.map_id _).symm.trans (List.map_congr_left fun v _ => ?_)
    rw [Variable.relabel, vars]
    rfl
  have listed : g.procedures.map (·.rebind f) = g.procedures.map (·.relabel r) := by
    refine List.map_congr_left fun p listed => ?_
    rw [Procedure.relabel, procedures p listed, blocks, funext vars, List.map_id']
    rfl
  have whole := congr (congr (congr (congrArg Graph.mk kept) roots) tables) listed
  exact whole

theorem compile_rebind (wf : g.WellFormed)
    (injective : ∀ p ∈ g.procedures, ∀ q ∈ g.procedures, f p.id = f q.id → p = q)
    (options : Options) :
    Generation.compile (g.rebind f) options = Generation.compile g options := by
  have apart : ∀ a ∈ g.procedures.map (·.id), ∀ b ∈ g.procedures.map (·.id), f a = f b → a = b := by
    intro a first b second same
    obtain ⟨p, listed, rfl⟩ := List.mem_map.mp first
    obtain ⟨q, listed', rfl⟩ := List.mem_map.mp second
    exact congrArg _ (injective p listed q listed' same)
  obtain ⟨e, agrees⟩ := exists_perm_extending apart
  let r : Relabeling := ⟨.refl _, .refl _, e.toEmbedding, (·.position)⟩
  rw [rebind_eq_relabel (r := r) wf (fun _ => rfl) (fun _ => rfl)
    (fun p listed => agrees _ (List.mem_map_of_mem listed)) fun _ => rfl]
  exact Generation.compile_relabel g r options

end Graph
end Blockwork
