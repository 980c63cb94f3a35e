import Mathlib
import Blockwork.Graph.Block
import Blockwork.Proofs.Dictionary
import Blockwork.Proofs.SlotNames

-- What a block may look like by itself: it has the slots of its kind and
-- extent and no others, and its fields hold values of the right shape.
namespace Blockwork

-- A value of the sort that a field asks for. References may be left open.
def FieldValue.Fits : FieldValue → FieldShape → Prop
  | .text _, .text _ => True
  | .number _, .number _ => True
  | .choice option, .dropdown options => option ∈ options
  | .variableRef _, .variableRef | .empty, .variableRef => True
  | .procedureRef _, .procedureRef | .empty, .procedureRef => True
  | _, _ => False

structure Kind.Allows (kind : Kind) (extent : Extent) : Prop where
  bounded : extent.items ≤ maxItems
  fixed : kind.variadic = none → extent.items = 0
  plain : kind.variadic ≠ some .branches → extent.hasElse = false

def SlotKind.isInput : SlotKind → Bool
  | .input _ => true
  | _ => false

def SlotKind.isBody : SlotKind → Bool
  | .body => true
  | _ => false

-- Whether a block of the kind has the place. Any block has the place after it.
def Kind.hasPlace (kind : Kind) (extent : Extent) : Place → Bool
  | .input slot => (kind.slot? extent slot).any SlotKind.isInput
  | .body slot => (kind.slot? extent slot).any SlotKind.isBody
  | .next => true

namespace Block

structure Shaped (block : Block) : Prop where
  fields : ∀ name, (block.fields.get? name).isSome ↔
    ∃ shape, block.kind.slot? block.extent name = some (.field shape)
  inputs : ∀ name, (block.inputs.get? name).isSome ↔
    ∃ check, block.kind.slot? block.extent name = some (.input check)
  bodies : ∀ name, (block.bodies.get? name).isSome ↔
    block.kind.slot? block.extent name = some .body

-- A block as edits make it, apart from what it refers to.
structure Proper (block : Block) : Prop where
  shaped : block.Shaped
  fitting : ∀ name value shape, block.fields.get? name = some value →
    block.kind.slot? block.extent name = some (.field shape) → value.Fits shape
  allowed : block.kind.Allows block.extent

end Block

theorem Kind.hasPlace_input {kind : Kind} {extent : Extent} {slot : String} :
    kind.hasPlace extent (.input slot) = true ↔ ∃ check, kind.slot? extent slot = some (.input check) := by
  rw [Kind.hasPlace]
  rcases kind.slot? extent slot with _ | ⟨shape⟩ | _ | _ <;> simp [SlotKind.isInput]

theorem Kind.hasPlace_body {kind : Kind} {extent : Extent} {slot : String} :
    kind.hasPlace extent (.body slot) = true ↔ kind.slot? extent slot = some .body := by
  rw [Kind.hasPlace]
  rcases kind.slot? extent slot with _ | ⟨shape⟩ | _ | _ <;> simp [SlotKind.isBody]

namespace Block

-- What reshaping puts into each slot. Slots have different names, so an entry
-- is found under its name.
theorem get?_entries {α : Type} {slots : List Slot} (pick : Slot → Option (String × α))
    (named : ∀ slot e, pick slot = some e → e.1 = slot.name)
    (distinct : (slots.map (·.name)).Nodup) (name : String) :
    (Dict.ofList (slots.filterMap pick)).get? name
      = ((slots.find? (·.name == name)).bind pick).map (·.2) := by
  have keys : ((slots.filterMap pick).map (·.1)).Nodup := by
    refine List.Nodup.sublist ?_ distinct
    clear distinct
    induction slots with
    | nil => simp
    | cons head rest ih =>
      cases made : pick head with
      | none => simpa [made] using ih.cons _
      | some e => simpa [made, named head e made] using ih
  rw [Dict.get?_ofList keys]
  clear keys
  induction slots with
  | nil => simp
  | cons head rest ih =>
    obtain ⟨new, tail⟩ := List.nodup_cons.mp distinct
    by_cases here : head.name = name
    · subst here
      have absent : (rest.filterMap pick).lookup head.name = none := by
        rw [List.lookup_eq_none_iff]
        intro e member
        obtain ⟨slot, listed, made⟩ := List.mem_filterMap.mp member
        have other : head.name ≠ e.1 := fun same =>
          new (List.mem_map.mpr ⟨slot, listed, (named slot e made).symm.trans same.symm⟩)
        simp [other]
      cases made : pick head with
      | none => simp [made, absent]
      | some e =>
        obtain ⟨key, value⟩ := e
        have keyed : key = head.name := named head _ made
        simp [made, keyed]
    · cases made : pick head with
      | none => simp [made, here, ih tail]
      | some e =>
        obtain ⟨key, value⟩ := e
        have keyed : key = head.name := named head _ made
        have other : name ≠ key := fun same => here (keyed ▸ same.symm)
        simp [made, here, Dict.lookup_cons_eq, other, ih tail]

theorem find?_slots {kind : Kind} {extent : Extent} {name : String} :
    (kind.slots extent).find? (·.name == name)
      = (kind.slot? extent name).map fun sort => ⟨name, sort⟩ := by
  unfold Kind.slot?
  cases found : (kind.slots extent).find? (·.name == name) with
  | none => rfl
  | some slot =>
    have same := List.find?_some found
    simp only [beq_iff_eq] at same
    simp [← same]

theorem reshape_fields (block : Block) (extent : Extent) (name : String) :
    (block.reshape extent).fields.get? name = match block.kind.slot? extent name with
      | some (.field shape) => some ((block.fields.get? name).getD (.initial shape))
      | _ => none := by
  unfold reshape
  rw [get?_entries _ _ (Kind.names_nodup _ _), find?_slots]
  · rcases block.kind.slot? extent name with _ | ⟨shape⟩ | _ | _ <;> rfl
  · intro slot e made
    unfold Slot.heldField? at made
    split at made <;> cases made
    rfl

theorem reshape_inputs (block : Block) (extent : Extent) (name : String) :
    (block.reshape extent).inputs.get? name = match block.kind.slot? extent name with
      | some (.input _) => some (block.inputs.get? name).join
      | _ => none := by
  unfold reshape
  rw [get?_entries _ _ (Kind.names_nodup _ _), find?_slots]
  · rcases block.kind.slot? extent name with _ | ⟨shape⟩ | _ | _ <;> rfl
  · intro slot e made
    unfold Slot.heldInput? at made
    split at made <;> cases made
    rfl

theorem reshape_bodies (block : Block) (extent : Extent) (name : String) :
    (block.reshape extent).bodies.get? name = match block.kind.slot? extent name with
      | some .body => some (block.bodies.get? name).join
      | _ => none := by
  unfold reshape
  rw [get?_entries _ _ (Kind.names_nodup _ _), find?_slots]
  · rcases block.kind.slot? extent name with _ | ⟨shape⟩ | _ | _ <;> rfl
  · intro slot e made
    unfold Slot.heldBody? at made
    split at made <;> cases made
    rfl

@[simp] theorem reshape_id (block : Block) (extent : Extent) : (block.reshape extent).id = block.id := rfl
@[simp] theorem reshape_kind (block : Block) (extent : Extent) :
    (block.reshape extent).kind = block.kind := rfl
@[simp] theorem reshape_extent (block : Block) (extent : Extent) :
    (block.reshape extent).extent = extent := rfl
@[simp] theorem reshape_parent (block : Block) (extent : Extent) :
    (block.reshape extent).parent = block.parent := rfl
@[simp] theorem reshape_next (block : Block) (extent : Extent) :
    (block.reshape extent).next = block.next := rfl
@[simp] theorem reshape_position (block : Block) (extent : Extent) :
    (block.reshape extent).position = block.position := rfl

theorem reshape_shaped (block : Block) (extent : Extent) : (block.reshape extent).Shaped where
  fields := by
    intro name
    rw [reshape_fields, reshape_kind, reshape_extent]
    rcases block.kind.slot? extent name with _ | ⟨shape⟩ | _ | _ <;> simp
  inputs := by
    intro name
    rw [reshape_inputs, reshape_kind, reshape_extent]
    rcases block.kind.slot? extent name with _ | ⟨shape⟩ | _ | _ <;> simp
  bodies := by
    intro name
    rw [reshape_bodies, reshape_kind, reshape_extent]
    rcases block.kind.slot? extent name with _ | ⟨shape⟩ | _ | _ <;> simp

theorem reshape_held (block : Block) (extent : Extent) (place : Place) :
    (block.reshape extent).held place
      = if block.kind.hasPlace extent place then block.held place else none := by
  cases place with
  | input slot =>
    rw [held, reshape_inputs, Kind.hasPlace, held]
    rcases block.kind.slot? extent slot with _ | ⟨shape⟩ | _ | _ <;> simp [SlotKind.isInput]
  | body slot =>
    rw [held, reshape_bodies, Kind.hasPlace, held]
    rcases block.kind.slot? extent slot with _ | ⟨shape⟩ | _ | _ <;> simp [SlotKind.isBody]
  | next => simp [held, Kind.hasPlace]

-- Putting a child at a place changes that place only.
@[simp] theorem hold_id (block : Block) (place : Place) (child : Option BlockId) :
    (block.hold place child).id = block.id := by cases place <;> rfl
@[simp] theorem hold_kind (block : Block) (place : Place) (child : Option BlockId) :
    (block.hold place child).kind = block.kind := by cases place <;> rfl
@[simp] theorem hold_extent (block : Block) (place : Place) (child : Option BlockId) :
    (block.hold place child).extent = block.extent := by cases place <;> rfl
@[simp] theorem hold_fields (block : Block) (place : Place) (child : Option BlockId) :
    (block.hold place child).fields = block.fields := by cases place <;> rfl
@[simp] theorem hold_parent (block : Block) (place : Place) (child : Option BlockId) :
    (block.hold place child).parent = block.parent := by cases place <;> rfl
@[simp] theorem hold_position (block : Block) (place : Place) (child : Option BlockId) :
    (block.hold place child).position = block.position := by cases place <;> rfl

theorem held_hold_ne (block : Block) {place other : Place} (child : Option BlockId)
    (different : other ≠ place) : (block.hold place child).held other = block.held other := by
  cases place <;> cases other <;> simp_all [hold, held]

theorem held_hold_none (block : Block) (place other : Place) :
    (block.hold place none).held other = if other = place then none else block.held other := by
  split
  · next same =>
    subst same
    cases other with
    | input slot => cases present : block.inputs.get? slot <;> simp [hold, held, present]
    | body slot => cases present : block.bodies.get? slot <;> simp [hold, held, present]
    | next => rfl
  · next different => exact held_hold_ne block none different

theorem held_hold_same {block : Block} (shaped : block.Shaped) {place : Place}
    (has : block.kind.hasPlace block.extent place = true) (child : Option BlockId) :
    (block.hold place child).held place = child := by
  cases place with
  | input slot =>
    have present := (shaped.inputs slot).mpr (Kind.hasPlace_input.mp has)
    obtain ⟨old, found⟩ := Option.isSome_iff_exists.mp present
    simp [hold, held, found]
  | body slot =>
    have present := (shaped.bodies slot).mpr (Kind.hasPlace_body.mp has)
    obtain ⟨old, found⟩ := Option.isSome_iff_exists.mp present
    simp [hold, held, found]
  | next => rfl

theorem hasPlace_of_held {block : Block} (shaped : block.Shaped) {place : Place} {child : BlockId}
    (holds : block.held place = some child) : block.kind.hasPlace block.extent place = true := by
  cases place with
  | input slot =>
    refine Kind.hasPlace_input.mpr ((shaped.inputs slot).mp ?_)
    cases found : block.inputs.get? slot <;> simp_all [held]
  | body slot =>
    refine Kind.hasPlace_body.mpr ((shaped.bodies slot).mp ?_)
    cases found : block.bodies.get? slot <;> simp_all [held]
  | next => rfl

theorem hold_shaped {block : Block} (shaped : block.Shaped) (place : Place) (child : Option BlockId) :
    (block.hold place child).Shaped := by
  cases place with
  | input slot =>
    refine ⟨shaped.fields, fun name => ?_, shaped.bodies⟩
    rw [hold_kind, hold_extent, ← shaped.inputs name]
    simp only [hold, Dict.get?_modify]
    split <;> simp
  | body slot =>
    refine ⟨shaped.fields, shaped.inputs, fun name => ?_⟩
    rw [hold_kind, hold_extent, ← shaped.bodies name]
    simp only [hold, Dict.get?_modify]
    split <;> simp
  | next => exact ⟨shaped.fields, shaped.inputs, shaped.bodies⟩

-- The list of links is the places that hold something, each once.
theorem mem_links {block : Block} {place : Place} {child : BlockId} :
    (place, child) ∈ block.links ↔ block.held place = some child := by
  have listed : ∀ v, (place, v) ∈ block.places ↔ match place with
      | .input slot => block.inputs.get? slot = some v
      | .body slot => block.bodies.get? slot = some v
      | .next => block.next = v := by
    intro v
    cases place <;> simp [places, Dict.mem_entries, eq_comm]
  have linked : (place, child) ∈ block.links ↔ (place, some child) ∈ block.places := by
    unfold links
    rw [List.mem_filterMap]
    constructor
    · rintro ⟨⟨place', v⟩, member, made⟩
      cases v with
      | none => cases made
      | some c => cases made; exact member
    · intro member
      exact ⟨_, member, rfl⟩
  rw [linked, listed]
  cases place <;> simp [held, Option.join_eq_some_iff]

theorem places_nodup (block : Block) : (block.places.map (·.1)).Nodup := by
  have distinct (make : String → Place) (inj : Function.Injective make)
      (d : Dict (Option BlockId)) : ((d.entries.map fun e => (make e.1, e.2)).map (·.1)).Nodup := by
    have keys := d.keys_nodup.map inj
    simpa only [List.map_map, Function.comp_def] using keys
  have inputs := distinct .input (fun _ _ same => by injection same) block.inputs
  have bodies := distinct .body (fun _ _ same => by injection same) block.bodies
  simp only [places, List.map_append]
  refine List.Nodup.append (List.Nodup.append inputs bodies ?_) (by simp) ?_
  all_goals
    rw [List.disjoint_left]
    intro place left right
    simp only [List.map_map, List.mem_map, List.mem_append, List.map_cons, List.map_nil,
      List.mem_singleton, Function.comp_apply] at left right
  · obtain ⟨_, _, rfl⟩ := left
    obtain ⟨_, _, same⟩ := right
    cases same
  · subst right
    rcases left with ⟨_, _, same⟩ | ⟨_, _, same⟩ <;> cases same

theorem links_nodup (block : Block) : (block.links.map (·.1)).Nodup := by
  refine List.Nodup.sublist ?_ block.places_nodup
  unfold links
  induction block.places with
  | nil => simp
  | cons head rest ih =>
    obtain ⟨place, v⟩ := head
    cases v with
    | none => simpa using ih.cons _
    | some child => simpa using ih

-- The children that a new extent has no place for are links like any others.
theorem cut_entries (make : String → Place) (gone : String → Bool) (lost : Place → Bool)
    (agree : ∀ name, lost (make name) = gone name) (entries : List (String × Option BlockId)) :
    ((entries.filter fun e => gone e.1).map (·.2)).filterMap (fun child => child)
      = (((entries.map fun e => (make e.1, e.2)).filterMap
          fun p => p.2.map fun child => (p.1, child)).filter fun l => lost l.1).map (·.2) := by
  induction entries with
  | nil => rfl
  | cons head rest ih =>
    obtain ⟨name, v⟩ := head
    cases v with
    | none => by_cases cut : gone name = true <;> simp [cut] <;> simpa using ih
    | some child =>
      by_cases cut : gone name = true <;> simp [agree, cut] <;> simpa using ih

theorem displaced_eq (block : Block) (extent : Extent) :
    block.displaced extent
      = (block.links.filter fun l => !block.kind.hasPlace extent l.1).map (·.2) := by
  have inputs : ∀ name, (!block.kind.hasPlace extent (.input name))
      = !(block.reshape extent).inputs.contains name := by
    intro name
    rw [Dict.contains_eq, reshape_inputs, Kind.hasPlace]
    rcases block.kind.slot? extent name with _ | ⟨shape⟩ | _ | _ <;> rfl
  have bodies : ∀ name, (!block.kind.hasPlace extent (.body name))
      = !(block.reshape extent).bodies.contains name := by
    intro name
    rw [Dict.contains_eq, reshape_bodies, Kind.hasPlace]
    rcases block.kind.slot? extent name with _ | ⟨shape⟩ | _ | _ <;> rfl
  have last : ([((.next : Place), block.next)].filterMap
      fun p => p.2.map fun child => (p.1, child)).filter
        (fun l => !block.kind.hasPlace extent l.1) = [] := by
    cases block.next <;> simp [Kind.hasPlace]
  simp only [displaced, Dict.values, Dict.restrict, links, places, List.filterMap_append,
    List.filter_append, List.map_append, last, List.append_nil]
  congr 1
  · exact cut_entries .input (fun name => !(block.reshape extent).inputs.contains name)
      (fun place => !block.kind.hasPlace extent place) inputs _
  · exact cut_entries .body (fun name => !(block.reshape extent).bodies.contains name)
      (fun place => !block.kind.hasPlace extent place) bodies _

theorem mem_displaced {block : Block} {extent : Extent} {child : BlockId} :
    child ∈ block.displaced extent ↔
      ∃ place, block.held place = some child ∧ block.kind.hasPlace extent place = false := by
  rw [displaced_eq]
  simp only [List.mem_map, List.mem_filter, Prod.exists, mem_links, Bool.not_eq_true']
  constructor
  · rintro ⟨place, _, ⟨holds, lost⟩, rfl⟩
    exact ⟨place, holds, lost⟩
  · rintro ⟨place, holds, lost⟩
    exact ⟨place, child, ⟨holds, lost⟩, rfl⟩

-- Children are different where no child has two places.
theorem children_nodup {block : Block}
    (single : ∀ p q child, block.held p = some child → block.held q = some child → p = q)
    (keep : Place × BlockId → Bool) : ((block.links.filter keep).map (·.2)).Nodup := by
  refine List.Nodup.map_on ?_ ((List.Nodup.of_map _ block.links_nodup).filter _)
  rintro ⟨p, c⟩ left ⟨q, d⟩ right same
  simp only at same
  subst same
  have first := mem_links.mp (List.mem_of_mem_filter left)
  have second := mem_links.mp (List.mem_of_mem_filter right)
  rw [single p q c first second]

theorem fresh_held (id : BlockId) (kind : Kind) (extent : Extent) (place : Place) :
    (fresh id kind extent).held place = none := by
  unfold fresh
  rw [reshape_held]
  cases place <;> simp [held]

theorem fresh_fields (id : BlockId) (kind : Kind) (extent : Extent) (name : String) :
    (fresh id kind extent).fields.get? name = match kind.slot? extent name with
      | some (.field shape) => some (.initial shape)
      | _ => none := by
  unfold fresh
  rw [reshape_fields]
  rfl

@[simp] theorem fresh_id (id : BlockId) (kind : Kind) (extent : Extent) :
    (fresh id kind extent).id = id := rfl
@[simp] theorem fresh_kind (id : BlockId) (kind : Kind) (extent : Extent) :
    (fresh id kind extent).kind = kind := rfl
@[simp] theorem fresh_extent (id : BlockId) (kind : Kind) (extent : Extent) :
    (fresh id kind extent).extent = extent := rfl
@[simp] theorem fresh_parent (id : BlockId) (kind : Kind) (extent : Extent) :
    (fresh id kind extent).parent = none := rfl

end Block

theorem Kind.defaultExtent_allowed (kind : Kind) : kind.Allows kind.defaultExtent := by
  refine ⟨?_, ?_, ?_⟩ <;> cases kind <;> decide +revert

theorem Kind.Allows.extent_eq {kind : Kind} {extent : Extent} (allowed : kind.Allows extent)
    (other : kind.variadic ≠ some .branches) : extent = { items := extent.items } := by
  have plain := allowed.plain other
  cases extent
  cases plain
  rfl

-- No dropdown of the catalog is without options.
theorem FieldValue.initial_fits {kind : Kind} {name : String} {shape : FieldShape}
    (listed : ⟨name, .field shape⟩ ∈ kind.fixedSlots) : (initial shape).Fits shape := by
  have filled : ∀ slot ∈ kind.fixedSlots, slot.kind ≠ .field (.dropdown []) := by
    cases kind with
    | definition returns | call returns => cases returns <;> decide
    | _ => decide
  cases shape with
  | dropdown options =>
    cases options with
    | nil => exact absurd rfl (filled _ listed)
    | cons first rest => simp [initial, Fits]
  | _ => trivial

namespace Block

theorem reshape_proper {block : Block} (proper : block.Proper) {extent : Extent}
    (allowed : block.kind.Allows extent) : (block.reshape extent).Proper := by
  refine ⟨reshape_shaped block extent, ?_, allowed⟩
  intro name value shape found sort
  rw [reshape_kind, reshape_extent] at sort
  rw [reshape_fields, sort] at found
  have listed := Kind.slot?_field.mp sort
  cases old : block.fields.get? name with
  | none =>
    simp only [old, Option.getD_none, Option.some.injEq] at found
    exact found ▸ FieldValue.initial_fits listed
  | some value' =>
    simp only [old, Option.getD_some, Option.some.injEq] at found
    exact found ▸ proper.fitting name value' shape old (Kind.slot?_field.mpr listed)

theorem fresh_proper (id : BlockId) {kind : Kind} {extent : Extent} (allowed : kind.Allows extent) :
    (fresh id kind extent).Proper := by
  refine ⟨reshape_shaped _ extent, ?_, allowed⟩
  intro name value shape found sort
  rw [fresh_kind, fresh_extent] at sort
  rw [fresh_fields, sort, Option.some.injEq] at found
  exact found ▸ FieldValue.initial_fits (Kind.slot?_field.mp sort)

theorem hold_proper {block : Block} (proper : block.Proper) (place : Place) (child : Option BlockId) :
    (block.hold place child).Proper := by
  refine ⟨hold_shaped proper.shaped place child, ?_, ?_⟩
  · simpa only [hold_fields, hold_kind, hold_extent] using proper.fitting
  · simpa only [hold_kind, hold_extent] using proper.allowed

theorem setField_proper {block : Block} (proper : block.Proper) {name : String} {value : FieldValue}
    {shape : FieldShape} (known : block.kind.slot? block.extent name = some (.field shape))
    (fits : value.Fits shape) : { block with fields := block.fields.insert name value }.Proper := by
  refine ⟨⟨fun other => ?_, proper.shaped.inputs, proper.shaped.bodies⟩, ?_, proper.allowed⟩
  · simp only [Dict.get?_insert]
    split
    · next same => subst same; simp [known]
    · exact proper.shaped.fields other
  · intro other value' shape' found sort
    simp only [Dict.get?_insert] at found sort
    split at found
    · next same =>
      subst same
      cases found
      cases known.symm.trans sort
      exact fits
    · exact proper.fitting other value' shape' found sort

-- Fields do not depend on the extent, so reshaping keeps them all.
theorem reshape_fields_eq {block : Block} (shaped : block.Shaped) (extent : Extent) :
    (block.reshape extent).fields = block.fields := by
  ext1 name
  rw [reshape_fields]
  cases old : block.fields.get? name with
  | some value =>
    obtain ⟨shape, sort⟩ := (shaped.fields name).mp (by simp [old])
    rw [Kind.slot?_field.mpr (Kind.slot?_field.mp sort)]
    simp
  | none =>
    split
    · next shape sort =>
      have present := (shaped.fields name).mpr
        ⟨shape, Kind.slot?_field.mpr (Kind.slot?_field.mp sort)⟩
      rw [old] at present
      cases present
    · rfl

-- Slots are settled by kind and extent, so what they hold decides the rest.
theorem eq_of_held {a b : Block} (shapedA : a.Shaped) (shapedB : b.Shaped) (id : a.id = b.id)
    (kind : a.kind = b.kind) (position : a.position = b.position) (extent : a.extent = b.extent)
    (fields : a.fields = b.fields) (parent : a.parent = b.parent)
    (held : ∀ place, a.held place = b.held place) : a = b := by
  have inputs : a.inputs = b.inputs := by
    refine Dict.ext_get? fun name => ?_
    have present := shapedA.inputs name
    rw [kind, extent, ← shapedB.inputs name] at present
    have same := held (.input name)
    unfold Block.held at same
    cases left : a.inputs.get? name <;> cases right : b.inputs.get? name <;> simp_all
  have bodies : a.bodies = b.bodies := by
    refine Dict.ext_get? fun name => ?_
    have present := shapedA.bodies name
    rw [kind, extent, ← shapedB.bodies name] at present
    have same := held (.body name)
    unfold Block.held at same
    cases left : a.bodies.get? name <;> cases right : b.bodies.get? name <;> simp_all
  have next : a.next = b.next := held .next
  cases a
  cases b
  simp_all

end Block
end Blockwork
