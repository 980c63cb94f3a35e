import Mathlib
import Blockwork.Proofs.Validity

-- The slots of a kind make a table by name, for every extent. Fields, inputs and bodies share one
-- stock of names, so a new block has as many slots as are declared, and the check of its shape may
-- count them.
namespace Blockwork

-- The block keeps the slot where slots of its sort are kept, with nothing in it but its default.
def Block.StartsWith (block : Block) (slot : Slot) : Prop :=
  match slot.kind with
  | .field shape => block.fields.get? slot.name = some (.initial shape)
  | .input _ => block.inputs.get? slot.name = some none
  | .body => block.bodies.get? slot.name = some none

theorem Block.fresh_startsWith (id : BlockId) {kind : Kind} {extent : Extent} {slot : Slot}
    (listed : slot ∈ kind.slots extent) : (fresh id kind extent).StartsWith slot := by
  obtain ⟨name, sort⟩ := slot
  have found := Kind.slot?_eq_some.mpr listed
  cases sort with
  | field shape =>
    show (fresh id kind extent).fields.get? name = _
    rw [fresh_fields, found]
  | input check =>
    show (fresh id kind extent).inputs.get? name = _
    unfold fresh
    rw [reshape_inputs, found]
    rfl
  | body =>
    show (fresh id kind extent).bodies.get? name = _
    unfold fresh
    rw [reshape_bodies, found]
    rfl

-- What a kind declares for an extent, and what it still declares for a larger one.
structure SlotTable (kind : Kind) (extent : Extent) : Prop where
  distinct : ((kind.slots extent).map (·.name)).Nodup
  found : ∀ slot ∈ kind.slots extent, kind.slot? extent slot.name = some slot.kind
  absent : ∀ name, name ∉ (kind.slots extent).map (·.name) → kind.slot? extent name = none
  counted : ∀ id, let block := Block.fresh id kind extent
    block.fields.size + block.inputs.size + block.bodies.size = (kind.slots extent).length
  started : ∀ id, ∀ slot ∈ kind.slots extent, (Block.fresh id kind extent).StartsWith slot
  grows : ∀ larger : Extent, extent.items ≤ larger.items →
    (extent.hasElse = true → larger.hasElse = true) →
    (kind.slots extent).Sublist (kind.slots larger) ∧
      ∀ name sort, kind.slot? extent name = some sort → kind.slot? larger name = some sort

theorem slots_tabled (kind : Kind) (extent : Extent) : SlotTable kind extent where
  distinct := Kind.names_nodup kind extent
  found slot listed := Kind.slot?_eq_some.mpr listed
  absent name missing := by
    cases found : kind.slot? extent name with
    | none => rfl
    | some sort => exact absurd (List.mem_map.mpr ⟨_, Kind.slot?_eq_some.mp found, rfl⟩) missing
  counted id := (Block.reshape_shaped _ extent).size
  started id slot listed := Block.fresh_startsWith id listed
  grows larger items otherwise := by
    have kept : (kind.slots extent).Sublist (kind.slots larger) := Kind.slots_sublist items otherwise
    refine ⟨kept, fun name sort found => ?_⟩
    exact Kind.slot?_eq_some.mpr (kept.subset (Kind.slot?_eq_some.mp found))

-- Two-digit numbers do not run into the others, and the last alternative stays behind all branches.
theorem long_conditional_tabled :
    let extent : Extent := ⟨11, true⟩
    SlotTable .ifElse extent ∧ (Kind.ifElse.slots extent).length = 25 ∧
      Kind.ifElse.slot? extent "IF1" = some (.input (some .boolean)) ∧
      Kind.ifElse.slot? extent "DO11" = some .body ∧ Kind.ifElse.slot? extent "ELSE" = some .body ∧
      Kind.ifElse.slot? extent "DO12" = none ∧ Kind.ifElse.slot? ⟨12, true⟩ "DO11" = some .body := by
  intro extent
  have table := slots_tabled .ifElse extent
  have last : Kind.ifElse.slot? extent "DO11" = some .body := by decide +kernel
  refine ⟨table, by decide +kernel, by decide +kernel, last, by decide +kernel, by decide +kernel, ?_⟩
  exact (table.grows ⟨12, true⟩ (by decide) id).2 "DO11" .body last

end Blockwork
