import Mathlib
import Blockwork.Catalog.Slot

-- The slots of a kind have different names, whatever the extent, and growing
-- only adds slots. So a name stands for one sort of slot for good.
namespace Blockwork.Kind

theorem prefixed_inj {word : String} {m n : Nat} (same : word ++ toString m = word ++ toString n) :
    m = n := Nat.repr_injective ((String.append_right_inj word).mp same)

theorem itemName_inj {m n : Nat} (same : itemName m = itemName n) : m = n := prefixed_inj same
theorem argumentName_inj {m n : Nat} (same : argumentName m = argumentName n) : m = n :=
  prefixed_inj same
theorem conditionName_inj {m n : Nat} (same : conditionName m = conditionName n) : m = n :=
  prefixed_inj same
theorem branchName_inj {m n : Nat} (same : branchName m = branchName n) : m = n := prefixed_inj same

theorem conditionName_ne_branchName (m n : Nat) : conditionName m ≠ branchName n := by
  intro same
  have listed := congrArg String.toList same
  simp [conditionName, branchName] at listed

theorem conditionName_ne_else (n : Nat) : conditionName n ≠ "ELSE" := by
  intro same
  have listed := congrArg String.toList same
  simp [conditionName] at listed

theorem branchName_ne_else (n : Nat) : branchName n ≠ "ELSE" := by
  intro same
  have listed := congrArg String.toList same
  simp [branchName] at listed

theorem argumentName_ne_name (n : Nat) : argumentName n ≠ "NAME" := by
  intro same
  have listed := congrArg String.toList same
  simp [argumentName] at listed

theorem numbered_nodup {name : Nat → String} (inj : ∀ {m n}, name m = name n → m = n) (count : Nat) :
    (((List.range count).map fun n => Slot.anyInput (name n)).map (·.name)).Nodup := by
  rw [List.map_map]
  exact List.nodup_range.map fun _ _ same => inj same

theorem branches_nodup (count : Nat) :
    (((List.range count).flatMap fun n =>
      [Slot.input (conditionName n) .boolean, Slot.body (branchName n)]).map (·.name)).Nodup := by
  rw [List.map_flatMap, List.nodup_flatMap]
  refine ⟨fun n _ => ?_, List.nodup_range.imp fun {m n} different => ?_⟩
  · simp [Slot.input, Slot.body, conditionName_ne_branchName]
  · rw [Function.onFun, List.disjoint_left]
    intro name left right
    simp only [Slot.input, Slot.body, List.map_cons, List.map_nil, List.mem_cons,
      List.not_mem_nil, or_false] at left right
    rcases left with rfl | rfl <;> rcases right with same | same
    · exact different (conditionName_inj same)
    · exact conditionName_ne_branchName _ _ same
    · exact conditionName_ne_branchName _ _ same.symm
    · exact different (branchName_inj same)

theorem fixed_nodup (kind : Kind) : (kind.fixedSlots.map (·.name)).Nodup := by
  cases kind with
  | definition returns | call returns => cases returns <;> decide
  | _ => decide

-- A kind that grows has no slots of its own, except that calls name a procedure.
theorem fixed_of_variadic {kind : Kind} {sort : Variadic} (grows : kind.variadic = some sort) :
    kind.fixedSlots = if sort = .arguments then [.procedureRef "NAME"] else [] := by
  cases kind <;> simp_all [variadic] <;> subst grows <;> rfl

theorem grown_nodup (kind : Kind) (extent : Extent) :
    ((kind.grownSlots extent).map (·.name)).Nodup := by
  unfold grownSlots
  split
  · simp
  · exact numbered_nodup itemName_inj _
  · exact numbered_nodup argumentName_inj _
  · rw [List.map_append]
    refine List.Nodup.append (branches_nodup _) ?_ ?_
    · split <;> simp
    · rw [List.disjoint_left]
      intro name left right
      split at right
      · simp only [Slot.body, List.map_cons, List.map_nil, List.mem_singleton] at right
        subst right
        simp only [List.map_flatMap, List.mem_flatMap, Slot.input, Slot.body, List.map_cons,
          List.map_nil, List.mem_cons, List.not_mem_nil, or_false] at left
        obtain ⟨n, _, same | same⟩ := left
        · exact conditionName_ne_else n same.symm
        · exact branchName_ne_else n same.symm
      · cases right

theorem names_nodup (kind : Kind) (extent : Extent) : ((kind.slots extent).map (·.name)).Nodup := by
  unfold slots
  rw [List.map_append]
  refine List.Nodup.append (fixed_nodup kind) (grown_nodup kind extent) ?_
  rw [List.disjoint_left]
  intro name left right
  cases grows : kind.variadic with
  | none => simp [grownSlots, grows] at right
  | some sort =>
    rw [fixed_of_variadic grows] at left
    cases sort with
    | items | branches => simp at left
    | arguments =>
      simp only [grownSlots, grows, List.map_map, List.mem_map, Function.comp_apply] at right
      obtain ⟨n, _, rfl⟩ := right
      simp [Slot.procedureRef, Slot.anyInput, argumentName_ne_name] at left

theorem slot?_eq_some {kind : Kind} {extent : Extent} {name : String} {sort : SlotKind} :
    kind.slot? extent name = some sort ↔ ⟨name, sort⟩ ∈ kind.slots extent := by
  have distinct := names_nodup kind extent
  unfold slot?
  generalize kind.slots extent = slots at distinct ⊢
  induction slots with
  | nil => simp
  | cons head rest ih =>
    obtain ⟨name', sort'⟩ := head
    obtain ⟨new, tail⟩ := List.nodup_cons.mp distinct
    by_cases here : name' = name
    · subst here
      have absent : ⟨name', sort⟩ ∉ rest := fun member => new (List.mem_map.mpr ⟨_, member, rfl⟩)
      simp [absent, eq_comm]
    · simp [here, Ne.symm here, ih tail]

-- Growing in either way keeps all slots, and their order.
theorem slots_sublist {kind : Kind} {small large : Extent} (items : small.items ≤ large.items)
    (otherwise : small.hasElse = true → large.hasElse = true) :
    (kind.slots small).Sublist (kind.slots large) := by
  unfold slots grownSlots
  apply (List.Sublist.refl kind.fixedSlots).append
  cases kind.variadic with
  | none => exact List.Sublist.refl _
  | some sort =>
    cases sort with
    | items | arguments => exact (List.range_sublist.mpr items).map _
    | branches =>
      apply List.Sublist.append
      · exact (List.range_sublist.mpr (Nat.succ_le_succ items)).flatMap _
      · cases last : small.hasElse with
        | false => exact List.nil_sublist _
        | true => rw [otherwise last]

theorem slots_mono {kind : Kind} {small large : Extent} (items : small.items ≤ large.items)
    (otherwise : small.hasElse = true → large.hasElse = true) {slot : Slot}
    (member : slot ∈ kind.slots small) : slot ∈ kind.slots large :=
  (slots_sublist items otherwise).subset member

theorem slot?_stable {kind : Kind} {a b : Extent} {name : String} {s t : SlotKind}
    (first : kind.slot? a name = some s) (second : kind.slot? b name = some t) : s = t := by
  let both : Extent := ⟨max a.items b.items, true⟩
  have left : kind.slot? both name = some s :=
    slot?_eq_some.mpr (slots_mono (Nat.le_max_left _ _) (fun _ => rfl) (slot?_eq_some.mp first))
  have right : kind.slot? both name = some t :=
    slot?_eq_some.mpr (slots_mono (Nat.le_max_right _ _) (fun _ => rfl) (slot?_eq_some.mp second))
  exact Option.some.inj (left.symm.trans right)

-- Fields do not come with the extent.
theorem field_mem_slots {kind : Kind} {extent : Extent} {name : String} {shape : FieldShape} :
    ⟨name, .field shape⟩ ∈ kind.slots extent ↔ ⟨name, .field shape⟩ ∈ kind.fixedSlots := by
  unfold slots grownSlots
  rw [List.mem_append]
  refine or_iff_left ?_
  cases kind.variadic with
  | none => simp
  | some sort =>
    cases sort with
    | items | arguments => simp [Slot.anyInput]
    | branches =>
      simp only [List.mem_append, List.mem_flatMap, Slot.input, Slot.body]
      rintro (⟨n, _, here⟩ | last)
      · simp at here
      · split at last <;> simp at last

theorem slot?_field {kind : Kind} {extent : Extent} {name : String} {shape : FieldShape} :
    kind.slot? extent name = some (.field shape) ↔ ⟨name, .field shape⟩ ∈ kind.fixedSlots :=
  slot?_eq_some.trans field_mem_slots

theorem variadic_arguments {kind : Kind} : kind.variadic = some .arguments ↔ kind.isCall = true := by
  cases kind <;> simp [variadic, isCall]

theorem call_not_definition {kind : Kind} (calls : kind.isCall = true) : kind.isDefinition = false := by
  cases kind <;> first | rfl | cases calls

end Blockwork.Kind
