import Mathlib
import Blockwork.Proofs.Reachability

-- What loading plans for a graph that was saved: every block once, with all it
-- was saved for. The tables have been restored before that.
namespace Blockwork

-- A list that is a rearrangement of images is the images of a rearrangement.
theorem exists_perm_map {α β : Type} {f : α → β} {items : List α} {images : List β}
    (rearranged : images.Perm (items.map f)) : 
    ∃ items' : List α, items'.Perm items ∧ items'.map f = images := by
  induction items generalizing images with
  | nil => exact ⟨[], .refl _, (List.perm_nil.mp rearranged).symm⟩
  | cons a rest ih =>
    obtain ⟨before, after, rfl⟩ := List.append_of_mem
      (rearranged.symm.subset (List.mem_cons_self : f a ∈ f a :: rest.map f))
    have others : (before ++ after).Perm (rest.map f) :=
      (List.perm_cons (f a)).mp (List.perm_middle.symm.trans rearranged)
    obtain ⟨items', same, whole⟩ := ih others
    obtain ⟨first, second, rfl, rfl, rfl⟩ := List.map_eq_append_iff.mp whole
    exact ⟨first ++ a :: second, List.perm_middle.trans (same.cons a), by simp⟩

theorem Dict.ofList_sorted {α : Type} {entries : List (String × α)}
    (ordered : entries.Pairwise fun a b => a.1 < b.1) : (Dict.ofList entries).entries = entries :=
  congrArg Dict.entries (Dict.ofList_entries ⟨entries, ordered⟩)

theorem Kind.ofTag?_tag (kind : Kind) : Kind.ofTag? kind.tag = some kind := by
  cases kind with
  | definition returns | call returns => cases returns <;> decide
  | _ => decide

namespace Snapshot

theorem fieldValue?_number (g : Graph) (default value : Double) :
    fieldValue? g (.number default) (numberJson value) = some (.number value) := by
  have words : Double.read? (Text.trim "NaN") = some .nan ∧
      Double.read? (Text.trim "Infinity") = some (.infinite false) ∧
      Double.read? (Text.trim "-Infinity") = some (.infinite true) := by decide
  cases value with
  | nan => exact congrArg (Option.map _) words.1
  | infinite negative =>
    cases negative with
    | false => exact congrArg (Option.map _) words.2.1
    | true => exact congrArg (Option.map _) words.2.2
  | finite negative rank => rfl

-- A value is read back as what it was.
theorem fieldValue?_fieldJson {g : Graph} {shape : FieldShape} {value : FieldValue} {json : Json}
    (fits : value.Fits shape) (saved : fieldJson? value = some json) :
    fieldValue? g shape json = some value := by
  cases value with
  | number value =>
    cases shape with
    | number default =>
      cases saved
      exact fieldValue?_number g default value
    | _ => exact fits.elim
  | empty => cases saved
  | _ =>
    cases shape with
    | _ => first | exact fits.elim | (cases saved; rfl)

theorem plannedShape?_field {kind : Kind} {extent : Extent} {name : String} {shape : FieldShape}
    (sort : kind.slot? extent name = some (.field shape)) : plannedShape? kind name
      = if kind.isDefinition = true ∧ shape = .procedureRef then none else some shape := by
  have fixed : kind.fixedSlots.find? (·.name == name) = some ⟨name, .field shape⟩ := by
    have whole : (kind.slots extent).find? (·.name == name) = _ := Block.find?_slots
    rw [sort, Option.map_some, Kind.slots, List.find?_append] at whole
    cases first : kind.fixedSlots.find? (·.name == name) with
    | some slot => rwa [first, Option.some_or] at whole
    | none =>
      have missed := List.find?_eq_none.mp first _ (Kind.slot?_field.mp sort)
      simp at missed
  rw [plannedShape?, fixed]

-- Fields that loading sets again. Open references are open anyway, and definitions get
-- their procedure when they are made.
def setFields (block : Block) : List (String × FieldValue) :=
  if block.kind.isDefinition then [] else block.fields.entries.filter (·.2 ≠ .empty)

theorem lookup_setFields {block : Block} (free : block.kind.isDefinition = false) {name : String}
    {value : FieldValue} (holds : block.fields.get? name = some value) :
    (setFields block).lookup name = if value = .empty then none else some value := by
  have distinct : ((block.fields.entries.filter (·.2 ≠ .empty)).map (·.1)).Nodup :=
    block.fields.keys_nodup.sublist (List.filter_sublist.map _)
  rw [setFields, free, if_neg Bool.false_ne_true]
  by_cases empty : value = .empty
  · rw [if_pos empty, List.lookup_eq_none_iff]
    rintro ⟨other, held⟩ member
    obtain ⟨listed, filled⟩ := List.mem_filter.mp member
    have different : name ≠ other := by
      rintro rfl
      cases holds.symm.trans (Dict.mem_entries.mp listed)
      simp [empty] at filled
    simp [different]
  · rw [if_neg empty, Dict.lookup_eq_some_of_mem distinct]
    exact List.mem_filter.mpr ⟨Dict.mem_entries.mpr holds, by simpa using empty⟩

theorem planFields_ok (g : Graph) (record : SavedRecord) {kind : Kind} {extent : Extent}
    {entries : List (String × FieldValue)}
    (fitting : ∀ e ∈ entries, ∃ shape, kind.slot? extent e.1 = some (.field shape) ∧ e.2.Fits shape) :
    planFields g record kind
        (entries.filterMap fun e => (fieldJson? e.2).map fun json => (e.1, json))
      = .ok (if kind.isDefinition then [] else entries.filter (·.2 ≠ .empty)) := by
  induction entries with
  | nil => cases kind.isDefinition <;> rfl
  | cons head rest ih =>
    obtain ⟨name, value⟩ := head
    rw [List.forall_mem_cons] at fitting
    obtain ⟨⟨shape, sort, fits⟩, others⟩ := fitting
    have later := ih others
    cases saved : fieldJson? value with
    | none =>
      obtain rfl : value = .empty := by cases value <;> first | rfl | cases saved
      rw [List.filterMap_cons_none rfl, List.filter_cons_of_neg (by simp)]
      exact later
    | some json =>
      have filled : value ≠ .empty := by rintro rfl; cases saved
      simp only [List.filterMap_cons, saved, Option.map_some, planFields, plannedShape?_field sort]
      cases defines : kind.isDefinition with
      | true =>
        obtain ⟨_, rfl⟩ := (Kind.bound_slot (.inl defines)).mp sort
        simp only [defines, if_true] at later
        simp [later]
      | false =>
        simp only [defines, Bool.false_eq_true, if_false] at later
        simp [later, fieldValue?_fieldJson fits saved, filled, Except.map]

theorem captureRecord_fields (block : Block) : (captureRecord block).fields.entries
    = block.fields.entries.filterMap fun e => (fieldJson? e.2).map fun json => (e.1, json) := by
  refine Dict.ofList_sorted ?_
  refine List.Pairwise.filterMap _ ?_ block.fields.ordered
  intro a b before a' madeA b' madeB
  obtain ⟨_, _, rfl⟩ := Option.map_eq_some_iff.mp madeA
  obtain ⟨_, _, rfl⟩ := Option.map_eq_some_iff.mp madeB
  exact before

theorem namedFields_capture (block : Block) :
    namedFields (captureRecord block) block.kind = (captureRecord block).fields.entries := by
  have unnamed : (extraState? block).bind (·.name) = none := by
    unfold extraState?
    split
    · rfl
    · split <;> rfl
    · rfl
  unfold namedFields
  rw [show (captureRecord block).extra = extraState? block from rfl, unnamed]
  simp

section

variable {g : Graph} (wf : g.WellFormed) {tables : Graph} (same : tables.procedures = g.procedures)

include wf

theorem fields_fitting {block : Block} (found : g.block? block.id = some block) :
    ∀ e ∈ block.fields.entries, ∃ shape,
      block.kind.slot? block.extent e.1 = some (.field shape) ∧ e.2.Fits shape := by
  have proper := (wf.built _ block found).2
  rintro ⟨name, value⟩ member
  have holds := Dict.mem_entries.mp member
  obtain ⟨shape, sort⟩ := (proper.shaped.fields name).mp (by rw [holds]; rfl)
  exact ⟨shape, sort, proper.fitting name value shape holds sort⟩

include same

-- A call has as many arguments as its procedure takes, and none where it has no procedure.
theorem plannedArity_ok {block : Block} (found : g.block? block.id = some block)
    (calls : block.kind.isCall = true) :
    plannedArity tables (setFields block) = block.extent.items := by
  have free := Kind.call_not_definition calls
  unfold plannedArity
  rcases wf.call_binds found calls with ⟨p, listed, named, _, extent⟩ | ⟨unbound, extent⟩
  · have known : tables.procedureWith? p.id = some p := by
      unfold Graph.procedureWith?
      rw [same]
      exact wf.procedureWith?_listed listed
    rw [lookup_setFields free named, extent]
    simp [known]
  · rw [lookup_setFields free unbound, extent]
    rfl

theorem plannedExtent_ok {block : Block} (found : g.block? block.id = some block) :
    plannedExtent tables (captureRecord block) block.kind (setFields block) = block.extent := by
  have allowed := (wf.built _ block found).2.allowed
  have stated : (captureRecord block).extra = extraState? block := rfl
  have plain : block.kind.variadic ≠ some .branches → ∀ items, block.extent.items = items →
      ({ items := items } : Extent) = block.extent := by
    rintro other items rfl
    exact (allowed.extent_eq other).symm
  unfold plannedExtent
  rw [stated, extraState?]
  cases grows : block.kind.variadic with
  | none => exact plain (by rw [grows]; simp) 0 (allowed.fixed grows)
  | some sort =>
    cases sort with
    | items => exact plain (by rw [grows]; simp) _ rfl
    | arguments =>
      have calls := Kind.variadic_arguments.mp grows
      exact plain (by rw [grows]; simp) _ (plannedArity_ok wf same found calls).symm
    | branches =>
      cases extent : block.extent with
      | mk items hasElse => cases items <;> cases hasElse <;> simp

theorem planRecord_ok {block : Block} (found : g.block? block.id = some block) :
    planRecord tables (captureRecord block)
      = .ok ⟨block.id, block.kind, block.extent, block.position, setFields block, []⟩ := by
  have fields := planFields_ok tables (captureRecord block) (fields_fitting wf found)
  have bounded := (wf.built _ block found).2.allowed.bounded
  have tag : Kind.ofTag? (captureRecord block).kind = some block.kind := Kind.ofTag?_tag _
  unfold planRecord
  rw [tag]
  simp only [namedFields_capture, captureRecord_fields, fields]
  refine (bind_eq_ok (x := .ok _)).mpr ⟨_, rfl, ?_⟩
  have extent := plannedExtent_ok wf same found
  unfold setFields at extent ⊢
  simp only [extent, Nat.not_lt.mpr bounded, if_false]
  cases position : block.position <;> simp [captureRecord, position]

end

structure Plans (block : Block) (planned : Planned) : Prop where
  id : planned.id = block.id
  kind : planned.kind = block.kind
  extent : planned.extent = block.extent
  position : planned.position = block.position
  fields : planned.fields = setFields block
  children : ∀ place child, (place, child) ∈ planned.children ↔ block.held place = some child
  once : planned.children.Nodup

-- Branches are saved under the name of their slot, the statement that follows by itself.
def savedBranch (branch : Place × Tree) : String × Connected SavedBlock :=
  (branch.1.slotName, ⟨some (captureTree branch.2), none⟩)

theorem captureInputs_eq (branches : List (Place × Tree)) :
    captureInputs branches = (branches.filter (·.1 ≠ .next)).map savedBranch := by
  induction branches with
  | nil => rfl
  | cons head rest ih =>
    obtain ⟨place, tree⟩ := head
    cases place <;> simp [captureInputs, ih, savedBranch, Place.slotName]

theorem captureNext_eq (branches : List (Place × Tree)) : captureNext branches
    = ((branches.filter (·.1 = .next)).head?).map fun p => ⟨some (captureTree p.2), none⟩ := by
  induction branches with
  | nil => rfl
  | cons head rest ih =>
    obtain ⟨place, tree⟩ := head
    cases place <;> simp [captureNext, ih]

theorem captureTree_id (tree : Tree) : (⟨(captureTree tree).record.id⟩ : BlockId) = tree.block.id := by
  cases tree
  rfl

-- Planning a list of blocks gives a plan for each, in some order.
def Covers (planned : List Planned) (blocks : List Block) : Prop :=
  ∃ order : List Block, order.Perm blocks ∧ List.Forall₂ Plans order planned

theorem Covers.append {first second : List Planned} {left right : List Block}
    (one : Covers first left) (two : Covers second right) : Covers (first ++ second) (left ++ right) := by
  obtain ⟨a, permA, plansA⟩ := one
  obtain ⟨b, permB, plansB⟩ := two
  exact ⟨a ++ b, permA.append permB, List.rel_append plansA plansB⟩

theorem planConnected_ok {tables : Graph} {tree : Tree} {planned : List Planned} (place : Place)
    (made : planBlock tables (captureTree tree) = .ok planned) :
    planConnected tables place ⟨some (captureTree tree), none⟩
      = .ok ⟨[(place, tree.block.id)], planned⟩ := by
  rw [planConnected, made, captureTree_id]
  rfl

theorem planInputs_ok {tables : Graph} (parent : Planned) {branches : List (Place × Tree)}
    (placed : ∀ p ∈ branches, plannedPlace? parent p.1.slotName = some p.1)
    (below : ∀ p ∈ branches, ∃ planned, planBlock tables (captureTree p.2) = .ok planned ∧
      Covers planned p.2.blocks) :
    ∃ planned, planInputs tables parent (branches.map savedBranch)
        = .ok ⟨branches.map fun p => (p.1, p.2.block.id), planned⟩ ∧
      Covers planned (branches.flatMap fun p => p.2.blocks) := by
  induction branches with
  | nil => exact ⟨[], by rw [List.map_nil, planInputs]; rfl, [], .refl _, .nil⟩
  | cons head rest ih =>
    rw [List.forall_mem_cons] at placed below
    obtain ⟨first, made, covers⟩ := below.1
    obtain ⟨others, later, covered⟩ := ih placed.2 below.2
    refine ⟨first ++ others, ?_, covers.append covered⟩
    rw [List.map_cons, savedBranch, planInputs, placed.1]
    simp only [planConnected_ok head.1 made, later]
    rfl

-- Slots of one block have different names, whether they are inputs or bodies.
theorem slotName_inj {block : Block} (shaped : block.Shaped) {p q : Place} {c d : BlockId}
    (first : block.held p = some c) (second : block.held q = some d) (one : p ≠ .next) (two : q ≠ .next)
    (same : p.slotName = q.slotName) : p = q := by
  have left := Block.hasPlace_of_held shaped first
  have right := Block.hasPlace_of_held shaped second
  cases p with
  | next => exact absurd rfl one
  | input slot =>
    cases q with
    | next => exact absurd rfl two
    | input slot' => exact congrArg Place.input same
    | body slot' =>
      have same : slot = slot' := same
      obtain ⟨check, sort⟩ := Kind.hasPlace_input.mp left
      rw [same, Kind.hasPlace_body.mp right] at sort
      cases sort
  | body slot =>
    cases q with
    | next => exact absurd rfl two
    | input slot' =>
      have same : slot = slot' := same
      obtain ⟨check, sort⟩ := Kind.hasPlace_input.mp right
      rw [← same, Kind.hasPlace_body.mp left] at sort
      cases sort
    | body slot' => exact congrArg Place.body same

theorem plannedPlace?_held {block : Block} (shaped : block.Shaped) {planned : Planned}
    (kind : planned.kind = block.kind) (extent : planned.extent = block.extent) {place : Place}
    {child : BlockId} (holds : block.held place = some child) (slotted : place ≠ .next) :
    plannedPlace? planned place.slotName = some place := by
  have has := Block.hasPlace_of_held shaped holds
  unfold plannedPlace?
  rw [kind, extent]
  cases place with
  | input slot =>
    obtain ⟨check, sort⟩ := Kind.hasPlace_input.mp has
    simp [Place.slotName, sort]
  | body slot => simp [Place.slotName, Kind.hasPlace_body.mp has]
  | next => exact absurd rfl slotted

-- At most one statement follows.
theorem followers_cases {branches : List (Place × Tree)} (distinct : (branches.map (·.1)).Nodup) :
    branches.filter (·.1 = .next) = [] ∨ ∃ tree, (.next, tree) ∈ branches ∧
      branches.filter (·.1 = .next) = [(.next, tree)] := by
  have only : ((branches.filter (·.1 = .next)).map (·.1)).Nodup :=
    distinct.sublist (List.filter_sublist.map _)
  have after : ∀ p ∈ branches.filter (·.1 = .next), p ∈ branches ∧ p.1 = .next := fun p member => by
    simpa using member
  cases followers : branches.filter (·.1 = .next) with
  | nil => exact .inl rfl
  | cons p rest =>
    rw [followers, List.forall_mem_cons] at after
    obtain ⟨⟨branch, place⟩, others⟩ := after
    cases rest with
    | nil => exact .inr ⟨p.2, place ▸ branch, by rw [← place]⟩
    | cons q rest =>
      rw [followers, List.map_cons, List.map_cons, place, (others q List.mem_cons_self).2] at only
      simp at only

theorem planNext_ok (tables : Graph) {branches : List (Place × Tree)}
    (distinct : (branches.map (·.1)).Nodup)
    (below : ∀ p ∈ branches, ∃ planned, planBlock tables (captureTree p.2) = .ok planned ∧
      Covers planned p.2.blocks) :
    ∃ planned, planNext tables (captureNext branches)
        = .ok ⟨(branches.filter (·.1 = .next)).map fun p => (p.1, p.2.block.id), planned⟩ ∧
      Covers planned ((branches.filter (·.1 = .next)).flatMap fun p => p.2.blocks) := by
  rw [captureNext_eq]
  rcases followers_cases distinct with none | ⟨tree, branch, follower⟩
  · rw [none]
    exact ⟨[], rfl, [], .refl _, .nil⟩
  · obtain ⟨planned, made, covers⟩ := below _ branch
    rw [follower]
    refine ⟨planned, ?_, by simpa using covers⟩
    rw [List.head?_cons, Option.map_some, planNext, planConnected_ok .next made]
    rfl

-- The saved slots are the branches in the order of their names.
theorem captureInputs_sorted {g : Graph} (wf : g.WellFormed) {block : Block}
    {branches : List (Place × Tree)} (full : g.Full (.node block branches)) :
    ∃ slotted, (∀ p ∈ slotted, p ∈ branches ∧ p.1 ≠ .next) ∧
      (slotted ++ branches.filter (·.1 = .next)).Perm branches ∧
      slotted.map savedBranch = (Dict.ofList (captureInputs branches)).entries := by
  have shaped := (wf.built _ block full.found).2.shaped
  have names : ((captureInputs branches).map (·.1)).Nodup := by
    rw [captureInputs_eq, List.map_map]
    refine List.Nodup.map_on ?_ ((List.Nodup.of_map _ full.places_nodup).filter _)
    rintro ⟨p, s⟩ first ⟨q, t⟩ second named
    obtain ⟨first, one⟩ := List.mem_filter.mp first
    obtain ⟨second, two⟩ := List.mem_filter.mp second
    have place := slotName_inj shaped (full.branch first) (full.branch second) (by simpa using one)
      (by simpa using two) named
    exact List.inj_on_of_nodup_map full.places_nodup first second place
  have sorted := Dict.ofList_perm names
  rw [captureInputs_eq] at sorted
  obtain ⟨slotted, rearranged, saved⟩ := exists_perm_map sorted
  rw [← captureInputs_eq] at saved
  refine ⟨slotted, fun p member => by simpa using rearranged.subset member, ?_, saved⟩
  refine (rearranged.append_right _).trans ?_
  have both := List.filter_append_perm (fun p : Place × Tree => decide (p.1 ≠ .next)) branches
  simpa using both

theorem planTree_ok {g tables : Graph} (wf : g.WellFormed) (same : tables.procedures = g.procedures)
    {tree : Tree} (full : g.Full tree) :
    ∃ planned, planBlock tables (captureTree tree) = .ok planned ∧ Covers planned tree.blocks := by
  induction full with
  | @node block branches found whole below ih =>
    have full := Graph.Full.node found whole below
    have shaped := (wf.built _ block found).2.shaped
    obtain ⟨slotted, slots, split, saved⟩ := captureInputs_sorted wf full
    obtain ⟨inner, made, covered⟩ := planInputs_ok
      ⟨block.id, block.kind, block.extent, block.position, setFields block, []⟩
      (fun p member => plannedPlace?_held shaped rfl rfl (full.branch (slots p member).1) (slots p member).2)
      (fun p member => ih p (slots p member).1)
    obtain ⟨last, ended, covered'⟩ := planNext_ok tables full.places_nodup ih
    have links : (slotted.map (fun p => (p.1, p.2.block.id))
        ++ (branches.filter (·.1 = .next)).map fun p => (p.1, p.2.block.id)).Perm block.links := by
      rw [← List.map_append, ← whole]
      exact split.map _
    have plans : Plans block ⟨block.id, block.kind, block.extent, block.position, setFields block,
        slotted.map (fun p => (p.1, p.2.block.id))
          ++ (branches.filter (·.1 = .next)).map fun p => (p.1, p.2.block.id)⟩ :=
      ⟨rfl, rfl, rfl, rfl, rfl, fun place child => links.mem_iff.trans Block.mem_links,
        links.nodup_iff.mpr (List.Nodup.of_map _ block.links_nodup)⟩
    obtain ⟨order, perm, each⟩ := covered.append covered'
    refine ⟨_, ?_, block :: order, ?_, .cons plans each⟩
    · rw [captureTree, planBlock, planRecord_ok wf same found, ← saved]
      simp only [bind, Except.bind, made, ended]
      rfl
    · rw [Tree.blocks, Tree.blocksOf_eq]
      refine (perm.trans ?_).cons block
      rw [← List.flatMap_append]
      exact split.flatMap_right _

theorem planAll_ok {g tables : Graph} (wf : g.WellFormed) (same : tables.procedures = g.procedures)
    {trees : List Tree} (full : ∀ tree ∈ trees, g.Full tree) :
    ∃ planned, planAll tables (trees.map captureTree) = .ok planned ∧
      Covers planned (trees.flatMap Tree.blocks) := by
  induction trees with
  | nil => exact ⟨[], rfl, [], .refl _, .nil⟩
  | cons tree rest ih =>
    rw [List.forall_mem_cons] at full
    obtain ⟨first, made, covers⟩ := planTree_ok wf same full.1
    obtain ⟨others, later, covered⟩ := ih full.2
    refine ⟨first ++ others, ?_, covers.append covered⟩
    rw [List.map_cons, planAll, made, later]
    rfl

end Snapshot
end Blockwork
