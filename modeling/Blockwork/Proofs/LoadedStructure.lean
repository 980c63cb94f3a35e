import Mathlib
import Blockwork.Proofs.LoadStages

-- A form that loads is loaded as it stands: each block that can be reached in it is in the graph,
-- under its own id and at its own place. Repeated ids and definitions below other blocks are found
-- by the edits that carry out the plan, so of a form that loads they need not be feared.
namespace Blockwork

-- Place that a name stands for on a block of the graph, if its kind has a slot for it.
def Graph.placeNamed? (g : Graph) (id : BlockId) (name : String) : Option Place :=
  (g.block? id).bind fun block =>
    match block.kind.slot? block.extent name with
    | some (.input _) => some (.input name)
    | some .body => some (.body name)
    | _ => none

namespace Snapshot

open Blockwork.Graph

-- Which place of a block a name stands for.
abbrev Seating := BlockId → String → Option Place

mutual

-- A saved block and all that can be reached below it, each with the place that it hangs at. A block
-- counts before a shadow, and an input that names no place does not count.
def reached (seat : Seating) (link : Option ParentLink) : SavedBlock → List (SavedRecord × Option ParentLink)
  | .mk record inputs next =>
    (record, link) :: (reachedInputs seat ⟨record.id⟩ inputs ++ reachedNext seat ⟨record.id⟩ next)

def reachedInputs (seat : Seating) (id : BlockId) :
    List (String × Connected SavedBlock) → List (SavedRecord × Option ParentLink)
  | [] => []
  | (name, connected) :: rest =>
    (match seat id name with
      | some place => reachedConnected seat ⟨id, place⟩ connected
      | none => []) ++ reachedInputs seat id rest

def reachedNext (seat : Seating) (id : BlockId) :
    Option (Connected SavedBlock) → List (SavedRecord × Option ParentLink)
  | none => []
  | some connected => reachedConnected seat ⟨id, .next⟩ connected

def reachedConnected (seat : Seating) (link : ParentLink) :
    Connected SavedBlock → List (SavedRecord × Option ParentLink)
  | ⟨some block, _⟩ => reached seat (some link) block
  | ⟨none, some block⟩ => reached seat (some link) block
  | ⟨none, none⟩ => []

end

def savedPosition (record : SavedRecord) : Option Position :=
  match record.x, record.y with
  | some x, some y => some ⟨x, y⟩
  | _, _ => none

-- Extent that a record states. A call has the arguments of the procedure that it is bound to.
def savedExtent (g : Graph) (record : SavedRecord) (block : Block) : Extent :=
  match block.kind.variadic with
  | some .items => { items := (record.extra.bind (·.itemCount)).getD block.kind.defaultExtent.items }
  | some .branches =>
    { items := (record.extra.bind (·.elseIfCount)).getD 0
      hasElse := (record.extra.bind (·.hasElse)).getD false }
  | some .arguments =>
    { items := (((block.procedureIn? "NAME").bind g.procedureWith?).map (·.params.length)).getD 0 }
  | none => {}

-- The block of the graph is what the record says, and it hangs at the place.
structure Stands (g : Graph) (record : SavedRecord) (link : Option ParentLink) (block : Block) : Prop where
  found : g.block? ⟨record.id⟩ = some block
  id : block.id = ⟨record.id⟩
  kind : Kind.ofTag? record.kind = some block.kind
  extent : block.extent = savedExtent g record block
  position : block.position = savedPosition record
  parent : block.parent = link
  held : ∀ l, link = some l → ∃ p, g.block? l.parent = some p ∧ p.held l.place = some block.id

-- The plan of one record.
theorem planRecord_eq_ok {g : Graph} {record : SavedRecord} {p : Planned} (made : planRecord g record = .ok p) :
    ∃ kind fields, Kind.ofTag? record.kind = some kind ∧
      planFields g record kind (namedFields record kind) = .ok fields ∧
      p = ⟨⟨record.id⟩, kind, plannedExtent g record kind fields, savedPosition record, fields, []⟩ := by
  unfold planRecord at made
  cases tag : Kind.ofTag? record.kind with
  | none => simp [tag] at made
  | some kind =>
    simp only [tag] at made
    obtain ⟨fields, planned, rest⟩ := bind_eq_ok.mp made
    split at rest
    · cases rest
    · cases rest
      exact ⟨kind, fields, rfl, planned, rfl⟩

theorem planFields_names {g : Graph} {record : SavedRecord} {kind : Kind} {entries : List (String × Json)}
    {fields : List (String × FieldValue)} (made : planFields g record kind entries = .ok fields) :
    (fields.map (·.1)).Sublist (entries.map (·.1)) ∧
      ∀ name ∈ fields.map (·.1), (plannedShape? kind name).isSome := by
  induction entries generalizing fields with
  | nil =>
    cases made
    exact ⟨.slnil, by simp⟩
  | cons entry rest ih =>
    obtain ⟨name, json⟩ := entry
    rw [planFields] at made
    split at made
    · obtain ⟨fewer, shaped⟩ := ih made
      exact ⟨fewer.cons name, shaped⟩
    · next shape planned =>
      split at made
      · cases made
      · obtain ⟨others, later, rfl⟩ := map_eq_ok.mp made
        obtain ⟨fewer, shaped⟩ := ih later
        exact ⟨fewer.cons_cons name, List.forall_mem_cons.mpr ⟨by simp [planned], shaped⟩⟩

theorem namedFields_nodup (record : SavedRecord) (kind : Kind) :
    ((namedFields record kind).map (·.1)).Nodup := by
  unfold namedFields
  split
  · next unnamed =>
    cases record.extra.bind (·.name) with
    | none => simpa using record.fields.keys_nodup
    | some name =>
      rw [List.map_append, List.nodup_append]
      refine ⟨record.fields.keys_nodup, by simp, ?_⟩
      rintro key listed other single rfl
      obtain ⟨⟨_, json⟩, member, rfl⟩ := List.mem_map.mp listed
      have present := Dict.mem_entries.mp member
      simp at single
      simp [single] at present
      simp [Dict.contains, present] at unnamed
  · simpa using record.fields.keys_nodup

-- A call is planned with its procedure or with no field at all.
theorem planFields_single {g : Graph} {record : SavedRecord} {kind : Kind} (calls : kind.isCall = true)
    {fields : List (String × FieldValue)}
    (made : planFields g record kind (namedFields record kind) = .ok fields) :
    fields = [] ∨ ∃ value, fields = [("NAME", value)] := by
  obtain ⟨fewer, shaped⟩ := planFields_names made
  have distinct := (namedFields_nodup record kind).sublist fewer
  have named : ∀ name ∈ fields.map (·.1), name = "NAME" := by
    intro name member
    have present := shaped name member
    cases kind with
    | call returns =>
      by_contra other
      simp [plannedShape?, Kind.fixedSlots, Slot.procedureRef, Ne.symm other] at present
    | _ => cases calls
  cases fields with
  | nil => exact .inl rfl
  | cons first rest =>
    obtain ⟨name, value⟩ := first
    rw [List.map_cons, List.forall_mem_cons] at named
    obtain ⟨rfl, others⟩ := named
    cases rest with
    | nil => exact .inr ⟨value, rfl⟩
    | cons second rest =>
      have same := others second.1 (by simp)
      simp [same] at distinct

theorem redrawAll_fields (g : Graph) (id : BlockId) (fields : List (String × FieldValue)) (x : BlockId)
    (s : Sketch) (still : x ≠ id ∨ s.kind.isCall = false) :
    redrawAll g (fields.map fun f => .setField id f.1 f.2) x s = s := by
  induction fields with
  | nil => rfl
  | cons f rest ih =>
    have step : redraw g x s (.setField id f.1 f.2) = s :=
      if_neg fun both => still.elim (absurd both.1) fun plain => by simp [plain] at both
    exact (congrArg _ step).trans ih

theorem extentEdits_apart (g : Graph) (p : Planned) (x : BlockId) (s : Sketch) (other : p.id ≠ x) :
    redrawAll g p.extentEdits x s = s := by
  unfold Planned.extentEdits
  split <;> simp [redrawAll, redraw, Ne.symm other]

-- The edits of a block give it the extent that was planned.
theorem redrawAll_shape {g : Graph} {record : SavedRecord} {p : Planned}
    (made : planRecord g record = .ok { p with children := [] }) :
    redrawAll g p.fieldEdits p.id (redrawAll g p.extentEdits p.id (.new p.kind))
      = ⟨p.kind, p.extent, none, none⟩ := by
  obtain ⟨kind, fields, _, planned, same⟩ := planRecord_eq_ok made
  rw [Planned.mk.injEq] at same
  obtain ⟨_, rfl, extent, _, rfl, _⟩ := same
  have default : p.kind.variadic ≠ some .items → p.kind.defaultExtent = {} := by
    cases p.kind <;> simp [Kind.variadic, Kind.defaultExtent]
  have flat : p.kind.defaultExtent.hasElse = false := by cases p.kind <;> rfl
  unfold Planned.fieldEdits Planned.extentEdits
  rw [extent, plannedExtent]
  cases grows : p.kind.variadic with
  | none =>
    have free : p.kind.isCall = false := by
      by_contra calls
      simp [Kind.variadic_arguments.mpr (by simpa using calls)] at grows
    refine (redrawAll_fields g _ p.fields _ _ (.inr free)).trans ?_
    simp [redrawAll, Sketch.new, default (by simp [grows])]
  | some sort =>
    cases sort with
    | items =>
      refine (redrawAll_fields g _ p.fields _ _ (.inr ?_)).trans ?_
      · simpa [redrawAll, redraw, Sketch.new] using (Kind.plain_of_variadic grows (by simp)).2
      · simp [redrawAll, redraw, Sketch.new, flat]
    | branches =>
      refine (redrawAll_fields g _ p.fields _ _ (.inr ?_)).trans ?_
      · simpa [redrawAll, redraw, Sketch.new] using (Kind.plain_of_variadic grows (by simp)).2
      · simp [redrawAll, redraw, Sketch.new]
    | arguments =>
      have calls := Kind.variadic_arguments.mp grows
      rcases planFields_single calls planned with unset | ⟨value, set⟩
      · simp [unset, redrawAll, Sketch.new, default (by simp [grows]), plannedArity]
      · simp [set, redrawAll, redraw, Sketch.new, calls]

-- The plan of a form, compared with what can be reached in it.
def plannedLinks (planned : List Planned) : List (BlockId × ParentLink) :=
  planned.flatMap fun p => p.children.map fun c => (c.2, ⟨p.id, c.1⟩)

def reachedLinks (entries : List (SavedRecord × Option ParentLink)) : List (BlockId × ParentLink) :=
  entries.filterMap fun e => e.2.map fun link => (⟨e.1.id⟩, link)

theorem plannedLinks_append (first second : List Planned) :
    plannedLinks (first ++ second) = plannedLinks first ++ plannedLinks second := List.flatMap_append

theorem reachedLinks_append (first second : List (SavedRecord × Option ParentLink)) :
    reachedLinks (first ++ second) = reachedLinks first ++ reachedLinks second := List.filterMap_append

-- The plan has one block for each entry, in the same order.
def Matches (g : Graph) (entry : SavedRecord × Option ParentLink) (p : Planned) : Prop :=
  planRecord g entry.1 = .ok { p with children := [] }

-- The names stand for places as they were planned.
def Agrees (seat : Seating) (planned : List Planned) : Prop :=
  ∀ p ∈ planned, ∀ name, seat p.id name = plannedPlace? p name

theorem Agrees.append_left {seat : Seating} {first second : List Planned} (agrees : Agrees seat (first ++ second)) :
    Agrees seat first := fun p member => agrees p (List.mem_append_left _ member)

theorem Agrees.append_right {seat : Seating} {first second : List Planned} (agrees : Agrees seat (first ++ second)) :
    Agrees seat second := fun p member => agrees p (List.mem_append_right _ member)

theorem perm_interchange {α : Type} (a b c d : List α) :
    ((a ++ b) ++ (c ++ d)).Perm ((a ++ c) ++ (b ++ d)) := by
  rw [List.append_assoc, List.append_assoc]
  exact (List.perm_append_comm_assoc b c d).append_left a

mutual

theorem planBlock_reached {g : Graph} {seat : Seating} {saved : SavedBlock} {planned : List Planned}
    (made : planBlock g saved = .ok planned) (agrees : Agrees seat planned) (link : Option ParentLink) :
    List.Forall₂ (Matches g) (reached seat link saved) planned ∧
      (reachedLinks (reached seat link saved)).Perm
        (link.toList.map (fun l => (⟨saved.record.id⟩, l)) ++ plannedLinks planned) := by
  cases saved with
  | mk record inputs next =>
    rw [planBlock] at made
    obtain ⟨own, single, later⟩ := bind_eq_ok.mp made
    obtain ⟨below, under, later⟩ := bind_eq_ok.mp later
    obtain ⟨after, behind, same⟩ := bind_eq_ok.mp later
    cases same
    obtain ⟨kind, fields, _, _, rfl⟩ := planRecord_eq_ok single
    obtain ⟨here, rest⟩ := List.forall_mem_cons.mp agrees
    obtain ⟨inputsMatch, inputsLinks⟩ := planInputs_reached under here (Agrees.append_left rest)
    obtain ⟨nextMatch, nextLinks⟩ := planNext_reached behind ⟨record.id⟩ (Agrees.append_right rest)
    rw [reached]
    refine ⟨.cons single (List.rel_append inputsMatch nextMatch), ?_⟩
    have links := (inputsLinks.append nextLinks).trans (perm_interchange _ _ _ _)
    have head : reachedLinks ((record, link) :: (reachedInputs seat ⟨record.id⟩ inputs
        ++ reachedNext seat ⟨record.id⟩ next)) = link.toList.map (fun l => (⟨record.id⟩, l))
        ++ (reachedLinks (reachedInputs seat ⟨record.id⟩ inputs)
          ++ reachedLinks (reachedNext seat ⟨record.id⟩ next)) := by
      rw [← reachedLinks_append]
      cases link <;> rfl
    rw [head]
    refine List.Perm.append_left _ (links.trans ?_)
    rw [← List.map_append, ← plannedLinks_append]
    exact .refl _

theorem planInputs_reached {g : Graph} {seat : Seating} {parent : Planned} {inputs : List (String × Connected SavedBlock)}
    {branches : Branches} (made : planInputs g parent inputs = .ok branches)
    (here : ∀ name, seat parent.id name = plannedPlace? parent name)
    (agrees : Agrees seat branches.blocks) :
    List.Forall₂ (Matches g) (reachedInputs seat parent.id inputs) branches.blocks ∧
      (reachedLinks (reachedInputs seat parent.id inputs)).Perm
        (branches.children.map (fun c => (c.2, ⟨parent.id, c.1⟩)) ++ plannedLinks branches.blocks) := by
  match inputs with
  | [] =>
    cases made
    exact ⟨.nil, .refl _⟩
  | (name, connected) :: rest =>
    rw [planInputs] at made
    rw [reachedInputs, here name]
    cases place : plannedPlace? parent name with
    | none =>
      rw [place] at made
      exact planInputs_reached made here agrees
    | some place =>
      rw [place] at made
      obtain ⟨first, one, later⟩ := bind_eq_ok.mp made
      obtain ⟨others, more, same⟩ := bind_eq_ok.mp later
      cases same
      obtain ⟨firstMatch, firstLinks⟩ := planConnected_reached one parent.id agrees.append_left
      obtain ⟨othersMatch, othersLinks⟩ := planInputs_reached more here agrees.append_right
      refine ⟨List.rel_append firstMatch othersMatch, ?_⟩
      rw [reachedLinks_append, plannedLinks_append, List.map_append]
      exact (firstLinks.append othersLinks).trans (perm_interchange _ _ _ _)

theorem planNext_reached {g : Graph} {seat : Seating} {next : Option (Connected SavedBlock)} {branches : Branches}
    (made : planNext g next = .ok branches) (id : BlockId) (agrees : Agrees seat branches.blocks) :
    List.Forall₂ (Matches g) (reachedNext seat id next) branches.blocks ∧
      (reachedLinks (reachedNext seat id next)).Perm
        (branches.children.map (fun c => (c.2, ⟨id, c.1⟩)) ++ plannedLinks branches.blocks) := by
  match next with
  | none =>
    cases made
    exact ⟨.nil, .refl _⟩
  | some connected => exact planConnected_reached made id agrees

theorem planConnected_reached {g : Graph} {seat : Seating} {place : Place} {connected : Connected SavedBlock}
    {branches : Branches} (made : planConnected g place connected = .ok branches) (id : BlockId)
    (agrees : Agrees seat branches.blocks) :
    List.Forall₂ (Matches g) (reachedConnected seat ⟨id, place⟩ connected) branches.blocks ∧
      (reachedLinks (reachedConnected seat ⟨id, place⟩ connected)).Perm
        (branches.children.map (fun c => (c.2, ⟨id, c.1⟩)) ++ plannedLinks branches.blocks) := by
  match connected with
  | ⟨some block, _⟩ =>
    obtain ⟨planned, below, same⟩ := bind_eq_ok.mp made
    cases same
    exact planBlock_reached below agrees (some ⟨id, place⟩)
  | ⟨none, some block⟩ =>
    obtain ⟨planned, below, same⟩ := bind_eq_ok.mp made
    cases same
    exact planBlock_reached below agrees (some ⟨id, place⟩)
  | ⟨none, none⟩ =>
    cases made
    exact ⟨.nil, .refl _⟩

end

theorem planAll_reached {g : Graph} {seat : Seating} {tops : List SavedBlock} {planned : List Planned}
    (made : planAll g tops = .ok planned) (agrees : Agrees seat planned) :
    List.Forall₂ (Matches g) (tops.flatMap (reached seat none)) planned ∧
      (reachedLinks (tops.flatMap (reached seat none))).Perm (plannedLinks planned) := by
  induction tops generalizing planned with
  | nil =>
    cases made
    exact ⟨.nil, .refl _⟩
  | cons top rest ih =>
    obtain ⟨first, one, later⟩ := bind_eq_ok.mp made
    obtain ⟨others, more, same⟩ := bind_eq_ok.mp later
    cases same
    obtain ⟨firstMatch, firstLinks⟩ := planBlock_reached one agrees.append_left none
    obtain ⟨othersMatch, othersLinks⟩ := ih more agrees.append_right
    rw [List.flatMap_cons, reachedLinks_append, plannedLinks_append]
    exact ⟨List.rel_append firstMatch othersMatch, firstLinks.append othersLinks⟩

-- Planned definitions are among all the definitions of the form.
theorem tag_of_ofTag? {tag : String} {kind : Kind} (known : Kind.ofTag? tag = some kind) :
    kind.tag = tag := by
  have same := List.find?_some known
  exact beq_iff_eq.mp same

def definedBlocks (planned : List Planned) : List (BlockId × Kind) :=
  (planned.filter (·.kind.isDefinition)).map plannedBlock

theorem definedBlocks_cons (p : Planned) (rest : List Planned) : definedBlocks (p :: rest)
    = (if p.kind.isDefinition then [(p.id, p.kind)] else []) ++ definedBlocks rest := by
  rw [definedBlocks, List.filter_cons]
  split <;> rfl

theorem definedBlocks_append (first second : List Planned) :
    definedBlocks (first ++ second) = definedBlocks first ++ definedBlocks second := by
  rw [definedBlocks, List.filter_append, List.map_append]
  rfl

theorem definition_of_tag {kind : Kind} (defines : kind.isDefinition = true) :
    kind = .definition (kind.tag == (Kind.definition true).tag) := by
  cases kind with
  | definition returns => cases returns <;> decide
  | _ => cases defines

mutual

theorem planBlock_defines {g : Graph} {saved : SavedBlock} {planned : List Planned}
    (made : planBlock g saved = .ok planned) :
    (definedBlocks planned).Sublist ((definitions saved).map definedBy) := by
  cases saved with
  | mk record inputs next =>
    rw [planBlock] at made
    obtain ⟨own, single, later⟩ := bind_eq_ok.mp made
    obtain ⟨below, under, later⟩ := bind_eq_ok.mp later
    obtain ⟨after, behind, same⟩ := bind_eq_ok.mp later
    cases same
    obtain ⟨kind, fields, tag, _, rfl⟩ := planRecord_eq_ok single
    have written := tag_of_ofTag? tag
    have rest := (planInputs_defines under).append (planNext_defines behind)
    rw [← definedBlocks_append, ← List.map_append] at rest
    rw [definitions, ← written, isDefinitionTag_tag, List.append_assoc, List.map_append,
      definedBlocks_cons]
    refine List.Sublist.append ?_ rest
    cases defines : kind.isDefinition with
    | true =>
      have own : definedBy (.mk record inputs next) = (⟨record.id⟩, kind) := by
        rw [definedBy, returnsValue, SavedBlock.record, ← written, ← definition_of_tag defines]
      simp [own]
    | false => simp

theorem planInputs_defines {g : Graph} {parent : Planned} {inputs : List (String × Connected SavedBlock)}
    {branches : Branches} (made : planInputs g parent inputs = .ok branches) :
    (definedBlocks branches.blocks).Sublist ((definitionsInputs inputs).map definedBy) := by
  match inputs with
  | [] =>
    cases made
    exact .slnil
  | (name, connected) :: rest =>
    rw [planInputs] at made
    rw [definitionsInputs, List.map_append]
    cases place : plannedPlace? parent name with
    | none =>
      rw [place] at made
      exact (planInputs_defines made).trans (List.sublist_append_right _ _)
    | some place =>
      rw [place] at made
      obtain ⟨first, one, later⟩ := bind_eq_ok.mp made
      obtain ⟨others, more, same⟩ := bind_eq_ok.mp later
      cases same
      rw [definedBlocks_append]
      exact (planConnected_defines one).append (planInputs_defines more)

theorem planNext_defines {g : Graph} {next : Option (Connected SavedBlock)} {branches : Branches}
    (made : planNext g next = .ok branches) :
    (definedBlocks branches.blocks).Sublist ((definitionsNext next).map definedBy) := by
  match next with
  | none =>
    cases made
    exact .slnil
  | some connected => exact planConnected_defines made

theorem planConnected_defines {g : Graph} {place : Place} {connected : Connected SavedBlock}
    {branches : Branches} (made : planConnected g place connected = .ok branches) :
    (definedBlocks branches.blocks).Sublist ((definitionsConnected connected).map definedBy) := by
  match connected with
  | ⟨some block, _⟩ =>
    obtain ⟨planned, below, same⟩ := bind_eq_ok.mp made
    cases same
    exact planBlock_defines below
  | ⟨none, some block⟩ =>
    obtain ⟨planned, below, same⟩ := bind_eq_ok.mp made
    cases same
    exact planBlock_defines below
  | ⟨none, none⟩ =>
    cases made
    exact .slnil

end

theorem planAll_defines {g : Graph} {tops : List SavedBlock} {planned : List Planned}
    (made : planAll g tops = .ok planned) :
    (definedBlocks planned).Sublist ((tops.flatMap definitions).map definedBy) := by
  induction tops generalizing planned with
  | nil =>
    cases made
    exact .slnil
  | cons top rest ih =>
    obtain ⟨first, one, later⟩ := bind_eq_ok.mp made
    obtain ⟨others, more, same⟩ := bind_eq_ok.mp later
    cases same
    rw [definedBlocks_append, List.flatMap_cons, List.map_append]
    exact (planBlock_defines one).append (ih more)

-- What the script of a plan comes to, block by block.
theorem fieldEdits_apart (g : Graph) (p : Planned) (x : BlockId) (s : Sketch) (other : p.id ≠ x) :
    redrawAll g p.fieldEdits x s = s := redrawAll_fields g p.id p.fields x s (.inl (Ne.symm other))

theorem extentEdits_shapes (planned : List Planned) : ∀ e ∈ planned.flatMap Planned.extentEdits, shapes e := by
  intro e member
  obtain ⟨p, _, own⟩ := List.mem_flatMap.mp member
  unfold Planned.extentEdits at own
  split at own
  · rw [List.mem_singleton.mp own]
    rfl
  · rcases List.mem_pair.mp own with rfl | rfl <;> rfl
  · cases own

theorem fieldEdits_shapes (planned : List Planned) : ∀ e ∈ planned.flatMap Planned.fieldEdits, shapes e := by
  intro e member
  obtain ⟨p, _, own⟩ := List.mem_flatMap.mp member
  obtain ⟨_, _, rfl⟩ := List.mem_map.mp own
  rfl

def layoutEdits (form : Form) (planned : List Planned) : List Edit :=
  planned.flatMap Planned.linkEdits ++ orderEdits form

theorem layoutEdits_arranges (form : Form) (planned : List Planned) :
    ∀ e ∈ layoutEdits form planned, arranges e := by
  intro e member
  rcases List.mem_append.mp member with linked | ordered
  · obtain ⟨p, _, own⟩ := List.mem_flatMap.mp linked
    rcases List.mem_append.mp own with attached | moved
    · obtain ⟨_, _, rfl⟩ := List.mem_map.mp attached
      rfl
    · obtain ⟨_, _, rfl⟩ := List.mem_map.mp moved
      rfl
  · obtain ⟨_, _, rfl⟩ := List.mem_map.mp ordered
    rfl

theorem filterMap_layoutEdits {β : Type} {sets : Edit → Option β}
    (still : ∀ id index, sets (.reorderRoot id index) = none) (form : Form) (planned : List Planned) :
    (layoutEdits form planned).filterMap sets
      = planned.flatMap fun p => p.children.filterMap (fun c => sets (.attach p.id c.1 c.2))
        ++ p.position.toList.filterMap fun position => sets (.setPosition p.id position) := by
  have none : (orderEdits form).filterMap sets = [] := by
    rw [orderEdits, List.filterMap_map]
    exact List.filterMap_eq_nil_iff.mpr fun _ _ => still _ _
  rw [layoutEdits, List.filterMap_append, none, List.append_nil, List.filterMap_flatMap]
  congr 1
  funext p
  rw [Planned.linkEdits, List.filterMap_append, List.filterMap_map, List.filterMap_map]
  rfl

theorem layoutEdits_links (form : Form) (planned : List Planned) :
    (layoutEdits form planned).filterMap linkSet = plannedLinks planned := by
  rw [filterMap_layoutEdits (fun _ _ => rfl), plannedLinks]
  simp [linkSet]

-- Positions of a plan, as they are set.
def plannedPositions (planned : List Planned) : List (BlockId × Position) :=
  planned.flatMap fun p => p.position.toList.map fun position => (p.id, position)

theorem layoutEdits_positions (form : Form) (planned : List Planned) :
    (layoutEdits form planned).filterMap positionSet = plannedPositions planned := by
  rw [filterMap_layoutEdits (fun _ _ => rfl), plannedPositions]
  simp [positionSet]

theorem plannedPositions_sublist (planned : List Planned) :
    ((plannedPositions planned).map (·.1)).Sublist (planned.map (·.id)) := by
  induction planned with
  | nil => exact .slnil
  | cons p rest ih =>
    rw [plannedPositions, List.flatMap_cons, List.map_append, List.map_cons]
    cases p.position with
    | none => exact ih.cons p.id
    | some position => exact ih.cons_cons p.id

theorem mem_plannedPositions {planned : List Planned} (distinct : (planned.map (·.id)).Nodup) {p : Planned}
    (member : p ∈ planned) {position : Position} :
    (p.id, position) ∈ plannedPositions planned ↔ p.position = some position := by
  rw [plannedPositions, List.mem_flatMap]
  constructor
  · rintro ⟨q, other, listed⟩
    obtain ⟨laid, there, same⟩ := List.mem_map.mp listed
    cases List.inj_on_of_nodup_map distinct other member (congrArg Prod.fst same)
    rw [Option.mem_toList.mp there, ← show laid = position from congrArg Prod.snd same]
  · intro laid
    exact ⟨p, member, List.mem_map.mpr ⟨position, Option.mem_toList.mpr laid, rfl⟩⟩

theorem script_run {form : Form} {planned : List Planned} {tables w : Workspace}
    (carried : editAll tables (script form planned) = .ok w) :
    ∃ added linked, editAll tables (planned.flatMap Planned.addEdits) = .ok added ∧
      editAll linked (orderEdits form) = .ok w ∧
      (added.graph.Loose → ∀ x, w.graph.sketch x = (added.graph.sketch x).map fun s =>
        redrawAll tables.graph (layoutEdits form planned) x
          (redrawAll tables.graph
            (planned.flatMap Planned.extentEdits ++ planned.flatMap Planned.fieldEdits) x s)) := by
  rw [script] at carried
  obtain ⟨linked, before, ordered⟩ := editAll_append_eq_ok.mp carried
  obtain ⟨filled, before, linking⟩ := editAll_append_eq_ok.mp before
  rw [List.append_assoc] at before
  obtain ⟨added, adding, shaping⟩ := editAll_append_eq_ok.mp before
  refine ⟨added, linked, adding, ordered, fun loose x => ?_⟩
  have tablesKept : added.graph.procedures = tables.graph.procedures := by
    refine (editAll_spares (fun e member => script_spares form planned e ?_) adding).1
    simp only [script, List.append_assoc]
    exact List.mem_append_left _ member
  have shapesAll : ∀ e ∈ planned.flatMap Planned.extentEdits ++ planned.flatMap Planned.fieldEdits,
      shapes e := by
    intro e member
    rcases List.mem_append.mp member with grown | set
    · exact extentEdits_shapes planned e grown
    · exact fieldEdits_shapes planned e set
  have laid : editAll filled (layoutEdits form planned) = .ok w :=
    editAll_append_eq_ok.mpr ⟨linked, linking, ordered⟩
  rw [arrange_run (layoutEdits_arranges form planned) laid tables.graph,
    shape_run shapesAll tablesKept loose shaping, Option.map_map]
  rfl

-- After the first stage all planned blocks are there, and all else is a definition.
theorem added_blocks {form : Form} {tables added : Workspace} {planned : List Planned}
    (declared : declareTables form = .ok tables) (plan : planAll tables.graph form.blocks = .ok planned)
    (adding : editAll tables (planned.flatMap Planned.addEdits) = .ok added) :
    (planned.map (·.id)).Nodup ∧ (∀ p ∈ planned, added.graph.sketch p.id = some (.new p.kind)) ∧
      ∀ x s, added.graph.sketch x = some s → s = .new s.kind ∧
        (x ∈ planned.map (·.id) ∨ ∃ d ∈ form.blocks.flatMap definitions, definedBy d = (x, s.kind)) := by
  have all := (declareTables_adds declared).append (addEdits_adds adding)
  have within : (planned.map plannedBlock).Subperm ((form.blocks.flatMap definitions).map definedBy
      ++ (planned.filter fun p => !p.kind.isDefinition).map plannedBlock) := by
    have parts := (List.filter_append_perm (fun p : Planned => p.kind.isDefinition) planned).map plannedBlock
    rw [List.map_append] at parts
    exact parts.symm.subperm.trans ((planAll_defines plan).append (.refl _)).subperm
  refine ⟨?_, ?_, ?_⟩
  · obtain ⟨others, same, fewer⟩ := within
    have distinct := all.distinct.sublist (fewer.map (·.1))
    simpa [plannedBlock, Function.comp_def] using ((same.map (·.1)).nodup_iff.mp distinct)
  · intro p member
    exact all.present (plannedBlock p) (within.subset (List.mem_map_of_mem member))
  · intro x s there
    by_cases listed : x ∈ ((form.blocks.flatMap definitions).map definedBy
        ++ (planned.filter fun p => !p.kind.isDefinition).map plannedBlock).map (·.1)
    · obtain ⟨⟨_, kind⟩, member, rfl⟩ := List.mem_map.mp listed
      have known := all.present _ member
      rw [there] at known
      cases known
      refine ⟨rfl, ?_⟩
      rcases List.mem_append.mp member with defined | other
      · obtain ⟨d, among, same⟩ := List.mem_map.mp defined
        exact .inr ⟨d, among, same⟩
      · obtain ⟨p, among, same⟩ := List.mem_map.mp other
        refine .inl (List.mem_map.mpr ⟨p, List.mem_of_mem_filter among, ?_⟩)
        exact congrArg Prod.fst same
    · rw [all.kept x listed] at there
      cases there

theorem exists_matching {α β : Type} {R : α → β → Prop} {as : List α} {bs : List β}
    (related : List.Forall₂ R as bs) : (∀ a ∈ as, ∃ b ∈ bs, R a b) ∧ ∀ b ∈ bs, ∃ a ∈ as, R a b := by
  induction related with
  | nil => exact ⟨by simp, by simp⟩
  | cons one _ ih =>
    constructor
    · refine List.forall_mem_cons.mpr ⟨⟨_, List.mem_cons_self, one⟩, fun a member => ?_⟩
      obtain ⟨b, there, same⟩ := ih.1 a member
      exact ⟨b, List.mem_cons_of_mem _ there, same⟩
    · refine List.forall_mem_cons.mpr ⟨⟨_, List.mem_cons_self, one⟩, fun b member => ?_⟩
      obtain ⟨a, there, same⟩ := ih.2 b member
      exact ⟨a, List.mem_cons_of_mem _ there, same⟩

-- Every planned block was planned for some record. With ids that differ the plan itself tells which
-- names stand for places.
theorem planned_record {g : Graph} {tops : List SavedBlock} {planned : List Planned}
    (plan : planAll g tops = .ok planned) (distinct : (planned.map (·.id)).Nodup) {p : Planned}
    (member : p ∈ planned) : ∃ record, planRecord g record = .ok { p with children := [] } := by
  let seat : Seating := fun x name => (planned.find? (·.id == x)).bind (plannedPlace? · name)
  have agrees : Agrees seat planned := by
    intro q other name
    have found : planned.find? (·.id == q.id) = some q := by
      cases there : planned.find? (·.id == q.id) with
      | none =>
        have missed := List.find?_eq_none.mp there q other
        simp at missed
      | some r =>
        have same := List.find?_some there
        rw [beq_iff_eq] at same
        rw [List.inj_on_of_nodup_map distinct (List.mem_of_find?_eq_some there) other same]
    exact congrArg (Option.bind · _) found
  obtain ⟨entry, _, made⟩ := (exists_matching (planAll_reached plan agrees).1).2 p member
  exact ⟨entry.1, made⟩

-- At the end a planned block is as planned.
theorem laid_out {form : Form} {tables : Graph} {planned : List Planned}
    (plan : planAll tables form.blocks = .ok planned) (distinct : (planned.map (·.id)).Nodup)
    {p : Planned} (member : p ∈ planned) :
    let s := redrawAll tables (layoutEdits form planned) p.id (redrawAll tables
      (planned.flatMap Planned.extentEdits ++ planned.flatMap Planned.fieldEdits) p.id (.new p.kind))
    s.kind = p.kind ∧ s.extent = p.extent ∧ s.position = p.position ∧
      (((plannedLinks planned).map (·.1)).Nodup →
        (∀ link, (p.id, link) ∈ plannedLinks planned → s.parent = some link) ∧
        (p.id ∉ (plannedLinks planned).map (·.1) → s.parent = none)) := by
  intro s
  obtain ⟨record, made⟩ := planned_record plan distinct member
  have shaped : redrawAll tables (planned.flatMap Planned.extentEdits ++ planned.flatMap Planned.fieldEdits)
      p.id (.new p.kind) = ⟨p.kind, p.extent, none, none⟩ := by
    rw [redrawAll_append, redrawAll_own distinct (extentEdits_apart tables) member,
      redrawAll_own distinct (fieldEdits_apart tables) member]
    exact redrawAll_shape made
  have whole : s = redrawAll tables (layoutEdits form planned) p.id ⟨p.kind, p.extent, none, none⟩ :=
    congrArg (redrawAll tables (layoutEdits form planned) p.id) shaped
  rw [whole]
  obtain ⟨kind, extent⟩ := redrawAll_arranges tables (layoutEdits_arranges form planned) p.id
    ⟨p.kind, p.extent, none, none⟩
  refine ⟨kind, extent, ?_, fun single => ?_⟩
  · have once : (((layoutEdits form planned).filterMap positionSet).map (·.1)).Nodup := by
      rw [layoutEdits_positions]
      exact distinct.sublist (plannedPositions_sublist planned)
    obtain ⟨set, unset⟩ := redrawAll_part (redraw_position tables p.id) once ⟨p.kind, p.extent, none, none⟩
    rw [layoutEdits_positions] at set unset
    cases laid : p.position with
    | some position => exact set position ((mem_plannedPositions distinct member).mpr laid)
    | none =>
      refine unset fun listed => ?_
      obtain ⟨⟨_, position⟩, there, same⟩ := List.mem_map.mp listed
      cases same
      rw [mem_plannedPositions distinct member, laid] at there
      cases there
  · rw [← layoutEdits_links form planned] at single ⊢
    exact redrawAll_part (redraw_parent tables p.id) single ⟨p.kind, p.extent, none, none⟩

-- The definitions of a form have tags of definitions.
mutual

theorem definitions_tagged {saved d : SavedBlock} (member : d ∈ definitions saved) :
    isDefinitionTag d.record.kind = true := by
  cases saved with
  | mk record inputs next =>
    rw [definitions, List.mem_append, List.mem_append] at member
    rcases member with (own | below) | behind
    · split at own
      · next tag =>
        rw [List.mem_singleton.mp own]
        exact tag
      · cases own
    · exact definitionsInputs_tagged below
    · exact definitionsNext_tagged behind

theorem definitionsInputs_tagged {inputs : List (String × Connected SavedBlock)} {d : SavedBlock}
    (member : d ∈ definitionsInputs inputs) : isDefinitionTag d.record.kind = true := by
  match inputs with
  | [] => cases member
  | (name, connected) :: rest =>
    rw [definitionsInputs, List.mem_append] at member
    rcases member with first | later
    · exact definitionsConnected_tagged first
    · exact definitionsInputs_tagged later

theorem definitionsNext_tagged {next : Option (Connected SavedBlock)} {d : SavedBlock}
    (member : d ∈ definitionsNext next) : isDefinitionTag d.record.kind = true := by
  match next with
  | none => cases member
  | some connected => exact definitionsConnected_tagged member

theorem definitionsConnected_tagged {connected : Connected SavedBlock} {d : SavedBlock}
    (member : d ∈ definitionsConnected connected) : isDefinitionTag d.record.kind = true := by
  match connected with
  | ⟨some block, _⟩ => exact definitions_tagged member
  | ⟨none, some block⟩ => exact definitions_tagged member
  | ⟨none, none⟩ => cases member

end

theorem ofTag?_definition {d : SavedBlock} (tag : isDefinitionTag d.record.kind = true) :
    Kind.ofTag? d.record.kind = some (.definition (returnsValue d)) := by
  rw [isDefinitionTag, Bool.or_eq_true, beq_iff_eq, beq_iff_eq] at tag
  rw [returnsValue]
  rcases tag with plain | returning
  · rw [plain]
    decide
  · rw [returning]
    decide

-- What the entries of the form and the blocks of the plan have in common.
theorem matching_ids {g : Graph} {entries : List (SavedRecord × Option ParentLink)} {planned : List Planned}
    (matching : List.Forall₂ (Matches g) entries planned) :
    planned.map (·.id) = (entries.map (·.1.id)).map BlockId.mk := by
  induction matching with
  | nil => rfl
  | cons one _ ih =>
    obtain ⟨_, _, _, _, same⟩ := planRecord_eq_ok one
    rw [Planned.mk.injEq] at same
    rw [List.map_cons, List.map_cons, List.map_cons, ih, same.1]

theorem reachedLinks_sublist (entries : List (SavedRecord × Option ParentLink)) :
    ((reachedLinks entries).map (·.1)).Sublist ((entries.map (·.1.id)).map BlockId.mk) := by
  induction entries with
  | nil => exact .slnil
  | cons e rest ih =>
    obtain ⟨record, link⟩ := e
    cases link with
    | none => exact ih.cons _
    | some link => exact ih.cons_cons _

theorem tops_sublist (seat : Seating) (tops : List SavedBlock) :
    (tops.map fun top => BlockId.mk top.record.id).Sublist
      (((tops.flatMap (reached seat none)).map (·.1.id)).map BlockId.mk) := by
  induction tops with
  | nil => exact .slnil
  | cons top rest ih =>
    obtain ⟨record, inputs, next⟩ := top
    rw [List.map_cons, List.flatMap_cons, reached, List.map_append, List.map_append]
    exact (ih.trans (List.sublist_append_right _ _)).cons_cons _

-- An entry without a link is no child in the plan.
theorem not_mem_reachedLinks {entries : List (SavedRecord × Option ParentLink)}
    (distinct : (entries.map (·.1.id)).Nodup) {record : SavedRecord} (member : (record, none) ∈ entries) :
    BlockId.mk record.id ∉ (reachedLinks entries).map (·.1) := by
  intro listed
  obtain ⟨pair, there, same⟩ := List.mem_map.mp listed
  obtain ⟨e, among, hangs⟩ := List.mem_filterMap.mp there
  obtain ⟨link, attached, rfl⟩ := Option.map_eq_some_iff.mp hangs
  cases List.inj_on_of_nodup_map distinct among member (congrArg BlockId.text same)
  cases attached

theorem redrawAll_kind (g : Graph) (edits : List Edit) (x : BlockId) (s : Sketch) :
    (redrawAll g edits x s).kind = s.kind := by
  induction edits generalizing s with
  | nil => rfl
  | cons e rest ih =>
    refine (ih _).trans ?_
    cases e with
    | setItemCount | setHasElse | setField | attach | setPosition =>
      simp only [redraw]
      split <;> rfl
    | _ => rfl

theorem savedExtent_call {g : Graph} (wf : g.WellFormed) {block : Block}
    (found : g.block? block.id = some block) (grows : block.kind.variadic = some .arguments)
    (record : SavedRecord) : block.extent = savedExtent g record block := by
  rw [savedExtent, grows]
  rcases wf.call_binds found (Kind.variadic_arguments.mp grows) with
    ⟨p, listed, named, _, extent⟩ | ⟨unbound, extent⟩
  · have known := wf.procedureWith?_listed listed
    simp [Block.procedureIn?, named, known, extent]
  · simp [Block.procedureIn?, unbound, extent]

theorem savedExtent_planned {tables g : Graph} (wf : g.WellFormed) {block : Block}
    (found : g.block? block.id = some block) {record : SavedRecord} {fields : List (String × FieldValue)}
    (planned : block.extent = plannedExtent tables record block.kind fields) :
    block.extent = savedExtent g record block := by
  cases grows : block.kind.variadic with
  | none => rw [planned, plannedExtent, savedExtent, grows]
  | some sort =>
    cases sort with
    | arguments => exact savedExtent_call wf found grows record
    | items | branches =>
      rw [planned, plannedExtent, savedExtent, grows]
      cases record.extra <;> rfl

-- A graph with the blocks of a plan, in which all other blocks are definitions of the form.
structure Built (form : Form) (planned : List Planned) (g : Graph) : Prop where
  distinct : (planned.map (·.id)).Nodup
  blocks : ∀ p ∈ planned, ∃ block, g.block? p.id = some block ∧ block.kind = p.kind ∧
    block.extent = p.extent ∧ block.position = p.position ∧
    (((plannedLinks planned).map (·.1)).Nodup →
      (∀ link, (p.id, link) ∈ plannedLinks planned → block.parent = some link) ∧
      (p.id ∉ (plannedLinks planned).map (·.1) → block.parent = none))
  others : ∀ block, g.block? block.id = some block → block.id ∉ planned.map (·.id) →
    ∃ d ∈ form.blocks.flatMap definitions, definedBy d = (block.id, block.kind)

theorem restore_built {form : Form} {w : Workspace} (made : restore form = .ok w) :
    ∃ tables planned linked, planAll tables form.blocks = .ok planned ∧ Built form planned w.graph ∧
      editAll linked (orderEdits form) = .ok w := by
  obtain ⟨tables, declared, later⟩ := bind_eq_ok.mp made
  obtain ⟨planned, plan, carried⟩ := bind_eq_ok.mp later
  obtain ⟨added, linked, adding, ordered, sketches⟩ := script_run carried
  obtain ⟨distinct, start, known⟩ := added_blocks declared plan adding
  have loose : added.graph.Loose := by
    intro x s there
    rw [(known x s there).1]
    rfl
  refine ⟨tables.graph, planned, linked, plan, ⟨distinct, fun p member => ?_, fun block found outside => ?_⟩,
    ordered⟩
  · have whole := sketches loose p.id
    rw [start p member, Option.map_some] at whole
    obtain ⟨block, found, same⟩ := Option.map_eq_some_iff.mp whole
    have laid := laid_out plan distinct member
    rw [← same] at laid
    exact ⟨block, found, laid⟩
  · have whole := sketches loose block.id
    rw [sketch_of_block found] at whole
    obtain ⟨s, there, same⟩ := Option.map_eq_some_iff.mp whole.symm
    have kind : s.kind = block.kind := by
      rw [← redrawAll_kind _ _ block.id s, ← redrawAll_kind _ _ block.id (redrawAll _ _ _ s)]
      exact congrArg Sketch.kind same
    rw [← kind]
    exact (known _ s there).2.resolve_left outside

theorem Built.agrees {form : Form} {planned : List Planned} {g : Graph} (built : Built form planned g) :
    Agrees g.placeNamed? planned := by
  intro p member name
  obtain ⟨block, found, kind, extent, _⟩ := built.blocks p member
  rw [placeNamed?, found, Option.bind_some, kind, extent]
  rfl

theorem Built.stands {form : Form} {planned : List Planned} {g tables : Graph}
    (built : Built form planned g) (wf : g.WellFormed)
    {listed : List (SavedRecord × Option ParentLink)}
    (matching : List.Forall₂ (Matches tables) listed planned)
    (links : (reachedLinks listed).Perm (plannedLinks planned)) (once : (listed.map (·.1.id)).Nodup)
    {e : SavedRecord × Option ParentLink} (member : e ∈ listed) : ∃ block, Stands g e.1 e.2 block := by
  obtain ⟨p, among, planning⟩ := (exists_matching matching).1 e member
  obtain ⟨_, _, tag, _, same⟩ := planRecord_eq_ok planning
  rw [Planned.mk.injEq] at same
  obtain ⟨id, rfl, extent, position, rfl, _⟩ := same
  have single : ((plannedLinks planned).map (·.1)).Nodup := by
    refine (links.map _).nodup_iff.mp (List.Nodup.sublist (reachedLinks_sublist listed) ?_)
    rw [← matching_ids matching]
    exact built.distinct
  obtain ⟨block, found, kind, extent', position', parents⟩ := built.blocks p among
  obtain ⟨attached, free⟩ := parents single
  rw [id] at found attached free
  obtain ⟨own, _⟩ := wf.built _ block found
  have parent : block.parent = e.2 := by
    obtain ⟨record, link⟩ := e
    cases link with
    | some link => exact attached link (links.subset (List.mem_filterMap.mpr ⟨_, member, rfl⟩))
    | none => exact free fun there => not_mem_reachedLinks once member ((links.map _).symm.subset there)
  have stated : block.extent = plannedExtent tables e.1 block.kind p.fields := by
    rw [extent', extent, kind]
  refine ⟨block, found, own, kind ▸ tag, savedExtent_planned wf (own ▸ found) stated,
    position'.trans position, parent, fun link hangs => ?_⟩
  obtain ⟨holder, there, holds⟩ := wf.linked.holder ((linkOf_of_block found).trans (parent.trans hangs))
  exact ⟨holder, there, own ▸ holds⟩

-- Whatever the form: if it loads, then each block that can be reached in it stands in the graph as it
-- was saved and where it was saved, under an id of its own, the roots begin as the form lists them, and
-- all else are definitions that the form has in places that cannot be reached.
theorem loaded_as_saved {form : Form} {w : Workspace} (made : restore form = .ok w) :
    let listed := form.blocks.flatMap (reached w.graph.placeNamed? none)
    (∀ e ∈ listed, ∃ block, Stands w.graph e.1 e.2 block) ∧ (listed.map (·.1.id)).Nodup ∧
      form.blocks.map (fun top => BlockId.mk top.record.id) <+: w.graph.roots ∧
      form.blocks.length ≤ w.graph.roots.length ∧
      (∀ block, w.graph.block? block.id = some block → block.id.text ∉ listed.map (·.1.id) →
        block.kind.isDefinition = true ∧ ∃ definition ∈ form.blocks.flatMap definitions,
          definition.record.id = block.id.text ∧ Kind.ofTag? definition.record.kind = some block.kind) ∧
      w.graph.validate = .ok () := by
  intro listed
  have wf := restore_wellFormed made
  obtain ⟨tables, planned, linked, plan, built, ordered⟩ := restore_built made
  obtain ⟨matching, links⟩ := planAll_reached plan built.agrees
  have ids := matching_ids matching
  have distinct : ((listed.map (·.1.id)).map BlockId.mk).Nodup := ids ▸ built.distinct
  have once : (listed.map (·.1.id)).Nodup := distinct.of_map _
  have ahead : form.blocks.map (fun top => BlockId.mk top.record.id) <+: w.graph.roots := by
    have tops := distinct.sublist (tops_sublist w.graph.placeNamed? form.blocks)
    refine order_run (List.nil_prefix : [] <+: linked.graph.roots) tops ?_
    rw [← ordered, orderEdits, List.zipIdx_map, List.map_map]
    rfl
  refine ⟨fun e member => built.stands wf matching links once member, once, ahead,
    by simpa using ahead.length_le, fun block found outside => ?_, wf.validate_ok⟩
  have further : block.id ∉ planned.map (·.id) := by
    rw [ids]
    intro among
    obtain ⟨text, member, same⟩ := List.mem_map.mp among
    exact outside (congrArg BlockId.text same ▸ member)
  obtain ⟨d, among, defined⟩ := built.others block found further
  obtain ⟨top, _, inside⟩ := List.mem_flatMap.mp among
  have defines : block.kind = .definition (returnsValue d) := (congrArg Prod.snd defined).symm
  rw [defines]
  exact ⟨rfl, d, among, congrArg BlockId.text (congrArg Prod.fst defined),
    ofTag?_definition (definitions_tagged inside)⟩

-- A print statement laid out at infinity, with its text as a shadow, a definition where it has no
-- place, and behind it a statement that hides a shadow of the same id.
def crowdedForm : Form :=
  ⟨0, [.mk { noted "a" with x := some (.infinite true), y := some (.infinite false) }
    [("TEXT", ⟨none, label.block⟩), ("EXTRA", helper)]
    (some ⟨some (.mk (noted "b") [] none), some (.mk (noted "a") [] none)⟩)], [], []⟩

theorem crowded_form_loaded_as_saved : ∃ w, restore crowdedForm = .ok w ∧
    let listed := crowdedForm.blocks.flatMap (reached w.graph.placeNamed? none)
    listed.map (fun e => (e.1.id, e.2)) = [("a", none), ("c", some ⟨⟨"a"⟩, .input "TEXT"⟩),
      ("b", some ⟨⟨"a"⟩, .next⟩)] ∧
    w.graph.roots = [⟨"a"⟩, ⟨"d"⟩] ∧
    (∀ e ∈ listed, ∃ block, Stands w.graph e.1 e.2 block) ∧ (listed.map (·.1.id)).Nodup ∧
      crowdedForm.blocks.map (fun top => BlockId.mk top.record.id) <+: w.graph.roots ∧
      crowdedForm.blocks.length ≤ w.graph.roots.length ∧
      (∀ block, w.graph.block? block.id = some block → block.id.text ∉ listed.map (·.1.id) →
        block.kind.isDefinition = true ∧ ∃ definition ∈ crowdedForm.blocks.flatMap definitions,
          definition.record.id = block.id.text ∧ Kind.ofTag? definition.record.kind = some block.kind) ∧
      w.graph.validate = .ok () := by
  have outcome : (restore crowdedForm).toOption.map (fun w =>
      ((crowdedForm.blocks.flatMap (reached w.graph.placeNamed? none)).map (fun e => (e.1.id, e.2)),
        w.graph.roots)) = some ([("a", none), ("c", some ⟨⟨"a"⟩, .input "TEXT"⟩),
      ("b", some ⟨⟨"a"⟩, .next⟩)], [⟨"a"⟩, ⟨"d"⟩]) := by decide +kernel
  cases made : restore crowdedForm with
  | error error => simp [made, Except.toOption] at outcome
  | ok w =>
    rw [made, Except.toOption, Option.map_some, Option.some.injEq, Prod.mk.injEq] at outcome
    exact ⟨w, rfl, outcome.1, outcome.2, loaded_as_saved made⟩

end Snapshot
end Blockwork
