import Mathlib
import Blockwork.Proofs.Reachability

-- Inputs that name no place of their block. The plan of a form passes over them
-- with all that is below, but the tables do not: a definition counts wherever it
-- hangs. So such an input may go without a trace if no definition goes with it.
namespace Blockwork.Snapshot

open Blockwork.Graph

abbrev Inputs := List (String × Connected SavedBlock)

-- Where a block stands in a connection. A shadow behind a block is never looked at.
inductive Seat where
  | first (behind : Option SavedBlock)
  | alone
  | hidden (front : SavedBlock)

def Seat.hold (seat : Seat) (block : SavedBlock) : Connected SavedBlock :=
  match seat with
  | .first behind => ⟨some block, behind⟩
  | .alone => ⟨none, some block⟩
  | .hidden front => ⟨some front, some block⟩

def Seat.seen : Seat → Bool
  | .first _ | .alone => true
  | .hidden _ => false

-- What is around a block in the block that it is connected to.
inductive Frame where
  | input (record : SavedRecord) (before : Inputs) (name : String) (seat : Seat) (after : Inputs)
      (next : Option (Connected SavedBlock))
  | chained (record : SavedRecord) (inputs : Inputs) (seat : Seat)

def Frame.fill : Frame → SavedBlock → SavedBlock
  | .input record before name seat after next, block =>
    .mk record (before ++ (name, seat.hold block) :: after) next
  | .chained record inputs seat, block => .mk record inputs (some (seat.hold block))

def Frame.seat : Frame → Seat
  | .input _ _ _ seat _ _ => seat
  | .chained _ _ seat => seat

-- A place for a block anywhere in a form: the frames go from the outside in.
structure Site where
  form : Form
  front : List SavedBlock
  frames : List Frame
  back : List SavedBlock

namespace Site

def around (frames : List Frame) (block : SavedBlock) : SavedBlock := frames.foldr Frame.fill block

def fill (site : Site) (block : SavedBlock) : Form :=
  { site.form with blocks := site.front ++ around site.frames block :: site.back }

def seen (site : Site) : Bool := site.frames.all (·.seat.seen)

end Site

-- Planning. Nothing depends on a block but its id and its own plan.
structure Alike (g : Graph) (a b : SavedBlock) : Prop where
  record : a.record = b.record
  plan : planBlock g a = planBlock g b

section

variable {g : Graph} {a b : SavedBlock}

theorem Alike.hold (alike : Alike g a b) (seat : Seat) (place : Place) :
    planConnected g place (seat.hold a) = planConnected g place (seat.hold b) := by
  cases seat with
  | first behind => simp only [Seat.hold, planConnected, alike.record, alike.plan]
  | alone => simp only [Seat.hold, planConnected, alike.record, alike.plan]
  | hidden front => simp only [Seat.hold, planConnected]

theorem planInputs_replace {parent : Planned} {before after : Inputs}
    {name : String} {c d : Connected SavedBlock}
    (same : ∀ place, planConnected g place c = planConnected g place d) :
    planInputs g parent (before ++ (name, c) :: after)
      = planInputs g parent (before ++ (name, d) :: after) := by
  induction before with
  | nil => simp only [List.nil_append, planInputs, same]
  | cons head rest ih => simp only [List.cons_append, planInputs, ih]

theorem planInputs_skip {parent : Planned} {name : String}
    (absent : plannedPlace? parent name = none) (before after : Inputs)
    (gone : Connected SavedBlock) :
    planInputs g parent (before ++ (name, gone) :: after) = planInputs g parent (before ++ after) := by
  induction before with
  | nil => simp only [List.nil_append, planInputs, absent]
  | cons head rest ih => simp only [List.cons_append, planInputs, ih]

theorem Alike.fill (alike : Alike g a b) (frame : Frame) :
    Alike g (frame.fill a) (frame.fill b) := by
  cases frame with
  | input record before name seat after next =>
    refine ⟨rfl, ?_⟩
    simp only [Frame.fill, planBlock, planInputs_replace (alike.hold seat)]
  | chained record inputs seat =>
    refine ⟨rfl, ?_⟩
    simp only [Frame.fill, planBlock, planNext, alike.hold seat]

theorem Alike.around (alike : Alike g a b) (frames : List Frame) :
    Alike g (Site.around frames a) (Site.around frames b) := by
  induction frames with
  | nil => exact alike
  | cons frame rest ih => exact ih.fill frame

theorem alike_skip {record : SavedRecord} {name : String}
    (skipped : ∀ planned, planRecord g record = .ok planned → plannedPlace? planned name = none)
    (before after : Inputs) (gone : Connected SavedBlock)
    (next : Option (Connected SavedBlock)) :
    Alike g (.mk record (before ++ (name, gone) :: after) next)
      (.mk record (before ++ after) next) := by
  refine ⟨rfl, ?_⟩
  rw [planBlock, planBlock]
  cases made : planRecord g record with
  | error error => rfl
  | ok planned =>
    simp only [bind, Except.bind, planInputs_skip (skipped planned made) before after gone]

theorem planAll_replace (same : planBlock g a = planBlock g b) (front back : List SavedBlock) :
    planAll g (front ++ a :: back) = planAll g (front ++ b :: back) := by
  induction front with
  | nil => simp only [List.nil_append, planAll, same]
  | cons head rest ih => simp only [List.cons_append, planAll, ih]

theorem orderEdits_replace (same : a.record = b.record) (form : Form)
    (front back : List SavedBlock) :
    orderEdits { form with blocks := front ++ a :: back }
      = orderEdits { form with blocks := front ++ b :: back } := by
  simp [orderEdits, List.zipIdx_append, same]

end

-- The tables. Of a definition only its record counts.
def bare (block : SavedBlock) : SavedBlock := .mk block.record [] none

@[simp] theorem bare_record (block : SavedBlock) : (bare block).record = block.record := rfl

def bareDefinitions (block : SavedBlock) : List SavedBlock := (definitions block).map bare

theorem definitionsInputs_append (xs ys : Inputs) :
    definitionsInputs (xs ++ ys) = definitionsInputs xs ++ definitionsInputs ys := by
  induction xs with
  | nil => rfl
  | cons head rest ih => simp only [List.cons_append, definitionsInputs, ih, List.append_assoc]

theorem bareDefinitions_mk (record : SavedRecord) (inputs : Inputs)
    (next : Option (Connected SavedBlock)) :
    bareDefinitions (.mk record inputs next)
      = bareDefinitions (.mk record [] none) ++ (definitionsInputs inputs).map bare
        ++ (definitionsNext next).map bare := by
  have own :
      (if isDefinitionTag record.kind then [SavedBlock.mk record inputs next] else []).map bare
        = (if isDefinitionTag record.kind then [SavedBlock.mk record [] none] else []).map bare := by
    split <;> rfl
  simp only [bareDefinitions, definitions, definitionsInputs, definitionsNext, List.map_append, own,
    List.append_nil]

-- An input more adds what is below it and leaves the rest where it was.
theorem bareDefinitions_insert (record : SavedRecord) (before after : Inputs)
    (name : String) (next : Option (Connected SavedBlock)) :
    ∃ left right, bareDefinitions (.mk record (before ++ after) next) = left ++ right ∧
      ∀ connected, bareDefinitions (.mk record (before ++ (name, connected) :: after) next)
        = left ++ (definitionsConnected connected).map bare ++ right := by
  refine ⟨bareDefinitions (.mk record [] none) ++ (definitionsInputs before).map bare,
    (definitionsInputs after).map bare ++ (definitionsNext next).map bare, ?_, fun connected => ?_⟩
  · simp only [bareDefinitions_mk record _ next, definitionsInputs_append, List.map_append,
      List.append_assoc]
  · simp only [bareDefinitions_mk record _ next, definitionsInputs_append, definitionsInputs,
      List.map_append, List.append_assoc]

-- What is around a block adds definitions of its own, whatever the block is, and
-- shows those of the block or none of them.
def Shows (seen : Bool) (context : SavedBlock → List SavedBlock) : Prop :=
  ∃ left right, ∀ block,
    context block = left ++ (if seen then bareDefinitions block else []) ++ right

theorem Shows.extend {seen : Bool} {context wider : SavedBlock → List SavedBlock}
    (inside : Shows seen context) (left right : List SavedBlock)
    (around : ∀ block, wider block = left ++ context block ++ right) : Shows seen wider := by
  obtain ⟨inner, outer, same⟩ := inside
  refine ⟨left ++ inner, outer ++ right, fun block => ?_⟩
  simp only [around, same, List.append_assoc]

theorem Shows.through {upper lower : Bool} {context : SavedBlock → List SavedBlock}
    {fill : SavedBlock → SavedBlock} (above : Shows upper context)
    (below : Shows lower fun block => bareDefinitions (fill block)) :
    Shows (upper && lower) fun block => context (fill block) := by
  obtain ⟨left, right, same⟩ := above
  obtain ⟨inner, outer, filled⟩ := below
  cases upper with
  | false => exact ⟨left, right, fun block => same (fill block)⟩
  | true =>
    refine ⟨left ++ inner, outer ++ right, fun block => ?_⟩
    simp only [same, filled, Bool.true_and, if_true, List.append_assoc]

theorem shows_hold (seat : Seat) :
    Shows seat.seen fun block => (definitionsConnected (seat.hold block)).map bare := by
  cases seat with
  | first behind => exact ⟨[], [], fun block => (List.append_nil _).symm⟩
  | alone => exact ⟨[], [], fun block => (List.append_nil _).symm⟩
  | hidden front =>
    refine ⟨bareDefinitions front, [], fun block => ?_⟩
    simp [Seat.hold, Seat.seen, definitionsConnected, bareDefinitions]

theorem shows_fill (frame : Frame) :
    Shows frame.seat.seen fun block => bareDefinitions (frame.fill block) := by
  cases frame with
  | input record before name seat after next =>
    obtain ⟨left, right, _, inserted⟩ := bareDefinitions_insert record before after name next
    exact (shows_hold seat).extend left right fun block => inserted (seat.hold block)
  | chained record inputs seat =>
    apply (shows_hold seat).extend (bareDefinitions (.mk record inputs none)) []
    intro block
    simp only [Frame.fill, bareDefinitions_mk record inputs, definitionsNext, List.map_nil,
      List.append_nil]

theorem shows_around (frames : List Frame) :
    Shows (frames.all (·.seat.seen)) fun block => bareDefinitions (Site.around frames block) := by
  induction frames with
  | nil => exact ⟨[], [], fun block => (List.append_nil _).symm⟩
  | cons frame rest ih => exact (shows_fill frame).through ih

def Form.bareDefinitions (form : Form) : List SavedBlock :=
  (form.blocks.flatMap definitions).map bare

theorem shows_site (site : Site) :
    Shows site.seen fun block => (site.fill block).bareDefinitions := by
  apply (shows_around site.frames).extend ((site.front.flatMap definitions).map bare)
    ((site.back.flatMap definitions).map bare)
  intro block
  simp only [Site.fill, Form.bareDefinitions, Snapshot.bareDefinitions, List.flatMap_append,
    List.flatMap_cons, List.map_append, List.append_assoc]

-- Sorting and declaring look at records only.
def Definitions.bare (sorted : Definitions) : Definitions :=
  ⟨sorted.bound.map fun entry => (entry.1, Snapshot.bare entry.2),
    sorted.native.map fun entry => (entry.1, Snapshot.bare entry.2)⟩

theorem sortDefinitions_bare (seen : List String) (found : List SavedBlock) :
    sortDefinitions seen (found.map bare) = (sortDefinitions seen found).map Definitions.bare := by
  induction found generalizing seen with
  | nil => rfl
  | cons definition rest ih =>
    simp only [List.map_cons, sortDefinitions, bare_record, ih]
    cases definition.record.fields.get? "NAME" with
    | none => rfl
    | some json =>
      cases json with
      | object members =>
        cases named : referenceId? (.object members) with
        | none => simp only [named]; rfl
        | some id =>
          simp only [named]
          split
          · rfl
          · cases sortDefinitions (id :: seen) rest <;> rfl
      | text name => cases sortDefinitions seen rest <;> rfl
      | _ => rfl

theorem returnsValue_bare (definition : SavedBlock) :
    returnsValue (bare definition) = returnsValue definition := rfl

theorem lookup_bare (bound : List (String × SavedBlock)) (id : String) :
    (bound.map fun entry => (entry.1, bare entry.2)).lookup id = (bound.lookup id).map bare := by
  induction bound with
  | nil => rfl
  | cons entry rest ih =>
    obtain ⟨key, definition⟩ := entry
    simp only [List.map_cons, List.lookup_cons, ih]
    split <;> rfl

theorem declareListed_bare (bound : List (String × SavedBlock)) (w : Workspace)
    (listed : List SavedProcedure) :
    declareListed (bound.map fun entry => (entry.1, bare entry.2)) w listed
      = declareListed bound w listed := by
  induction listed generalizing bound w with
  | nil => cases bound <;> rfl
  | cons procedure rest ih =>
    simp only [declareListed, lookup_bare]
    cases bound.lookup procedure.id with
    | none => exact ih bound w
    | some definition =>
      simp only [Option.map_some, bare_record, returnsValue_bare, List.filter_map,
        Function.comp_def, ih]

theorem declareNative_bare (w : Workspace) (native : List (String × SavedBlock)) :
    declareNative w (native.map fun entry => (entry.1, bare entry.2)) = declareNative w native := by
  induction native generalizing w with
  | nil => rfl
  | cons entry rest ih =>
    simp only [List.map_cons, declareNative, bare_record, returnsValue_bare, ih]

theorem declareTables_bare (form : Form) :
    declareTables form = (do
      let w ← editAll .empty (form.vars.map fun v => .createVariableAs ⟨v.id⟩ v.name)
      let sorted ← sortDefinitions [] form.bareDefinitions
      let w ← declareListed sorted.bound w form.procedures
      declareNative w sorted.native) := by
  unfold declareTables Form.bareDefinitions
  rw [sortDefinitions_bare]
  cases sortDefinitions [] (form.blocks.flatMap definitions) with
  | error error => rfl
  | ok sorted =>
    simp only [Except.map, bind, Except.bind, Definitions.bare, declareListed_bare,
      declareNative_bare]

-- Loading counts: each definition of a form makes one procedure, and no later
-- edit of the load makes or takes one.
def spares : Edit → Bool
  | .addBlockAs .. | .setField .. | .attach .. | .reorderRoot .. | .setPosition ..
  | .setItemCount .. | .setHasElse .. | .createVariableAs .. => true
  | _ => false

theorem apply_spares {w w' : Workspace} {e : Edit} {reply : EditReply} (spared : spares e)
    (edited : w.apply e = .ok (w', reply)) :
    w'.graph.procedures = w.graph.procedures ∧ w.graph.vars <+: w'.graph.vars := by
  cases e with
  | addBlockAs id kind =>
    obtain ⟨g, made, rfl⟩ := Workspace.keepSerial_eq_ok edited
    obtain ⟨_, _, same⟩ := addBlock_eq_ok.mp made
    rw [same]
    exact ⟨rfl, List.prefix_rfl⟩
  | setField block slot value =>
    obtain ⟨g, made, rfl⟩ := Workspace.keepSerial_eq_ok edited
    obtain ⟨_, shape, _, _, _, same⟩ := setField_eq_ok.mp made
    have tables := written_tables w.graph block slot shape value
    rw [same]
    exact ⟨tables.2, by rw [tables.1]⟩
  | attach parent place child =>
    obtain ⟨g, made, rfl⟩ := Workspace.keepSerial_eq_ok edited
    obtain ⟨_, same⟩ := attach_eq_ok.mp made
    have kept : (w.graph.attached parent place child).vars = w.graph.vars := unlink_vars w.graph child
    rw [same, kept]
    exact ⟨unlink_procedures w.graph child, List.prefix_rfl⟩
  | reorderRoot block index =>
    obtain ⟨g, made, rfl⟩ := Workspace.keepSerial_eq_ok edited
    obtain ⟨_, _, same⟩ := reorderRoot_eq_ok.mp made
    rw [same]
    exact ⟨rfl, List.prefix_rfl⟩
  | setPosition block position =>
    obtain ⟨g, made, rfl⟩ := Workspace.keepSerial_eq_ok edited
    obtain ⟨_, same⟩ := setPosition_eq_ok.mp made
    rw [same]
    exact ⟨rfl, List.prefix_rfl⟩
  | setItemCount block items =>
    obtain ⟨g, made, rfl⟩ := Workspace.keepSerial_eq_ok edited
    obtain ⟨found, _, _, _, same⟩ := setItemCount_eq_ok.mp made
    have tables := reshape_tables w.graph block { found.extent with items := items }
    rw [same]
    exact ⟨tables.2, by rw [tables.1]⟩
  | setHasElse block hasElse =>
    obtain ⟨g, made, rfl⟩ := Workspace.keepSerial_eq_ok edited
    obtain ⟨found, _, _, same⟩ := setHasElse_eq_ok.mp made
    have tables := reshape_tables w.graph block { found.extent with hasElse := hasElse }
    rw [same]
    exact ⟨tables.2, by rw [tables.1]⟩
  | createVariableAs id name =>
    obtain ⟨g, made, rfl⟩ := Workspace.keepSerial_eq_ok edited
    obtain ⟨_, _, _, same⟩ := createVariable_eq_ok.mp made
    rw [same]
    exact ⟨rfl, List.prefix_append _ _⟩
  | _ => cases spared

theorem editAll_spares {edits : List Edit} {w w' : Workspace} (spared : ∀ e ∈ edits, spares e)
    (made : editAll w edits = .ok w') :
    w'.graph.procedures = w.graph.procedures ∧ w.graph.vars <+: w'.graph.vars := by
  induction edits generalizing w with
  | nil =>
    cases made
    exact ⟨rfl, List.prefix_rfl⟩
  | cons e rest ih =>
    obtain ⟨mid, first, later⟩ := bind_eq_ok.mp made
    obtain ⟨reply, applied⟩ := edit_eq_ok.mp first
    have before := apply_spares (spared e List.mem_cons_self) applied
    have after := ih (fun e member => spared e (List.mem_cons_of_mem _ member)) later
    exact ⟨after.1.trans before.1, before.2.trans after.2⟩

theorem script_spares (form : Form) (planned : List Planned) :
    ∀ e ∈ script form planned, spares e := by
  intro e member
  simp only [script, orderEdits, List.mem_append, List.mem_flatMap, List.mem_map] at member
  rcases member with
    ((((⟨p, _, added⟩ | ⟨p, _, sized⟩) | ⟨p, _, set⟩) | ⟨p, _, linked⟩) | ⟨_, _, rfl⟩)
  · unfold Planned.addEdits at added
    split at added
    · cases added
    · rw [List.mem_singleton.mp added]
      rfl
  · unfold Planned.extentEdits at sized
    split at sized
    · rw [List.mem_singleton.mp sized]
      rfl
    · rcases List.mem_pair.mp sized with rfl | rfl <;> rfl
    · cases sized
  · obtain ⟨_, _, rfl⟩ := List.mem_map.mp set
    rfl
  · rcases List.mem_append.mp linked with attached | moved
    · obtain ⟨_, _, rfl⟩ := List.mem_map.mp attached
      rfl
    · obtain ⟨_, _, rfl⟩ := List.mem_map.mp moved
      rfl
  · rfl

def procedureCount (w : Workspace) : Nat := w.graph.procedures.length

theorem createProcedureAs_count {w w' : Workspace} {id : ProcedureId} {definition : BlockId}
    {name : String} {params : List VariableId} {returns : Bool}
    (made : edit w (.createProcedureAs id definition name params returns) = .ok w') :
    procedureCount w' = procedureCount w + 1 := by
  obtain ⟨reply, applied⟩ := edit_eq_ok.mp made
  obtain ⟨g, created, rfl⟩ := Workspace.keepSerial_eq_ok applied
  obtain ⟨_, _, _, _, same⟩ := createProcedure_eq_ok.mp created
  simp [procedureCount, same, addProcedure, addRoot]

theorem resolveParam_count {w w' : Workspace} {param : SavedParam} {id : VariableId}
    (made : resolveParam w param = .ok (w', id)) : procedureCount w' = procedureCount w := by
  unfold resolveParam at made
  split at made
  · cases made
    rfl
  · split at made
    · cases made
      rfl
    · split at made
      · obtain ⟨mid, first, later⟩ := bind_eq_ok.mp made
        cases later
        obtain ⟨reply, applied⟩ := edit_eq_ok.mp first
        exact congrArg List.length (apply_spares rfl applied).1
      · obtain ⟨_, _, same⟩ := Workspace.makeVariable_iff.mp (accepted_eq_ok.mp made)
        cases same
        rfl

theorem resolveParams_count {params : List SavedParam} {w w' : Workspace} {ids : List VariableId}
    (made : resolveParams w params = .ok (w', ids)) : procedureCount w' = procedureCount w := by
  induction params generalizing w ids with
  | nil =>
    cases made
    rfl
  | cons param rest ih =>
    obtain ⟨⟨mid, first⟩, resolved, later⟩ := bind_eq_ok.mp made
    obtain ⟨⟨last, others⟩, remaining, same⟩ := bind_eq_ok.mp later
    cases same
    exact (ih remaining).trans (resolveParam_count resolved)

theorem declareNative_count {unlisted : List (String × SavedBlock)} {w w' : Workspace}
    (made : declareNative w unlisted = .ok w') :
    procedureCount w' = procedureCount w + unlisted.length := by
  induction unlisted generalizing w with
  | nil =>
    cases made
    rfl
  | cons head rest ih =>
    obtain ⟨name, definition⟩ := head
    rw [declareNative] at made
    simp only at made
    split at made
    · cases made
    · obtain ⟨⟨mid, params⟩, resolved, later⟩ := bind_eq_ok.mp made
      obtain ⟨last, created, remaining⟩ := bind_eq_ok.mp later
      have before := resolveParams_count resolved
      have one : procedureCount last = procedureCount mid + 1 := createProcedureAs_count created
      have others := ih remaining
      rw [List.length_cons]
      omega

theorem filter_lookup {bound : List (String × SavedBlock)} {id : String} {definition : SavedBlock}
    (distinct : (bound.map (·.1)).Nodup) (found : bound.lookup id = some definition) :
    (bound.filter (·.1 != id)).length + 1 = bound.length := by
  induction bound with
  | nil => cases found
  | cons entry rest ih =>
    obtain ⟨key, value⟩ := entry
    obtain ⟨new, distinct⟩ := List.nodup_cons.mp distinct
    by_cases same : key = id
    · subst same
      have kept : rest.filter (·.1 != key) = rest := by
        apply List.filter_eq_self.mpr
        intro other member
        exact bne_iff_ne.mpr fun equal => new (List.mem_map.mpr ⟨other, member, equal⟩)
      simp [kept]
    · have later : rest.lookup id = some definition := by
        simpa [List.lookup_cons, beq_eq_false_iff_ne.mpr (Ne.symm same)] using found
      simp [same, ih distinct later]

theorem declareListed_count {listed : List SavedProcedure} {bound : List (String × SavedBlock)}
    {w w' : Workspace} (distinct : (bound.map (·.1)).Nodup) (made : declareListed bound w listed = .ok w') :
    procedureCount w' = procedureCount w + bound.length := by
  induction listed generalizing bound w with
  | nil =>
    cases bound with
    | nil =>
      cases made
      rfl
    | cons head rest => cases made
  | cons procedure rest ih =>
    rw [declareListed] at made
    split at made
    · exact ih distinct made
    · next definition found =>
      obtain ⟨mid, created, later⟩ := bind_eq_ok.mp made
      have fewer : ((bound.filter (·.1 != procedure.id)).map (·.1)).Nodup :=
        distinct.sublist (List.filter_sublist.map _)
      have one := createProcedureAs_count created
      have others := ih fewer later
      have all := filter_lookup distinct found
      omega

theorem sortDefinitions_count {found : List SavedBlock} {seen : List String} {sorted : Definitions}
    (made : sortDefinitions seen found = .ok sorted) :
    sorted.bound.length + sorted.native.length = found.length ∧
      (sorted.bound.map (·.1)).Nodup ∧ ∀ id ∈ sorted.bound.map (·.1), id ∉ seen := by
  induction found generalizing seen sorted with
  | nil =>
    cases made
    exact ⟨rfl, List.nodup_nil, fun _ member => nomatch member⟩
  | cons definition rest ih =>
    rw [sortDefinitions] at made
    split at made
    · split at made
      · cases made
      · split at made
        · cases made
        · next members _ id _ fresh =>
          obtain ⟨others, sortedRest, rfl⟩ := map_eq_ok.mp made
          obtain ⟨long, distinct, apart⟩ := ih sortedRest
          refine ⟨?_, ?_, ?_⟩
          · simp only [List.length_cons]
            omega
          · exact List.nodup_cons.mpr ⟨fun again => apart id again List.mem_cons_self, distinct⟩
          · intro other member old
            rcases List.mem_cons.mp member with rfl | member
            · exact fresh (List.contains_iff_mem.mpr old)
            · exact apart other member (List.mem_cons_of_mem _ old)
    · obtain ⟨others, sortedRest, rfl⟩ := map_eq_ok.mp made
      obtain ⟨long, distinct, apart⟩ := ih sortedRest
      refine ⟨?_, distinct, apart⟩
      simp only [List.length_cons]
      omega
    · cases made

theorem restore_count {form : Form} {w : Workspace} (made : restore form = .ok w) :
    procedureCount w = form.bareDefinitions.length := by
  obtain ⟨tables, declared, later⟩ := bind_eq_ok.mp made
  obtain ⟨planned, _, carried⟩ := bind_eq_ok.mp later
  obtain ⟨start, first, later⟩ := bind_eq_ok.mp declared
  obtain ⟨sorted, divided, later⟩ := bind_eq_ok.mp later
  obtain ⟨listed, second, third⟩ := bind_eq_ok.mp later
  obtain ⟨all, distinct, _⟩ := sortDefinitions_count divided
  have empty : procedureCount start = 0 := by
    apply congrArg List.length (editAll_spares ?_ first).1
    intro e member
    obtain ⟨_, _, rfl⟩ := List.mem_map.mp member
    rfl
  have bound := declareListed_count distinct second
  have unlisted := declareNative_count third
  have unchanged : procedureCount w = procedureCount tables :=
    congrArg List.length (editAll_spares (script_spares form planned) carried).1
  rw [Form.bareDefinitions, List.length_map]
  omega

-- An input name that no plan of the block has a place for.
def Unplaced (form : Form) (record : SavedRecord) (name : String) : Prop :=
  ∀ w planned, declareTables form = .ok w → planRecord w.graph record = .ok planned →
    plannedPlace? planned name = none

theorem declareTables_fill {site : Site} {a b : SavedBlock}
    (same : (site.fill a).bareDefinitions = (site.fill b).bareDefinitions) :
    declareTables (site.fill a) = declareTables (site.fill b) := by
  rw [declareTables_bare, declareTables_bare, same]
  rfl

theorem restore_fill {site : Site} {a b : SavedBlock}
    (same : (site.fill a).bareDefinitions = (site.fill b).bareDefinitions)
    (alike : ∀ w, declareTables (site.fill a) = .ok w → Alike w.graph a b) :
    restore (site.fill a) = restore (site.fill b) := by
  have tables := declareTables_fill same
  unfold restore
  rw [← tables]
  cases declared : declareTables (site.fill a) with
  | error error => rfl
  | ok w =>
    obtain ⟨record, plan⟩ := (alike w declared).around site.frames
    have planned : planAll w.graph (site.fill a).blocks = planAll w.graph (site.fill b).blocks :=
      planAll_replace plan site.front site.back
    have ordered : orderEdits (site.fill a) = orderEdits (site.fill b) :=
      orderEdits_replace record site.form site.front site.back
    simp only [bind, Except.bind, planned, script, ordered]

-- What is connected to an unplaced input may go if no definition is seen below
-- it; else the two forms never load as the same program.
theorem unplaced_input_inert_without_definition (site : Site) (record : SavedRecord)
    (before after : Inputs) (name : String) (gone : Connected SavedBlock)
    (next : Option (Connected SavedBlock))
    (unplaced :
      Unplaced (site.fill (.mk record (before ++ (name, gone) :: after) next)) record name) :
    let whole := site.fill (.mk record (before ++ (name, gone) :: after) next)
    let rest := site.fill (.mk record (before ++ after) next)
    let clean := site.seen = true → definitionsConnected gone = []
    (clean → restore rest = restore whole) ∧
      (¬clean → ∀ w, restore whole = .ok w → restore rest ≠ .ok w) := by
  intro whole rest clean
  obtain ⟨left, right, shown⟩ := shows_site site
  obtain ⟨inner, outer, without, inserted⟩ := bareDefinitions_insert record before after name next
  constructor
  · intro nothing
    have alike w declared := alike_skip (g := w.graph) (unplaced w · declared) before after gone next
    refine (restore_fill ?_ alike).symm
    by_cases seen : site.seen = true
    · simp only [shown, inserted, without, nothing seen, List.map_nil, List.append_nil]
    · simp only [shown, seen, Bool.false_eq_true, if_false]
  · intro dirty w loaded again
    obtain ⟨seen, buried⟩ := Classical.not_imp.mp dirty
    have more := restore_count loaded
    have fewer := restore_count again
    have positive := List.length_pos_iff.mpr buried
    simp only [whole, rest, shown, seen, if_true, inserted, without, List.length_append,
      List.length_map] at more fewer
    omega

-- A print statement below another one, with an input that it has no place for.
def noted (id : String) : SavedRecord := ⟨"text_print", id, none, none, .empty, none⟩

def underNote : Site := ⟨{}, [], [.chained (noted "a") [] (.first none)], []⟩

def label : Connected SavedBlock :=
  ⟨some (.mk ⟨"text", "c", none, none, .empty, none⟩ [] none), none⟩

def helperRecord : SavedRecord :=
  ⟨"procedures_defnoreturn", "d", none, none, .ofList [("NAME", .text "f")], none⟩

def helper : Connected SavedBlock := ⟨some (.mk helperRecord [] none), none⟩

theorem unplaced_note (form : Form) (id : String) : Unplaced form (noted id) "EXTRA" := by
  intro w planned _ made
  cases made
  rfl

theorem extra_label_inert_extra_helper_kept :
    let printed (inputs : Inputs) := underNote.fill (.mk (noted "b") inputs none)
    Unplaced (printed [("EXTRA", label)]) (noted "b") "EXTRA" ∧
      Unplaced (printed [("EXTRA", helper)]) (noted "b") "EXTRA" ∧
      restore (printed []) = restore (printed [("EXTRA", label)]) ∧
      ∃ w, restore (printed [("EXTRA", helper)]) = .ok w ∧ restore (printed []) ≠ .ok w := by
  intro printed
  have inert := (unplaced_input_inert_without_definition underNote (noted "b") [] [] "EXTRA" label
    none (unplaced_note _ "b")).1
  have kept := (unplaced_input_inert_without_definition underNote (noted "b") [] [] "EXTRA" helper
    none (unplaced_note _ "b")).2
  have loaded : (restore (printed [("EXTRA", helper)])).toOption.isSome := by decide +kernel
  have plain : (definitionsConnected label).length = 0 := by decide +kernel
  have buried : (definitionsConnected helper).length = 1 := by decide +kernel
  refine ⟨unplaced_note _ "b", unplaced_note _ "b", inert fun _ => ?_, ?_⟩
  · exact List.length_eq_zero_iff.mp plain
  cases made : restore (printed [("EXTRA", helper)]) with
  | error error => simp [made, Except.toOption] at loaded
  | ok w =>
    refine ⟨w, rfl, kept (fun clean => ?_) w made⟩
    simp [clean rfl] at buried

-- One print statement with a definition that hangs at no place of it: the
-- definition is loaded, and its procedure, as if it stood by itself.
theorem buried_definition_loaded :
    let printed (inputs : Inputs) : Form := ⟨0, [.mk (noted "a") inputs none], [], []⟩
    let outline (w : Workspace) := (w.graph.roots.map (·.text), procedureCount w)
    Unplaced (printed [("EXTRA", helper)]) (noted "a") "EXTRA" ∧
      (restore (printed [("EXTRA", helper)])).toOption.map outline = some (["a", "d"], 1) ∧
      (restore (printed [])).toOption.map outline = some (["a"], 0) := by
  refine ⟨unplaced_note _ "a", ?_, ?_⟩
  · decide +kernel
  · decide +kernel

end Blockwork.Snapshot
