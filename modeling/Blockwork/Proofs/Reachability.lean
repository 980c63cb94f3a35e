import Mathlib
import Blockwork.Proofs.Atomicity
import Blockwork.Proofs.Validity

-- The workspaces that editing can reach from an empty one, in whatever way:
-- single edits, batches that are kept or given up, taking over the graph of
-- another workspace, and loading.
namespace Blockwork

-- The search for a free number fails only if all numbers it looks at are taken.
theorem taken_of_firstFree {taken : Nat → Bool} {tries n : Nat}
    (failed : taken (firstFree taken tries n) = true) {k : Nat} (inside : k ≤ tries) :
    taken (n + k) = true := by
  induction tries generalizing n k with
  | zero =>
    obtain rfl : k = 0 := by omega
    exact failed
  | succ tries ih =>
    cases here : taken n with
    | false =>
      rw [firstFree, here] at failed
      exact absurd (here.symm.trans failed) (by simp)
    | true =>
      rw [firstFree, here] at failed
      cases k with
      | zero => exact here
      | succ k =>
        have later := ih failed (k := k) (by omega)
        rwa [Nat.add_right_comm] at later

theorem firstFree_free (taken : Nat → Bool) {tries n : Nat}
    (few : ∀ ms : List Nat, ms.Nodup → (∀ m ∈ ms, taken m = true) → ms.length ≤ tries) :
    taken (firstFree taken tries n) = false := by
  by_contra failed
  rw [Bool.not_eq_false] at failed
  have bound := few ((List.range (tries + 1)).map (n + ·))
    (List.nodup_range.map fun _ _ same => Nat.add_left_cancel same) (by
      intro m member
      obtain ⟨k, inside, rfl⟩ := List.mem_map.mp member
      exact taken_of_firstFree failed (by simpa [Nat.lt_succ_iff] using inside))
  simp at bound

namespace Graph

open Workspace

theorem blockSerial_free (g : Graph) (serial : Nat) :
    g.block? (blockName (blockSerial g serial)) = none := by
  have free : g.hasBlock (blockName (blockSerial g serial)) = false := by
    refine firstFree_free (fun n => g.hasBlock (blockName n)) fun ms distinct taken => ?_
    have names : (ms.map blockName).Nodup :=
      distinct.map fun m n same => Kind.prefixed_inj (congrArg BlockId.text same)
    have bound := length_le_size names (List.forall_mem_map.mpr taken)
    simpa using bound
  simpa [hasBlock_eq] using free

theorem variableSerial_free (g : Graph) (serial : Nat) :
    g.variableWith? (variableName (variableSerial g serial)) = none := by
  have free : (g.variableWith? (variableName (variableSerial g serial))).isSome = false := by
    refine firstFree_free (fun n => (g.variableWith? (variableName n)).isSome)
      fun ms distinct taken => ?_
    have names : (ms.map variableName).Nodup :=
      distinct.map fun m n same => Kind.prefixed_inj (congrArg VariableId.text same)
    have inside : ms.map variableName ⊆ g.vars.map (·.id) := by
      intro id member
      obtain ⟨m, listed, rfl⟩ := List.mem_map.mp member
      exact List.mem_map.mpr (variableWith?_isSome.mp (taken m listed))
    simpa using names.length_le_of_subset inside
  simpa using free

theorem procedureSerial_free (g : Graph) (serial : Nat) :
    g.procedureWith? (procedureName (procedureSerial g serial)) = none := by
  have free : (g.procedureWith? (procedureName (procedureSerial g serial))).isSome = false := by
    refine firstFree_free (fun n => (g.procedureWith? (procedureName n)).isSome)
      fun ms distinct taken => ?_
    have names : (ms.map procedureName).Nodup :=
      distinct.map fun m n same => Kind.prefixed_inj (congrArg ProcedureId.text same)
    have inside : ms.map procedureName ⊆ g.procedures.map (·.id) := by
      intro id member
      obtain ⟨m, listed, rfl⟩ := List.mem_map.mp member
      obtain ⟨p, found⟩ := Option.isSome_iff_exists.mp (taken m listed)
      exact List.mem_map.mpr ⟨p, procedureWith?_mem found⟩
    simpa using names.length_le_of_subset inside
  simpa using free

end Graph

namespace Workspace

theorem makeVariable_wellFormed {w w' : Workspace} {name : String} {id : VariableId}
    (wf : w.graph.WellFormed) (made : w.make (.makeVariable name) = .ok (w', id)) :
    w'.graph.WellFormed := by
  obtain ⟨name', checked, same⟩ := makeVariable_iff.mp made
  cases same
  exact wf.addVariable (Graph.variableSerial_free _ _) checked

-- One edit, whatever it is.
theorem apply_wellFormed {w w' : Workspace} {e : Edit} {reply : EditReply}
    (wf : w.graph.WellFormed) (edited : w.apply e = .ok (w', reply)) : w'.graph.WellFormed := by
  cases e with
  | addBlock kind =>
    cases free : kind.isDefinition with
    | true => simp [apply_addBlock, free] at edited
    | false =>
      simp only [apply_addBlock, free, Bool.false_eq_true, if_false, Except.ok.injEq,
        Prod.mk.injEq] at edited
      obtain ⟨rfl, _⟩ := edited
      exact wf.addFresh free (Graph.blockSerial_free _ _)
  | addBlockAs id kind =>
    obtain ⟨g, made, rfl⟩ := keepSerial_eq_ok edited
    exact wf.addBlock made
  | setField block slot value =>
    obtain ⟨g, made, rfl⟩ := keepSerial_eq_ok edited
    exact wf.setField made
  | attach parent place child =>
    obtain ⟨g, made, rfl⟩ := keepSerial_eq_ok edited
    exact wf.attach made
  | detach block =>
    obtain ⟨g, made, rfl⟩ := keepSerial_eq_ok edited
    exact wf.detach made
  | reorderRoot block index =>
    obtain ⟨g, made, rfl⟩ := keepSerial_eq_ok edited
    exact wf.reorderRoot made
  | setPosition block position =>
    obtain ⟨g, made, rfl⟩ := keepSerial_eq_ok edited
    exact wf.setPosition made
  | setItemCount block items =>
    obtain ⟨g, made, rfl⟩ := keepSerial_eq_ok edited
    exact wf.setItemCount made
  | setHasElse block hasElse =>
    obtain ⟨g, made, rfl⟩ := keepSerial_eq_ok edited
    exact wf.setHasElse made
  | deleteTree block =>
    obtain ⟨g, made, rfl⟩ := keepSerial_eq_ok edited
    exact wf.deleteTree made
  | clear =>
    obtain ⟨g, made, same⟩ := keepSerial_eq_ok edited
    cases made
    rw [same]
    exact .empty
  | createVariable name =>
    rw [apply_createVariable] at edited
    obtain ⟨⟨made, id⟩, step, same⟩ := map_eq_ok.mp edited
    cases same
    exact makeVariable_wellFormed wf step
  | createVariableAs id name =>
    obtain ⟨g, made, rfl⟩ := keepSerial_eq_ok edited
    exact wf.createVariable made
  | renameVariable id name =>
    obtain ⟨g, made, rfl⟩ := keepSerial_eq_ok edited
    exact wf.renameVariable made
  | deleteVariable id =>
    obtain ⟨g, made, rfl⟩ := keepSerial_eq_ok edited
    exact wf.deleteVariable made
  | createProcedure name params returns =>
    rw [apply_createProcedure] at edited
    obtain ⟨name', checked, same⟩ := map_eq_ok.mp edited
    cases same
    exact wf.addProcedure (Graph.procedureSerial_free _ _) (Graph.blockSerial_free _ _) checked
  | createProcedureAs id definition name params returns =>
    obtain ⟨g, made, rfl⟩ := keepSerial_eq_ok edited
    exact wf.createProcedure made
  | renameProcedure id name =>
    obtain ⟨g, made, rfl⟩ := keepSerial_eq_ok edited
    exact wf.renameProcedure made
  | setParams id params =>
    obtain ⟨g, made, rfl⟩ := keepSerial_eq_ok edited
    exact wf.setParams made
  | removeProcedure id =>
    obtain ⟨g, made, rfl⟩ := keepSerial_eq_ok edited
    exact wf.removeProcedure made

end Workspace

namespace Snapshot

theorem accepted_eq_ok {α : Type} {x : Except EditError α} {a : α} :
    accepted x = .ok a ↔ x = .ok a := by
  cases x <;> simp [accepted]

theorem edit_eq_ok {w w' : Workspace} {e : Edit} :
    edit w e = .ok w' ↔ ∃ reply, w.apply e = .ok (w', reply) := by
  unfold edit
  rw [accepted_eq_ok, map_eq_ok]
  simp only [Prod.exists]
  constructor
  · rintro ⟨_, reply, made, rfl⟩
    exact ⟨reply, made⟩
  · rintro ⟨reply, made⟩
    exact ⟨w', reply, made, rfl⟩

-- Loading makes edits and nothing else, so it keeps whatever every edit keeps.
section

variable {P : Workspace → Prop}
  (kept : ∀ w e w' reply, P w → w.apply e = .ok (w', reply) → P w')

include kept

theorem edit_keeps {w w' : Workspace} {e : Edit} (holds : P w) (made : edit w e = .ok w') : P w' := by
  obtain ⟨reply, applied⟩ := edit_eq_ok.mp made
  exact kept w e w' reply holds applied

theorem editAll_keeps {edits : List Edit} {w w' : Workspace} (holds : P w)
    (made : editAll w edits = .ok w') : P w' := by
  induction edits generalizing w with
  | nil =>
    cases made
    exact holds
  | cons e rest ih =>
    obtain ⟨mid, first, later⟩ := bind_eq_ok.mp made
    exact ih (edit_keeps kept holds first) later

theorem declareListed_keeps {procedures : List SavedProcedure} {bound : List (String × SavedBlock)}
    {w w' : Workspace} (holds : P w) (made : declareListed bound w procedures = .ok w') : P w' := by
  induction procedures generalizing bound w with
  | nil =>
    cases bound with
    | nil =>
      cases made
      exact holds
    | cons head rest => cases made
  | cons procedure rest ih =>
    rw [declareListed] at made
    split at made
    · exact ih holds made
    · obtain ⟨mid, first, later⟩ := bind_eq_ok.mp made
      exact ih (edit_keeps kept holds first) later

theorem resolveParam_keeps {w w' : Workspace} {param : SavedParam} {id : VariableId} (holds : P w)
    (made : resolveParam w param = .ok (w', id)) : P w' := by
  unfold resolveParam at made
  split at made
  · cases made
    exact holds
  · split at made
    · cases made
      exact holds
    · split at made
      · obtain ⟨mid, first, later⟩ := bind_eq_ok.mp made
        cases later
        exact edit_keeps kept holds first
      · refine kept w (.createVariable param.name) w' (.variableMade id) holds ?_
        rw [Workspace.apply_createVariable, accepted_eq_ok.mp made]
        rfl

theorem resolveParams_keeps {params : List SavedParam} {w w' : Workspace} {ids : List VariableId}
    (holds : P w) (made : resolveParams w params = .ok (w', ids)) : P w' := by
  induction params generalizing w ids with
  | nil =>
    cases made
    exact holds
  | cons param rest ih =>
    obtain ⟨⟨mid, first⟩, resolved, later⟩ := bind_eq_ok.mp made
    obtain ⟨⟨last, others⟩, remaining, same⟩ := bind_eq_ok.mp later
    cases same
    exact ih (resolveParam_keeps kept holds resolved) remaining

theorem declareNative_keeps {native : List (String × SavedBlock)} {w w' : Workspace} (holds : P w)
    (made : declareNative w native = .ok w') : P w' := by
  induction native generalizing w with
  | nil =>
    cases made
    exact holds
  | cons head rest ih =>
    obtain ⟨name, definition⟩ := head
    rw [declareNative] at made
    simp only at made
    split at made
    · cases made
    · obtain ⟨⟨mid, params⟩, resolved, later⟩ := bind_eq_ok.mp made
      obtain ⟨last, created, remaining⟩ := bind_eq_ok.mp later
      exact ih (edit_keeps kept (resolveParams_keeps kept holds resolved) created) remaining

theorem restore_keeps {form : Form} {w : Workspace} (empty : P .empty) (made : restore form = .ok w) :
    P w := by
  obtain ⟨tables, declared, later⟩ := bind_eq_ok.mp made
  obtain ⟨planned, _, carried⟩ := bind_eq_ok.mp later
  refine editAll_keeps kept ?_ carried
  obtain ⟨start, first, later⟩ := bind_eq_ok.mp declared
  obtain ⟨sorted, _, later⟩ := bind_eq_ok.mp later
  obtain ⟨listed, second, third⟩ := bind_eq_ok.mp later
  exact declareNative_keeps kept (declareListed_keeps kept (editAll_keeps kept empty first) second) third

end

theorem restore_wellFormed {form : Form} {w : Workspace} (made : restore form = .ok w) :
    w.graph.WellFormed :=
  restore_keeps (P := fun w => w.graph.WellFormed)
    (fun _ _ _ _ wf edited => Workspace.apply_wellFormed wf edited) .empty made

end Snapshot

namespace Workspace

-- Ways from one workspace to another. A batch that is given up leaves the graph it
-- started from, and the serial where it ended.
inductive Steps : Workspace → Workspace → Prop where
  | done (w : Workspace) : Steps w w
  | edit {v w w' : Workspace} {e : Edit} {reply : EditReply} (before : Steps v w)
      (made : w.apply e = .ok (w', reply)) : Steps v w'
  | replace {v w other : Workspace} (before : Steps v w) (reached : Steps .empty other) :
      Steps v (w.replace other)
  | load {v w loaded : Workspace} {form : Snapshot.Form} (before : Steps v w)
      (made : Snapshot.restore form = .ok loaded) : Steps v (w.replace loaded)
  | abandon {v w inner : Workspace} (before : Steps v w) (batch : Steps w inner) :
      Steps v { inner with graph := w.graph }

def Reachable (w : Workspace) : Prop := Steps .empty w

theorem Steps.trans {u v w : Workspace} (first : Steps u v) (second : Steps v w) : Steps u w := by
  induction second with
  | done => exact first
  | edit _ made ih => exact .edit (ih first) made
  | replace _ reached ih => exact .replace (ih first) reached
  | load _ made ih => exact .load (ih first) made
  | abandon _ batch ih => exact .abandon (ih first) batch

theorem Steps.wellFormed {v w : Workspace} (steps : Steps v w) (wf : v.graph.WellFormed) :
    w.graph.WellFormed := by
  induction steps with
  | done => exact wf
  | edit _ made ih => exact apply_wellFormed (ih wf) made
  | replace _ _ _ reached => exact reached .empty
  | load _ made =>
    have loaded := Snapshot.restore_wellFormed made
    exact loaded
  | abandon _ _ ih => exact ih wf

theorem Reachable.wellFormed {w : Workspace} (reached : w.Reachable) : w.graph.WellFormed :=
  Steps.wellFormed reached .empty

end Workspace

-- A session takes no other steps.
namespace Editing.Session

open Workspace

theorem runEdit_steps (s : Session) (e : Edit) : Steps s.workspace (s.runEdit e).1.workspace := by
  rw [runEdit_eq]
  split
  · exact .done _
  · next made =>
    have after := Steps.edit (.done _) made
    simp only [answer, changed_workspace]
    exact after

theorem runLoad_steps (s : Session) (json : String) :
    Steps s.workspace (s.runLoad json).1.workspace := by
  rw [runLoad_eq]
  split
  · exact .done _
  · next w made =>
    unfold Snapshot.load at made
    split at made
    · have after := Steps.load (.done s.workspace) made
      simp only [answer, changed_workspace]
      exact after
    · cases made

theorem runQuery_workspace (s : Session) (q : Query) : (s.runQuery q).1.workspace = s.workspace := by
  unfold runQuery
  split <;> first | rfl | (split <;> rfl)

theorem withDriver_workspace (s : Session) (index : Nat) (detached : Reply)
    {run : Driver → Session × Step} (keeps : ∀ driver, (run driver).1.workspace = s.workspace) :
    (s.withDriver index detached run).1.workspace = s.workspace := by
  unfold withDriver
  split
  · rfl
  · split
    · exact keeps _
    · rfl

theorem closeBatch_steps {s inner : Session} (committed : Bool)
    (batch : Steps s.workspace inner.workspace) :
    Steps s.workspace (inner.closeBatch s committed).1.workspace := by
  unfold closeBatch
  cases committed with
  | true =>
    simp only [if_true]
    split
    · exact batch
    · rw [notify_workspace]
      exact batch
  | false => exact .abandon (.done _) batch

mutual

theorem run_steps (s : Session) : (c : Command) → Steps s.workspace (s.run c).1.workspace
  | .edit e => by rw [run]; exact s.runEdit_steps e
  | .load json => by rw [run]; exact s.runLoad_steps json
  | .batch commands tolerate fail => by
    rw [run]
    exact closeBatch_steps _ (runAll_steps { s with depth := s.depth + 1 } (!tolerate) commands)
  | .replace commands => by
    rw [run_replace, changed_workspace]
    exact .replace (.done s.workspace) (runAll_steps {} false commands)
  | .query q => by rw [run, runQuery_workspace]; exact .done _
  | .subscribe => by rw [run]; exact .done _
  | .unsubscribe handle => by
    rw [run]
    unfold runUnsubscribe
    split <;> exact .done _
  | .attachDriver options sink => by rw [run]; exact .done _
  | .regenerate index => by
    rw [run, withDriver_workspace]
    · exact .done _
    · intro driver
      exact pass_workspace s index
  | .driverSequence index => by
    rw [run, withDriver_workspace]
    · exact .done _
    · intro driver
      rfl
  | .detachDriver index => by
    rw [run, withDriver_workspace]
    · exact .done _
    · intro driver
      rfl
  | .issue endpoint code sequence => by rw [run]; exact .done _
  | .issueRun code => by rw [run]; exact .done _
  | .completeAnalysis sequence outcome => by rw [run]; exact .done _
  | .completeRun sequence outcome => by rw [run]; exact .done _
  | .unreadable complaint => by rw [run]; exact .done _

theorem runAll_steps (s : Session) (stopAtFailure : Bool) :
    (commands : List Command) → Steps s.workspace (s.runAll stopAtFailure commands).1.workspace
  | [] => by rw [runAll]; exact .done _
  | command :: rest => by
    rw [runAll]
    simp only
    split
    · exact run_steps s command
    · exact (run_steps s command).trans (runAll_steps (s.run command).1 stopAtFailure rest)

end

theorem runAll_reachable (stopAtFailure : Bool) (commands : List Command) :
    (runAll {} stopAtFailure commands).1.workspace.Reachable := runAll_steps {} stopAtFailure commands

end Editing.Session

-- Whatever was done, and whether it succeeded or not, the rules hold.
theorem reachable_graph_lawful {w : Workspace} (reached : w.Reachable) :
    w.graph.validate = .ok () ∧ w.graph.Lawful :=
  ⟨reached.wellFormed.validate_ok, reached.wellFormed.lawful⟩

theorem printed_number_lawful :
    let w := (Editing.Session.runAll {} false
      [.edit (.addBlock .print), .batch [.edit (.addBlock .number), .edit (.detach ⟨"b1"⟩)] false false,
        .edit (.addBlock .number), .edit (.attach ⟨"b1"⟩ (.input "TEXT") ⟨"b3"⟩)]).1.workspace
    w.graph.roots = [⟨"b1"⟩] ∧ w.graph.size = 2 ∧ w.graph.validate = .ok () ∧ w.graph.Lawful :=
  ⟨by decide +kernel, by decide +kernel,
    reachable_graph_lawful (Editing.Session.runAll_reachable false _)⟩

-- What no check asks for, though saving, loading and generating rely on it.
structure Graph.Settled (g : Graph) : Prop where
  keys : ∀ id block, g.block? id = some block → block.id = id
  values : ∀ id block name value, g.block? id = some block → block.fields.get? name = some value →
    ∃ shape, block.kind.slot? block.extent name = some (.field shape) ∧ value.Fits shape
  definitions : ∀ id block, g.block? id = some block → block.kind.isDefinition = true →
    ∃ p, block.fields.get? "NAME" = some (.procedureRef p)
  items : ∀ id block, g.block? id = some block → block.extent.items ≤ 1024
  plain : ∀ id block, g.block? id = some block → block.kind.variadic = none → block.extent.items = 0
  unbound : ∀ id block, g.block? id = some block → block.kind.isCall = true →
    block.fields.get? "NAME" = some .empty → block.extent.items = 0
  branches : ∀ id block, g.block? id = some block → block.extent.hasElse = true → block.kind = .ifElse
  params : ∀ p ∈ g.procedures, p.params.length ≤ 1024
  variableNames : ∀ v ∈ g.vars, Text.trim v.name = v.name
  procedureNames : ∀ p ∈ g.procedures, Text.trim p.name = p.name

theorem Kind.ifElse_of_branches {kind : Kind} (grows : kind.variadic = some .branches) : kind = .ifElse := by
  cases kind with
  | ifElse => rfl
  | _ => cases grows

theorem Block.Proper.value_fits {block : Block} (proper : block.Proper) {name : String} {value : FieldValue}
    (holds : block.fields.get? name = some value) :
    ∃ shape, block.kind.slot? block.extent name = some (.field shape) ∧ value.Fits shape := by
  obtain ⟨shape, sort⟩ := (proper.shaped.fields name).mp (by rw [holds]; rfl)
  exact ⟨shape, sort, proper.fitting name value shape holds sort⟩

theorem Graph.WellFormed.settled {g : Graph} (wf : g.WellFormed) : g.Settled where
  keys id block found := (wf.built id block found).1
  values id block name value found holds := (wf.built id block found).2.value_fits holds
  definitions id block found defines := (wf.bound.blocks id _ (contents_of_block found)).bound defines
  items id block found := (wf.built id block found).2.allowed.bounded
  plain id block found := (wf.built id block found).2.allowed.fixed
  unbound id block found calls free := (wf.bound.blocks id _ (contents_of_block found)).unbound calls free
  branches id block found otherwise := by
    apply Kind.ifElse_of_branches
    by_contra other
    have without := (wf.built id block found).2.allowed.plain other
    exact Bool.false_ne_true (without.symm.trans otherwise)
  params p listed := (wf.bound.procedures p listed).short
  variableNames v listed := (wf.variableNames.filled v listed).1
  procedureNames p listed := (wf.procedureNames.filled p listed).1

theorem reachable_graph_settled {w : Workspace} (reached : w.Reachable) : w.graph.Settled :=
  reached.wellFormed.settled

-- A call that loses its procedure keeps no argument, and its former argument is a root.
theorem released_call_settled :
    let w := (Editing.Session.runAll {} false
      [.edit (.createVariable " n "), .edit (.createProcedure "twice" [⟨"v1"⟩] true),
        .edit (.addBlock (.call true)), .edit (.addBlock .number),
        .edit (.setField ⟨"b4"⟩ "NAME" (.procedureRef ⟨"p2"⟩)),
        .edit (.attach ⟨"b4"⟩ (.input "ARG0") ⟨"b5"⟩), .edit (.setField ⟨"b4"⟩ "NAME" .empty)]).1.workspace
    w.graph.roots = [⟨"b3"⟩, ⟨"b4"⟩, ⟨"b5"⟩] ∧ (w.graph.block? ⟨"b4"⟩).map (·.extent.items) = some 0 ∧
      w.graph.Settled :=
  ⟨by decide +kernel, by decide +kernel,
    reachable_graph_settled (Editing.Session.runAll_reachable false _)⟩

end Blockwork
