import Mathlib
import Blockwork.Editing.Session
import Blockwork.Proofs.EditRules

-- Edits write step by step, and a step that fails undoes nothing. Each of them
-- makes all its look-ups and checks before its first write, so one that fails has
-- written nothing and told nobody.
namespace Blockwork
namespace Change

section

variable {ε σ α β : Type}

-- A program that always completes.
def Certain (change : Change ε σ α) : Prop := ∀ s, ∃ a s', change.runOn s = (.ok a, s')

theorem Certain.pure (a : α) : Certain (pure a : Change ε σ α) := fun s => ⟨a, s, rfl⟩

theorem Certain.modify (f : σ → σ) : Certain (modify f : Change ε σ PUnit) := fun s => ⟨⟨⟩, f s, rfl⟩

theorem Certain.set (s : σ) : Certain (set s : Change ε σ PUnit) := fun _ => ⟨⟨⟩, s, rfl⟩

theorem Certain.get : Certain (get : Change ε σ σ) := fun s => ⟨s, s, rfl⟩

theorem Certain.bind {x : Change ε σ α} {f : α → Change ε σ β} (first : Certain x)
    (rest : ∀ a, Certain (f a)) : Certain (x >>= f) := by
  intro s
  obtain ⟨a, s', ran⟩ := first s
  rw [runOn_bind, ran]
  exact rest a s'

theorem Certain.forM {items : List β} {f : β → Change ε σ PUnit} (each : ∀ b, Certain (f b)) :
    Certain (items.forM f) := by
  induction items with
  | nil => exact .pure _
  | cons b rest ih => exact .bind (each b) fun _ => ih

-- A program that leaves the state alone if it fails.
def Atomic (change : Change ε σ α) : Prop := ∀ s e s', change.runOn s = (.error e, s') → s' = s

theorem Certain.atomic {change : Change ε σ α} (certain : Certain change) : Atomic change := by
  intro s e s' failed
  obtain ⟨a, s₁, ran⟩ := certain s
  rw [ran] at failed
  cases failed

theorem Atomic.bind {x : Change ε σ α} {f : α → Change ε σ β} (first : Atomic x)
    (rest : ∀ a, Certain (f a)) : Atomic (x >>= f) := by
  intro s e s' failed
  rw [runOn_bind] at failed
  rcases ran : x.runOn s with ⟨e' | a, s₁⟩ <;> rw [ran] at failed
  · cases failed
    exact first s _ _ ran
  · exact absurd failed (by obtain ⟨b, s₂, done⟩ := rest a s₁; simp [done])

-- A program in two parts: first it looks at the state, checks and may refuse, then it writes
-- and cannot fail any more.
inductive Guarded : Change ε σ α → Prop where
  | looks {rest : σ → Change ε σ α} (later : ∀ s, Guarded (rest s)) : Guarded (get >>= rest)
  | checks {β : Type} {x : Except ε β} {rest : β → Change ε σ α} (later : ∀ b, Guarded (rest b)) :
      Guarded (liftM x >>= rest)
  | refuses (e : ε) : Guarded (throw e)
  | refusesBefore {β : Type} (e : ε) (rest : β → Change ε σ α) : Guarded (throw e >>= rest)
  | writes {change : Change ε σ α} (certain : Certain change) : Guarded change

theorem Guarded.atomic {change : Change ε σ α} (guarded : Guarded change) : Atomic change := by
  intro s
  induction guarded with
  | looks _ ih => exact ih s
  | @checks β x rest _ ih =>
    cases x with
    | error e =>
      intro _ _ failed
      cases failed
      rfl
    | ok b => exact ih b
  | refuses e | refusesBefore e rest =>
    intro _ _ failed
    cases failed
    rfl
  | writes certain => exact certain.atomic s

theorem Guarded.ite {c : Prop} [Decidable c] {yes no : Change ε σ α} (first : Guarded yes)
    (second : Guarded no) : Guarded (if c then yes else no) := by
  split <;> assumption

end

-- One lemma for each edit of a graph, along its steps.
theorem attach_guarded (parent : BlockId) (place : Place) (child : BlockId) :
    Guarded (attach parent place child) :=
  .looks fun _ => .checks fun _ => .writes
    (.bind (.modify _) fun _ => .bind (.modify _) fun _ => .modify _)

theorem detach_guarded (id : BlockId) : Guarded (detach id) :=
  .looks fun _ => .checks fun _ => .ite (.refusesBefore _ _)
    (.writes (.bind (.modify _) fun _ => .modify _))

theorem reorderRoot_guarded (id : BlockId) (index : Nat) : Guarded (reorderRoot id index) :=
  .looks fun _ => .checks fun _ => .looks fun _ => .ite (.refusesBefore _ _)
    (.writes (.bind (.modify _) fun _ => .modify _))

theorem addBlock_guarded (id : BlockId) (kind : Kind) : Guarded (addBlock id kind) :=
  .ite (.refusesBefore _ _) (.looks fun _ => .ite (.refusesBefore _ _) (.writes (.modify _)))

theorem setPosition_guarded (id : BlockId) (position : Position) :
    Guarded (setPosition id position) :=
  .looks fun _ => .checks fun _ => .writes (.modify _)

theorem setItemCount_guarded (id : BlockId) (items : Nat) : Guarded (setItemCount id items) := by
  refine .looks fun g => .checks fun block => ?_
  dsimp only
  split
  · exact .ite (.refusesBefore _ _) (.writes (.modify _))
  · exact .ite (.refusesBefore _ _) (.writes (.modify _))
  · exact .refusesBefore _ _

theorem setHasElse_guarded (id : BlockId) (hasElse : Bool) : Guarded (setHasElse id hasElse) :=
  .looks fun _ => .checks fun _ => .ite (.refusesBefore _ _) (.writes (.modify _))

theorem createVariable_guarded (id : VariableId) (name : String) :
    Guarded (createVariable id name) :=
  .looks fun _ => .ite (.refusesBefore _ _)
    (.looks fun _ => .checks fun _ => .writes (.modify _))

theorem renameVariable_guarded (id : VariableId) (name : String) :
    Guarded (renameVariable id name) :=
  .looks fun _ => .ite (.refusesBefore _ _)
    (.looks fun _ => .checks fun _ => .writes (.modify _))

theorem deleteVariable_guarded (id : VariableId) : Guarded (deleteVariable id) :=
  .looks fun _ => .ite (.refusesBefore _ _)
    (.looks fun _ => .ite (.refusesBefore _ _) (.writes (.modify _)))

theorem createProcedure_guarded (id : ProcedureId) (definition : BlockId) (name : String)
    (params : List VariableId) (returns : Bool) :
    Guarded (createProcedure id definition name params returns) :=
  .looks fun _ => .ite (.refusesBefore _ _)
    (.looks fun _ => .ite (.refusesBefore _ _)
      (.looks fun _ => .checks fun _ => .writes (.modify _)))

theorem renameProcedure_guarded (id : ProcedureId) (name : String) :
    Guarded (renameProcedure id name) :=
  .looks fun _ => .ite (.refusesBefore _ _)
    (.looks fun _ => .checks fun _ => .writes (.modify _))

theorem setParams_guarded (id : ProcedureId) (params : List VariableId) :
    Guarded (setParams id params) :=
  .looks fun _ => .ite (.refusesBefore _ _)
    (.looks fun _ => .checks fun _ => .writes
      (.bind (.modify _) fun _ => .bind .get fun _ => .forM fun _ => .modify _))

theorem removeProcedure_guarded (id : ProcedureId) : Guarded (removeProcedure id) := by
  refine .looks fun g => ?_
  split
  · exact .looks fun _ => .ite (.refusesBefore _ _) (.writes (.bind (.modify _) fun _ => .modify _))
  · exact .refuses _

theorem deleteTree_guarded (id : BlockId) : Guarded (deleteTree id) := by
  refine .looks fun g => .checks fun block => .ite ?_ (.writes (.modify _))
  split
  · exact removeProcedure_guarded _
  · exact .refuses _

theorem setField_guarded (id : BlockId) (slot : String) (value : FieldValue) :
    Guarded (setField id slot value) := by
  refine .looks fun g => .checks fun block => ?_
  split
  · refine .looks fun _ => .checks fun _ => .looks fun g => .looks fun _ => .checks fun _ =>
      .writes (.bind (.modify _) fun _ => ?_)
    split
    · exact .modify _
    · exact .pure _
  · exact .refuses _
  · exact .refuses _

-- A workspace in the middle of an edit. Numbers that are used up and what listeners are told
-- belong to the state as much as the graph does.
section

variable {ε α β : Type}

theorem runOn_onGraph (change : Change ε Graph α) (bench : Workbench) :
    (onGraph change).runOn bench = ((change.runOn bench.workspace.graph).1,
      { bench with workspace :=
        { bench.workspace with graph := (change.runOn bench.workspace.graph).2 } }) := rfl

theorem Atomic.onGraph {change : Change ε Graph α} (atomic : Atomic change) :
    Atomic (onGraph change) := by
  intro bench e bench' failed
  rw [runOn_onGraph, Prod.mk.injEq] at failed
  obtain ⟨refused, rfl⟩ := failed
  have kept := atomic _ _ _ (Prod.ext refused rfl)
  simp only [kept]

theorem Certain.onGraph {change : Change ε Graph α} (certain : Certain change) :
    Certain (onGraph change) := by
  intro bench
  obtain ⟨a, g, ran⟩ := certain bench.workspace.graph
  exact ⟨a, _, by rw [runOn_onGraph, ran]⟩

theorem Certain.announce : Certain (announce : Change ε Workbench Unit) := .modify _

theorem Certain.newSerial (next : Graph → Nat → Nat) :
    Certain (newSerial next : Change ε Workbench Nat) :=
  .bind .get fun _ => .bind (.modify _) fun _ => .pure _

theorem keepSerial_atomic {change : Change EditError Graph Unit} (guarded : Guarded change) :
    Atomic (keepSerial change) :=
  .bind guarded.atomic.onGraph fun _ => .bind .announce fun _ => .pure _

theorem makeVariable_guarded (name : String) : Guarded (makeVariable name) :=
  .looks fun _ => .checks fun _ => .writes (.bind (.newSerial _) fun _ =>
    .bind (.onGraph (.modify _)) fun _ => .bind .announce fun _ => .pure _)

theorem takeOver_certain (other : Workspace) :
    Certain (takeOver other : Change ε Workbench Unit) := .bind (.modify _) fun _ => .announce

-- Whatever the edit and wherever it fails.
theorem perform_atomic (e : Edit) : Atomic (perform e) := by
  cases e with
  | addBlock kind =>
    refine Guarded.atomic (.ite (.refusesBefore _ _) (.writes ?_))
    exact .bind (.newSerial _) fun _ => .bind (.onGraph (.modify _)) fun _ =>
      .bind .announce fun _ => .pure _
  | addBlockAs id kind => exact keepSerial_atomic (addBlock_guarded id kind)
  | setField block slot value => exact keepSerial_atomic (setField_guarded block slot value)
  | attach parent place child => exact keepSerial_atomic (attach_guarded parent place child)
  | detach block => exact keepSerial_atomic (detach_guarded block)
  | reorderRoot block index => exact keepSerial_atomic (reorderRoot_guarded block index)
  | setPosition block position => exact keepSerial_atomic (setPosition_guarded block position)
  | setItemCount block items => exact keepSerial_atomic (setItemCount_guarded block items)
  | setHasElse block hasElse => exact keepSerial_atomic (setHasElse_guarded block hasElse)
  | deleteTree block => exact keepSerial_atomic (deleteTree_guarded block)
  | clear => exact keepSerial_atomic (.writes (.set _))
  | createVariable name => exact .bind (makeVariable_guarded name).atomic fun _ => .pure _
  | createVariableAs id name => exact keepSerial_atomic (createVariable_guarded id name)
  | renameVariable id name => exact keepSerial_atomic (renameVariable_guarded id name)
  | deleteVariable id => exact keepSerial_atomic (deleteVariable_guarded id)
  | createProcedure name params returns =>
    refine Guarded.atomic (.looks fun _ => .checks fun _ => .writes ?_)
    exact .bind (.newSerial _) fun _ => .bind (.newSerial _) fun _ =>
      .bind (.onGraph (.modify _)) fun _ => .bind .announce fun _ => .pure _
  | createProcedureAs id definition name params returns =>
    exact keepSerial_atomic (createProcedure_guarded id definition name params returns)
  | renameProcedure id name => exact keepSerial_atomic (renameProcedure_guarded id name)
  | setParams id params => exact keepSerial_atomic (setParams_guarded id params)
  | removeProcedure id => exact keepSerial_atomic (removeProcedure_guarded id)

-- Programs that tell nobody, and programs that tell once, at their end.
def Silent (change : Change ε Workbench α) : Prop :=
  ∀ bench, (change.runOn bench).2.shown = bench.shown

def Tells (change : Change ε Workbench α) : Prop :=
  ∀ bench a bench', change.runOn bench = (.ok a, bench') →
    bench'.shown = bench.shown ++ [bench'.workspace]

theorem Silent.onGraph (change : Change ε Graph α) : Silent (onGraph change) := fun _ => rfl

theorem Silent.newSerial (next : Graph → Nat → Nat) :
    Silent (newSerial next : Change ε Workbench Nat) := fun _ => rfl

theorem Silent.modify {f : Workspace → Workspace} :
    Silent (modify fun bench => { bench with workspace := f bench.workspace } :
      Change ε Workbench PUnit) := fun _ => rfl

theorem Tells.announce : Tells (announce : Change ε Workbench Unit) := by
  intro bench a bench' ran
  cases ran
  rfl

theorem Tells.after {x : Change ε Workbench α} {f : α → Change ε Workbench β} (silent : Silent x)
    (rest : ∀ a, Tells (f a)) : Tells (x >>= f) := by
  intro bench b bench' ran
  have first := silent bench
  rw [runOn_bind] at ran
  rcases done : x.runOn bench with ⟨e | a, middle⟩ <;> rw [done] at ran first
  · cases ran
  · exact (rest a middle b bench' ran).trans (by rw [← first])

theorem Tells.answer {x : Change ε Workbench α} (tells : Tells x) (f : α → β) :
    Tells (x >>= fun a => pure (f a)) := by
  intro bench b bench' ran
  rw [runOn_bind] at ran
  rcases done : x.runOn bench with ⟨e | a, middle⟩ <;> rw [done] at ran
  · cases ran
  · cases ran
    exact tells bench a _ done

theorem Tells.looks {rest : Workbench → Change ε Workbench α} (later : ∀ bench, Tells (rest bench)) :
    Tells (get >>= rest) := fun bench => later bench bench

theorem Tells.checks {x : Except ε β} {rest : β → Change ε Workbench α} (later : ∀ b, Tells (rest b)) :
    Tells (liftM x >>= rest) := by
  intro bench a bench' ran
  cases x with
  | error e => cases ran
  | ok b => exact later b bench a bench' ran

theorem keepSerial_tells (change : Change EditError Graph Unit) : Tells (keepSerial change) :=
  .after (.onGraph change) fun _ => .answer .announce _

theorem makeVariable_tells (name : String) : Tells (makeVariable name) :=
  .looks fun _ => .checks fun _ => .after (.newSerial _) fun _ => .after (.onGraph _) fun _ =>
    .answer .announce _

theorem takeOver_tells (other : Workspace) : Tells (takeOver other : Change ε Workbench Unit) :=
  .after (.modify (f := (·.replace other))) fun _ => .announce

theorem perform_tells (e : Edit) : Tells (perform e) := by
  cases e with
  | addBlock kind =>
    simp only [perform]
    split
    · intro _ _ _ ran
      cases ran
    · exact .after (.newSerial _) fun _ => .after (.onGraph _) fun _ => .answer .announce _
  | createVariable name => exact .answer (makeVariable_tells name) _
  | createProcedure name params returns =>
    exact .looks fun _ => .checks fun _ => .after (.newSerial _) fun _ => .after (.newSerial _) fun _ =>
      .after (.onGraph _) fun _ => .answer .announce _
  | _ => exact keepSerial_tells _

-- All there is to an atomic change that tells once: its outcome says the rest.
theorem runOn_outcome {change : Change ε Workbench α} (atomic : Atomic change) (tells : Tells change)
    (w : Workspace) :
    change.runOn ⟨w, []⟩ = match change.outcome ⟨w, []⟩ with
      | .ok (bench, a) => (.ok a, ⟨bench.workspace, [bench.workspace]⟩)
      | .error e => (.error e, ⟨w, []⟩) := by
  unfold outcome
  rcases ran : change.runOn ⟨w, []⟩ with ⟨e | a, bench⟩
  · simp only [atomic _ _ _ ran]
  · have told := tells _ _ _ ran
    simp only [List.nil_append] at told
    simp only [← told]

end

end Change

namespace Editing.Session

theorem pass_workspace (s : Session) (index : Nat) : (s.pass index).1.workspace = s.workspace := by
  unfold pass
  split
  · rfl
  · simp only
    split <;> rfl

theorem callAll_workspace (listeners : List Listener) (s : Session) :
    (s.callAll listeners).1.workspace = s.workspace := by
  induction listeners generalizing s with
  | nil => rfl
  | cons head rest ih =>
    cases head with
    | observer handle => exact ih s
    | driver index => exact (ih _).trans (pass_workspace s index)

theorem notify_workspace (s : Session) : s.notify.1.workspace = s.workspace := by
  unfold notify
  split
  · rfl
  · exact callAll_workspace _ s

theorem changed_workspace (s : Session) (w : Workspace) : (s.changed w).1.workspace = w :=
  notify_workspace _

-- An atomic change that tells once either changes the session and has listeners called, or it
-- does nothing at all.
theorem make_eq {ε α : Type} (s : Session) {change : Change ε Workbench α} (atomic : change.Atomic)
    (tells : change.Tells) :
    s.make change = match change.outcome ⟨s.workspace, []⟩ with
      | .ok (bench, a) => ((s.changed bench.workspace).1, (s.changed bench.workspace).2, .ok a)
      | .error e => (s, [], .error e) := by
  unfold make
  rw [Change.runOn_outcome atomic tells]
  rcases change.outcome ⟨s.workspace, []⟩ with e | ⟨bench, a⟩
  · rfl
  · have placed := changed_workspace s bench.workspace
    simp only [changedTo, List.append_nil]
    generalize s.changed bench.workspace = told at placed
    rw [← placed]

theorem runEdit_eq (s : Session) (e : Edit) :
    s.runEdit e = match s.workspace.apply e with
      | .error error => s.refuse (.edit error)
      | .ok (w, r) => (s.changed w).1.answer (s.changed w).2 (.ok (.edited r)) := by
  unfold runEdit Workspace.apply Workspace.make
  rw [s.make_eq (Change.perform_atomic e) (Change.perform_tells e)]
  rcases Change.outcome (Change.perform e) ⟨s.workspace, []⟩ with error | ⟨bench, r⟩ <;> rfl

theorem runLoad_eq (s : Session) (json : String) :
    s.runLoad json = match Snapshot.load json with
      | .error error => s.refuse (.load error)
      | .ok w =>
        (s.changed (s.workspace.replace w)).1.answer (s.changed (s.workspace.replace w)).2 (.ok .done) := by
  have guarded : Change.Guarded (loading json) := .checks fun w => .writes (Change.takeOver_certain w)
  have tells : Change.Tells (loading json) := .checks fun w => Change.takeOver_tells w
  unfold runLoad
  rw [s.make_eq guarded.atomic tells]
  unfold loading
  rcases Snapshot.load json with error | w <;> rfl

theorem make_takeOver {ε : Type} (s : Session) (w : Workspace) :
    s.make (Change.takeOver w : Change ε Workbench Unit)
      = ((s.changed (s.workspace.replace w)).1, (s.changed (s.workspace.replace w)).2, .ok ()) :=
  s.make_eq (Change.takeOver_certain w).atomic (Change.takeOver_tells w)

theorem run_replace (s : Session) (commands : List Command) :
    let ran := runAll {} false commands
    let changed := s.changed (s.workspace.replace ran.1.workspace)
    s.run (.replace commands) = (changed.1, .replaced ran.2.1 (changed.1.aftermath changed.2)) := by
  rw [run]
  simp only [make_takeOver]

end Editing.Session
end Blockwork
