import Mathlib
import Blockwork.Proofs.Reachability

-- What a refusal leaves behind: the graph as it was, and silence. Inside a batch
-- nobody is called, whatever happens there, so a batch that is given up has
-- nothing to take back but the graph.
namespace Blockwork.Editing

def Step.after : Step → Aftermath
  | .single _ after | .batch _ _ after | .replaced _ after => after

def Command.isBatch : Command → Bool
  | .batch .. => true
  | _ => false

-- Batches nest, and nothing else does: what `replace` runs is run elsewhere.
theorem Command.nested {P : Command → Prop} (single : ∀ c, c.isBatch = false → P c)
    (batch : ∀ commands tolerate fail, (∀ c ∈ commands, P c) → P (.batch commands tolerate fail))
    (c : Command) : P c := by
  cases kind : c.isBatch with
  | false => exact single c kind
  | true =>
    cases c with
    | batch commands tolerate fail =>
      exact batch commands tolerate fail fun c member => Command.nested single batch c
    | _ => cases kind
termination_by sizeOf c
decreasing_by
  have smaller := List.sizeOf_lt_of_mem member
  simp only [Command.batch.sizeOf_spec]
  omega

namespace Session

-- All that a command other than a batch can do.
inductive Does (s : Session) : Command → Session × Step → Prop where
  | refuses {c : Command} (failure : Failure) : Does s c (s.refuse failure)
  | answers {c : Command} (r : Reply) : Does s c (s.reply r)
  | changes {c : Command} (w : Workspace) (r : Reply) :
      Does s c ((s.changed w).1.answer (s.changed w).2 (.ok r))
  | replaces {commands : List Command} (w : Workspace) (steps : List Step) :
      Does s (.replace commands)
        ((s.changed w).1, .replaced steps ((s.changed w).1.aftermath (s.changed w).2))
  | subscribes (r : Reply) : Does s .subscribe (reply { s with
      listeners := s.listeners ++ [.observer s.observers]
      observers := s.observers + 1 } r)
  | unsubscribes {handle : Nat} (r : Reply) : Does s (.unsubscribe handle) (reply { s with
      listeners := s.listeners.erase (.observer handle) } r)
  | attaches {options : Options} {sink : Sink} (r : Reply) :
      Does s (.attachDriver options sink) (reply { s with
        listeners := s.listeners ++ [.driver s.drivers.length]
        drivers := s.drivers ++ [⟨options, sink, 0, true⟩] } r)
  | detaches {index : Nat} (driver : Driver) (r : Reply) : Does s (.detachDriver index) (reply { s with
      drivers := s.drivers.set index driver
      listeners := s.listeners.erase (.driver index) } r)
  | regenerates {index : Nat} (r : Reply) :
      Does s (.regenerate index) ((s.pass index).1.answer (s.pass index).2 (.ok r))
  | posts {c : Command} (board : Collaboration.Board) (r : Reply) :
      Does s c (reply { s with board := board } r)

theorem withDriver_does {s : Session} {c : Command} {index : Nat} {detached : Reply}
    {run : Driver → Session × Step} (does : ∀ driver, Does s c (run driver)) :
    Does s c (s.withDriver index detached run) := by
  unfold withDriver
  split
  · exact .refuses _
  · split
    · exact does _
    · exact .answers _

theorem runQuery_does (s : Session) (q : Query) : Does s (.query q) (s.runQuery q) := by
  cases q with
  | validate =>
    simp only [runQuery]
    split
    · exact .answers _
    · exact .refuses _
  | roundTrip =>
    simp only [runQuery]
    split
    · exact .answers _
    · exact .refuses _
  | _ => exact .answers _

theorem run_does (s : Session) {c : Command} (single : c.isBatch = false) :
    Does s c (s.run c) := by
  cases c with
  | batch => cases single
  | edit e =>
    rw [run, runEdit_eq]
    split
    · exact .refuses _
    · exact .changes _ _
  | load json =>
    rw [run, runLoad_eq]
    split
    · exact .refuses _
    · exact .changes _ _
  | replace commands =>
    rw [run_replace]
    exact .replaces _ _
  | query q =>
    rw [run]
    exact s.runQuery_does q
  | subscribe =>
    rw [run]
    exact .subscribes _
  | unsubscribe handle =>
    rw [run, runUnsubscribe]
    split
    · exact .unsubscribes _
    · exact .refuses _
  | attachDriver options sink =>
    rw [run]
    exact .attaches _
  | regenerate index =>
    rw [run]
    exact withDriver_does fun _ => .regenerates _
  | driverSequence index =>
    rw [run]
    exact withDriver_does fun _ => .answers _
  | detachDriver index =>
    rw [run]
    exact withDriver_does fun _ => .detaches _ _
  | unreadable complaint =>
    rw [run]
    exact .refuses _
  | _ =>
    rw [run]
    exact .posts _ _

end Session

mutual

-- No listener is called in a step of a command, drivers apart that the command itself sets to
-- work.
def Quiet : Command → Step → Prop
  | .regenerate _, _ => True
  | .batch commands _ _, .batch _ steps after => QuietAll commands steps ∧ after.events = []
  | _, step => step.after.events = []

-- Commands with the steps of those that were run.
def QuietAll : List Command → List Step → Prop
  | _, [] => True
  | [], _ :: _ => False
  | command :: rest, step :: steps => Quiet command step ∧ QuietAll rest steps

end

theorem quietAll_nil (commands : List Command) : QuietAll commands [] := by
  cases commands <;> trivial

theorem Quiet.of_silent {c : Command} {step : Step} (single : c.isBatch = false)
    (silent : step.after.events = []) : Quiet c step := by
  cases c with
  | batch => cases single
  | regenerate index => trivial
  | _ => exact silent

namespace Session

theorem pass_depth (s : Session) (index : Nat) : (s.pass index).1.depth = s.depth := by
  unfold pass
  split
  · rfl
  · simp only
    split <;> rfl

theorem callAll_depth (listeners : List Listener) (s : Session) :
    (s.callAll listeners).1.depth = s.depth := by
  induction listeners generalizing s with
  | nil => rfl
  | cons head rest ih =>
    cases head with
    | observer handle => exact ih s
    | driver index => exact (ih _).trans (pass_depth s index)

theorem notify_depth (s : Session) : s.notify.1.depth = s.depth := by
  unfold notify
  split
  · rfl
  · exact callAll_depth _ s

theorem closeBatch_depth (inner s : Session) (committed : Bool) :
    (inner.closeBatch s committed).1.depth = s.depth := by
  unfold closeBatch
  cases committed with
  | true =>
    simp only [if_true]
    split
    · rfl
    · exact notify_depth _
  | false => rfl

theorem Does.depth {s : Session} {c : Command} {result : Session × Step} (does : Does s c result) :
    result.1.depth = s.depth := by
  cases does with
  | changes w | replaces w => exact notify_depth _
  | regenerates => exact pass_depth s _
  | _ => rfl

theorem run_batch (s : Session) (commands : List Command) (tolerate fail : Bool) :
    let ran := runAll { s with depth := s.depth + 1 } (!tolerate) commands
    let closed := ran.1.closeBatch s (ran.2.2 && !fail)
    s.run (.batch commands tolerate fail)
      = (closed.1, .batch (ran.2.2 && !fail) ran.2.1 (closed.1.aftermath closed.2)) := by
  rw [run]

-- Whatever is run, as many batches are open afterwards as before.
theorem run_depth (s : Session) (c : Command) : (s.run c).1.depth = s.depth := by
  cases kind : c.isBatch with
  | false => exact (s.run_does kind).depth
  | true =>
    cases c with
    | batch commands tolerate fail =>
      rw [run_batch]
      exact closeBatch_depth _ s _
    | _ => cases kind

theorem notify_open {s : Session} (batching : 0 < s.depth) : s.notify = (s, []) := by
  rw [notify, if_pos batching]

theorem closeBatch_open {inner s : Session} {committed : Bool} (batching : 0 < s.depth) :
    (inner.closeBatch s committed).2 = [] := by
  unfold closeBatch
  cases committed with
  | true =>
    simp only [if_true]
    split
    · rfl
    · rw [notify_open (by exact batching)]
  | false => rfl

theorem Does.quiet {s : Session} {c : Command} {result : Session × Step} (does : Does s c result)
    (single : c.isBatch = false) (batching : 0 < s.depth) : Quiet c result.2 := by
  cases does with
  | changes w | replaces w =>
    refine .of_silent single ?_
    exact congrArg Prod.snd (notify_open (s := { s with workspace := w }) batching)
  | regenerates => trivial
  | _ => exact .of_silent single rfl

theorem runAll_quiet {commands : List Command} (stopAtFailure : Bool)
    (each : ∀ c ∈ commands, ∀ s : Session, 0 < s.depth → Quiet c (s.run c).2)
    (s : Session) (batching : 0 < s.depth) : QuietAll commands (s.runAll stopAtFailure commands).2.1 := by
  induction commands generalizing s with
  | nil =>
    rw [runAll]
    exact quietAll_nil []
  | cons c rest ih =>
    rw [List.forall_mem_cons] at each
    have first := each.1 s batching
    rw [runAll]
    simp only
    split
    · exact ⟨first, quietAll_nil rest⟩
    · exact ⟨first, ih each.2 (s.run c).1 (s.run_depth c ▸ batching)⟩

-- While a batch is open nobody is told of anything.
theorem run_quiet (c : Command) : ∀ s : Session, 0 < s.depth → Quiet c (s.run c).2 := by
  refine Command.nested (P := fun c => ∀ s : Session, 0 < s.depth → Quiet c (s.run c).2) ?_ ?_ c
  · exact fun c single s batching => (s.run_does single).quiet single batching
  intro commands tolerate fail each s batching
  rw [run_batch]
  exact ⟨runAll_quiet (!tolerate) each _ (Nat.succ_pos _), closeBatch_open batching⟩

theorem Does.failed {s : Session} {c : Command} {result : Session × Step} (does : Does s c result)
    (failed : result.2.succeeded = false) : result.1 = s ∧ result.2.after.events = [] := by
  cases does with
  | refuses failure => exact ⟨rfl, rfl⟩
  | _ => cases failed

-- The steps of a refused edit have changed nothing up to the one that failed.
theorem refused_edit_stays {s : Session} {e : Edit} (failed : (s.run (.edit e)).2.succeeded = false) :
    ∃ error, (Change.perform e).runOn ⟨s.workspace, []⟩ = (.error error, ⟨s.workspace, []⟩) := by
  rw [run, runEdit, s.make_eq (Change.perform_atomic e) (Change.perform_tells e)] at failed
  rw [Change.runOn_outcome (Change.perform_atomic e) (Change.perform_tells e)]
  cases made : (Change.perform e).outcome ⟨s.workspace, []⟩ with
  | error error => exact ⟨error, rfl⟩
  | ok result =>
    rw [made] at failed
    cases failed

theorem refused_load_stays {s : Session} {json : String}
    (failed : (s.run (.load json)).2.succeeded = false) :
    ∃ error, (loading json).runOn ⟨s.workspace, []⟩ = (.error error, ⟨s.workspace, []⟩) := by
  rw [run, runLoad_eq] at failed
  rw [loading, Change.runOn_lift]
  cases made : Snapshot.load json with
  | error error => exact ⟨error, rfl⟩
  | ok w =>
    rw [made] at failed
    cases failed

-- A batch that is given up puts the graph back, and nothing else that is refused has touched it.
theorem refused_leaves {s : Session} {c : Command} (failed : (s.run c).2.succeeded = false) :
    (s.run c).1.graph = s.graph ∧ Quiet c (s.run c).2 ∧
      (c.isBatch = false → (s.run c).1 = s ∧ (s.run c).2.after.events = []) := by
  cases kind : c.isBatch with
  | false =>
    obtain ⟨same, silent⟩ := (s.run_does kind).failed failed
    exact ⟨congrArg graph same, .of_silent kind silent, fun _ => ⟨same, silent⟩⟩
  | true =>
    cases c with
    | batch commands tolerate fail =>
      rw [run_batch] at failed ⊢
      simp only [Step.succeeded] at failed
      refine ⟨?_, ⟨?_, ?_⟩, by simp⟩
      · rw [failed]
        rfl
      · exact runAll_quiet _ (fun c _ => run_quiet c) _ (Nat.succ_pos _)
      · rw [failed]
        rfl
    | _ => cases kind

-- A refused command leaves the graph as it was and calls nobody. For an edit that is a matter of
-- its steps: what they had written would be in place, and whom they had told would have heard.
theorem refused_command_leaves_graph (s : Session) (c : Command) (failed : (s.run c).2.succeeded = false) :
    (s.run c).1.graph = s.graph ∧ Quiet c (s.run c).2 ∧
      (c.isBatch = false → (s.run c).1 = s ∧ (s.run c).2.after.events = []) ∧
      (∀ e, c = .edit e →
        ∃ error, (Change.perform e).runOn ⟨s.workspace, []⟩ = (.error error, ⟨s.workspace, []⟩)) ∧
      ∀ json, c = .load json →
        ∃ error, (loading json).runOn ⟨s.workspace, []⟩ = (.error error, ⟨s.workspace, []⟩) := by
  obtain ⟨same, quiet, single⟩ := refused_leaves failed
  refine ⟨same, quiet, single, fun e edits => ?_, fun json loads => ?_⟩
  · subst edits
    exact refused_edit_stays failed
  · subst loads
    exact refused_load_stays failed

-- A batch with an inner batch, a loss of everything and another graph in its place, until an edit
-- is refused; and a definition that cannot go because its procedure is called.
theorem abandoned_batch_leaves_graph :
    let s := (runAll {} false [.edit (.createProcedure "f" [] false), .edit (.addBlock (.call false)),
      .edit (.setField ⟨"b3"⟩ "NAME" (.procedureRef ⟨"p1"⟩)), .subscribe, .attachDriver {} .record]).1
    let c : Command := .batch [.edit (.addBlock .number), .batch [.edit .clear] false false,
      .replace [.edit (.addBlock .text)], .edit (.detach ⟨"b9"⟩)] false false
    let e : Edit := .deleteTree ⟨"b2"⟩
    s.graph.roots = [⟨"b2"⟩, ⟨"b3"⟩] ∧
      ((s.run c).2.succeeded = false ∧ (s.run c).1.graph = s.graph ∧ Quiet c (s.run c).2) ∧
      (s.run (.edit e)).2.succeeded = false ∧ (s.run (.edit e)).1 = s ∧
        ∃ error, (Change.perform e).runOn ⟨s.workspace, []⟩ = (.error error, ⟨s.workspace, []⟩) := by
  have given : ∀ (s : Session) (c : Command), (s.run c).2.succeeded = false →
      (s.run c).2.succeeded = false ∧ (s.run c).1.graph = s.graph ∧ Quiet c (s.run c).2 := by
    intro s c failed
    obtain ⟨same, quiet, _⟩ := refused_command_leaves_graph s c failed
    exact ⟨failed, same, quiet⟩
  have refused : ∀ (s : Session) (e : Edit), (s.run (.edit e)).2.succeeded = false →
      (s.run (.edit e)).2.succeeded = false ∧ (s.run (.edit e)).1 = s ∧
        ∃ error, (Change.perform e).runOn ⟨s.workspace, []⟩ = (.error error, ⟨s.workspace, []⟩) := by
    intro s e failed
    obtain ⟨_, _, single, steps, _⟩ := refused_command_leaves_graph s (.edit e) failed
    exact ⟨failed, (single rfl).1, steps e rfl⟩
  exact ⟨by decide +kernel, given _ _ (by decide +kernel), refused _ _ (by decide +kernel)⟩

end Session
end Blockwork.Editing
