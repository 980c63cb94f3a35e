import Blockwork.Editing.Command
import Blockwork.Graph.Basic
import Blockwork.Snapshot.FormWriter

-- An editing session and the steps it takes. Listeners are called after each
-- change, in the order of their subscription and with the changed graph; inside
-- a batch they are not called. A batch that fails leaves the graph as it was.
namespace Blockwork.Editing

open Collaboration

-- One-line description of a graph, for people who look for faults.
def shownVariable (v : Variable) : String :=
  "Variable \x7b id: " ++ v.id.shown ++ ", name: " ++ Text.escaped v.name ++ " \x7d"

def shownProcedure (p : Procedure) : String :=
  "Procedure \x7b id: " ++ p.id.shown ++ ", name: " ++ Text.escaped p.name
    ++ ", params: " ++ bracketed (p.params.map VariableId.shown)
    ++ ", returns: " ++ (if p.returns then "true" else "false")
    ++ ", definition: " ++ p.definition.shown ++ " \x7d"

def describe (g : Graph) (listeners : Nat) : String :=
  "ProgramGraph \x7b blocks: " ++ toString g.size
    ++ ", roots: " ++ bracketed (g.roots.map BlockId.shown)
    ++ ", variables: " ++ bracketed (g.vars.map shownVariable)
    ++ ", procedures: " ++ bracketed (g.procedures.map shownProcedure)
    ++ ", observers: " ++ toString listeners ++ " \x7d"

inductive Listener where
  | observer (handle : Nat)
  | driver (index : Nat)
  deriving DecidableEq

structure Session where
  workspace : Workspace := .empty
  depth : Nat := 0
  listeners : List Listener := []
  observers : Nat := 0
  -- Drivers attached so far, also those detached since.
  drivers : List Driver := []
  board : Board := {}

namespace Session

def graph (s : Session) : Graph := s.workspace.graph

def pass (s : Session) (index : Nat) : Session × List Event :=
  match s.drivers[index]? with
  | none => (s, [])
  | some driver =>
    let (driver, generation) := driver.pass s.graph
    let s := { s with drivers := s.drivers.set index driver }
    match driver.sink with
    | .record => (s, [.generated index generation])
    | .dispatch =>
      ({ s with board := s.board.issue generation.request }, [.requested index generation.request])

def callAll (s : Session) : List Listener → Session × List Event
  | [] => (s, [])
  | .observer handle :: rest =>
    let (after, events) := s.callAll rest
    (after, .called handle s.graph :: events)
  | .driver index :: rest =>
    let (s, events) := s.pass index
    let (s, others) := s.callAll rest
    (s, events ++ others)

def notify (s : Session) : Session × List Event :=
  if 0 < s.depth then (s, []) else s.callAll s.listeners

def changed (s : Session) (w : Workspace) : Session × List Event :=
  notify { s with workspace := w }

def aftermath (s : Session) (events : List Event) : Aftermath := ⟨s.graph.size, s.graph.roots, events⟩

def answer (s : Session) (events : List Event) (result : Except Failure Reply) : Session × Step :=
  (s, .single result (s.aftermath events))

def reply (s : Session) (r : Reply) : Session × Step := s.answer [] (.ok r)

def refuse (s : Session) (failure : Failure) : Session × Step := s.answer [] (.error failure)

-- Tells of each state that a change went through.
def changedTo (s : Session) : List Workspace → Session × List Event
  | [] => (s, [])
  | w :: rest =>
    let (s, events) := s.changed w
    let (s, others) := s.changedTo rest
    (s, events ++ others)

-- Makes a change. What it leaves is put in place also if it fails, and listeners hear
-- of whatever it told before it failed.
def make {ε α : Type} (s : Session) (change : Change ε Workbench α) :
    Session × List Event × Except ε α :=
  let (result, bench) := change.runOn ⟨s.workspace, []⟩
  let (s, events) := s.changedTo bench.shown
  ({ s with workspace := bench.workspace }, events, result)

def runEdit (s : Session) (e : Edit) : Session × Step :=
  let (s, events, result) := s.make (.perform e)
  s.answer events (result.map .edited |>.mapError .edit)

def loading (json : String) : Change Snapshot.LoadError Workbench Unit := do
  .takeOver (← Snapshot.load json)

def runLoad (s : Session) (json : String) : Session × Step :=
  let (s, events, result) := s.make (loading json)
  s.answer events (result.map (fun _ => .done) |>.mapError .load)

def roundTrip (g : Graph) : Except Snapshot.LoadError RoundTrip := do
  let form := Snapshot.capture g
  let w ← Snapshot.restore form
  return {
    equal := w.graph.equals g
    sameSource := Generation.compile w.graph {} == Generation.compile g {}
    inText := (Snapshot.load form.compact).map fun w => w.graph.equals g }

def runQuery (s : Session) : Query → Session × Step
  | .state => s.reply (.state s.graph)
  | .block id => s.reply (.block (s.graph.block? id))
  | .variableById id => s.reply (.variableById (s.graph.variableWith? id))
  | .variableByName name => s.reply (.variableByName (s.graph.variableNamed? name))
  | .procedure id => s.reply (.procedure (s.graph.procedureWith? id))
  | .validate =>
    match s.graph.validate with
    | .ok _ => s.reply .done
    | .error error => s.refuse (.edit error)
  | .isBatching => s.reply (.flag (decide (0 < s.depth)))
  | .describe => s.reply (.text (describe s.graph s.listeners.length))
  | .compile options => s.reply (.text (Generation.compile s.graph options))
  | .snapshot pretty =>
    let form := Snapshot.capture s.graph
    s.reply (.text (if pretty then form.pretty else form.compact))
  | .roundTrip =>
    match roundTrip s.graph with
    | .ok result => s.reply (.roundTrip result)
    | .error error => s.refuse (.load error)
  | .board => s.reply (.board s.board)

def runSubscribe (s : Session) : Session × Step :=
  reply { s with
    listeners := s.listeners ++ [.observer s.observers]
    observers := s.observers + 1 } (.handle s.observers)

def runUnsubscribe (s : Session) (handle : Nat) : Session × Step :=
  if handle < s.observers then
    reply { s with listeners := s.listeners.erase (.observer handle) }
      (.flag (s.listeners.contains (.observer handle)))
  else s.refuse (.complaint (.badField "handle"))

def runAttach (s : Session) (driver : Driver) : Session × Step :=
  reply { s with
    listeners := s.listeners ++ [.driver s.drivers.length]
    drivers := s.drivers ++ [driver] } (.handle s.drivers.length)

def withDriver (s : Session) (index : Nat) (detached : Reply)
    (run : Driver → Session × Step) : Session × Step :=
  match s.drivers[index]? with
  | none => s.refuse (.complaint (.badField "driver"))
  | some driver => if driver.attached then run driver else s.reply detached

def runDetach (s : Session) (index : Nat) (driver : Driver) : Session × Step :=
  reply { s with
    drivers := s.drivers.set index { driver with attached := false }
    listeners := s.listeners.erase (.driver index) }
    (.detached (some (s.listeners.contains (.driver index))))

def runIssue (s : Session) (request : Request) : Session × Step :=
  let board := s.board.issue request
  reply { s with board := board } (.issued request board)

def runCompletion (s : Session) (completion : Bool × Board) : Session × Step :=
  reply { s with board := completion.2 } (.completed completion.1 completion.2)

def closeBatch (s : Session) (before : Session) (committed : Bool) : Session × List Event :=
  let s := { s with depth := before.depth }
  if committed then
    if s.graph.equals before.graph then (s, []) else s.notify
  else ({ s with workspace := { s.workspace with graph := before.graph } }, [])

mutual

def run (s : Session) : Command → Session × Step
  | .edit e => s.runEdit e
  | .load json => s.runLoad json
  | .batch commands tolerate fail =>
    let (inner, steps, completed) := runAll { s with depth := s.depth + 1 } (!tolerate) commands
    let committed := completed && !fail
    let (s, events) := inner.closeBatch s committed
    (s, .batch committed steps (s.aftermath events))
  | .replace commands =>
    let (inner, steps, _) := runAll {} false commands
    let (s, events, _) := s.make (Change.takeOver inner.workspace : Change Failure Workbench Unit)
    (s, .replaced steps (s.aftermath events))
  | .query q => s.runQuery q
  | .subscribe => s.runSubscribe
  | .unsubscribe handle => s.runUnsubscribe handle
  | .attachDriver options sink => s.runAttach ⟨options, sink, 0, true⟩
  | .regenerate index =>
    s.withDriver index .done fun _ =>
      let (s, events) := s.pass index
      s.answer events (.ok .done)
  | .driverSequence index =>
    s.withDriver index (.sequence none) fun driver => s.reply (.sequence (some driver.sequence))
  | .detachDriver index => s.withDriver index (.detached none) (s.runDetach index)
  | .issue endpoint code sequence => s.runIssue ⟨sequence, endpoint, code⟩
  | .issueRun code => s.runIssue (s.board.runRequest code)
  | .completeAnalysis sequence outcome => s.runCompletion (s.board.completeAnalysis sequence outcome)
  | .completeRun sequence outcome => s.runCompletion (s.board.completeRun sequence outcome)
  | .unreadable complaint => s.refuse (.complaint complaint)

-- Runs commands in order, to the first failure if that is asked for. The flag says
-- whether the end was reached.
def runAll (s : Session) (stopAtFailure : Bool) : List Command → Session × List Step × Bool
  | [] => (s, [], true)
  | command :: rest =>
    let (s, step) := s.run command
    if stopAtFailure && !step.succeeded then (s, [step], false)
    else
      let (s, steps, completed) := s.runAll stopAtFailure rest
      (s, step :: steps, completed)

end

def steps (commands : List Command) : List Step := (runAll {} false commands).2.1

end Session
end Blockwork.Editing
