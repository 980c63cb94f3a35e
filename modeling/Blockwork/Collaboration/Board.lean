import Blockwork.Collaboration.Message

-- The latest answers of the service. Only the answer to the latest request of an
-- endpoint counts; the two endpoints do not touch each other.
namespace Blockwork.Collaboration

inductive Status where
  | idle
  | pending
  | ready
  | offline
  | codeError
  deriving DecidableEq

def Status.label : Status → String
  | .idle => "Idle"
  | .pending => "Pending"
  | .ready => "Ready"
  | .offline => "Offline"
  | .codeError => "Code Error"

structure Board where
  nextSequence : Nat := 0
  latestAnalysis : Option Nat := none
  latestRun : Option Nat := none
  analysisStatus : Status := .idle
  runStatus : Status := .idle
  analysis : Option Analysis := none
  output : Option String := none
  deriving DecidableEq

def ServiceError.status : ServiceError → Status
  | .unreachable _ => .offline
  | .failed _ | .malformed => .codeError

namespace Board

def issue (board : Board) (request : Request) : Board :=
  let board := { board with nextSequence := max board.nextSequence request.sequence }
  match request.endpoint with
  | .analyze =>
    { board with latestAnalysis := some request.sequence, analysisStatus := .pending }
  | .run => { board with latestRun := some request.sequence, runStatus := .pending }

def runRequest (board : Board) (code : String) : Request := ⟨board.nextSequence + 1, .run, code⟩

-- Takes an analysis. A failed one leaves the last good one on display, unless the
-- service is out of reach. False means that the answer came too late and was dropped.
def completeAnalysis (board : Board) (sequence : Nat) (outcome : Except ServiceError Analysis) :
    Bool × Board :=
  if board.latestAnalysis ≠ some sequence then (false, board)
  else match outcome with
    | .ok analysis =>
      if analysis.isSuccess then
        (true, { board with analysisStatus := .ready, analysis := some analysis })
      else (true, { board with analysisStatus := .codeError })
    | .error error =>
      (true, { board with
        analysisStatus := error.status
        analysis := if error.status = .offline then none else board.analysis })

def completeRun (board : Board) (sequence : Nat) (outcome : Except ServiceError Execution) :
    Bool × Board :=
  if board.latestRun ≠ some sequence then (false, board)
  else match outcome with
    | .ok execution =>
      (true, { board with
        runStatus := if execution.isSuccess then .ready else .codeError
        output := some execution.output })
    | .error error => (true, { board with runStatus := error.status })

def total (board : Board) : String :=
  if board.analysisStatus = .offline then board.analysisStatus.label
  else match board.analysis with
    | some analysis => analysis.total
    | none => board.analysisStatus.label

end Board
end Blockwork.Collaboration
