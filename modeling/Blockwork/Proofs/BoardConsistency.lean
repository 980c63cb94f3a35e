import Mathlib
import Blockwork.Proofs.LatestAnswers

-- What a board shows fits together at any time, whatever numbers the requests have and whatever
-- comes back. The half for analyses lives by itself, its status tells what is stored, and the
-- headline follows from the two.
namespace Blockwork.Collaboration

theorem ServiceError.status_eq (error : ServiceError) : error.status = .offline ∨ error.status = .codeError := by
  cases error with
  | unreachable reason => exact .inl rfl
  | failed reason => exact .inr rfl
  | malformed => exact .inr rfl

namespace Board

def status (board : Board) : Endpoint → Status
  | .analyze => board.analysisStatus
  | .run => board.runStatus

section

variable {board other : Board} {event : BoardEvent}

-- An event of one endpoint leaves the latest request of the other one.
theorem latest_elsewhere {endpoint : Endpoint} (elsewhere : event.endpoint ≠ endpoint) :
    (board.advance event).2.latest endpoint = board.latest endpoint := by
  rcases board.requested_or_answered event with ⟨request, asked⟩ | ⟨sequence, answer⟩
  · obtain ⟨made, target, _⟩ := advance_requested asked
    rw [made, issue_latest, if_neg (target ▸ elsewhere)]
  · by_cases current : board.latest event.endpoint = some sequence
    · obtain ⟨next, made, spares⟩ := advance_accepted answer current
      rw [made, spares.latest]
    · rw [advance_rejected answer current]

-- Two boards with the same half for analyses.
structure Abreast (board other : Board) : Prop where
  latest : board.latestAnalysis = other.latestAnalysis
  status : board.analysisStatus = other.analysisStatus
  analysis : board.analysis = other.analysis

theorem Abreast.total (abreast : Abreast board other) : board.total = other.total := by
  unfold Board.total
  rw [abreast.status, abreast.analysis]

theorem Abreast.passed (abreast : Abreast board other) (elsewhere : event.endpoint ≠ .analyze) :
    Abreast (board.advance event).2 other := by
  have latest : (board.advance event).2.latest .analyze = _ := latest_elsewhere elsewhere
  have shown : (board.advance event).2.shown .analyze = _ := shown_elsewhere elsewhere
  exact ⟨latest.trans abreast.latest, (congrArg (·.1) shown).trans abreast.status,
    (congrArg (·.2.1) shown).trans abreast.analysis⟩

theorem Abreast.met (abreast : Abreast board other) (here : event.endpoint = .analyze) :
    Abreast (board.advance event).2 (other.advance event).2 := by
  cases event with
  | issue request =>
    obtain ⟨sequence, target, code⟩ := request
    cases target with
    | analyze => exact ⟨rfl, rfl, abreast.analysis⟩
    | run => cases here
  | issueRun code => cases here
  | execution sequence outcome => cases here
  | analysis sequence outcome =>
    unfold advance completeAnalysis
    dsimp only
    rw [abreast.latest]
    split
    · exact abreast
    · cases outcome with
      | ok analysis =>
        dsimp only
        split
        · exact ⟨rfl, rfl, rfl⟩
        · exact ⟨rfl, rfl, abreast.analysis⟩
      | error error =>
        dsimp only
        rw [abreast.analysis]
        exact ⟨rfl, rfl, rfl⟩

theorem Abreast.after (abreast : Abreast board other) (events : List BoardEvent) :
    Abreast (board.after events) (other.after (events.filter (·.endpoint = .analyze))) := by
  induction events generalizing board other with
  | nil => exact abreast
  | cons event rest ih =>
    by_cases here : event.endpoint = .analyze
    · rw [List.filter_cons_of_pos (by simpa using here)]
      exact ih (abreast.met here)
    · rw [List.filter_cons_of_neg (by simpa using here)]
      exact ih (abreast.passed here)

-- What an answer that counts leaves on display: a good analysis, nothing, or what was there.
inductive Display (before : Option Analysis) : Status → Option Analysis → Prop where
  | good {analysis : Analysis} (success : analysis.isSuccess = true) : Display before .ready (some analysis)
  | gone : Display before .offline none
  | kept : Display before .codeError before

theorem completeAnalysis_display {sequence : Nat} (current : board.latestAnalysis = some sequence)
    (outcome : Except ServiceError Analysis) : ∃ status analysis, Display board.analysis status analysis ∧
      (board.completeAnalysis sequence outcome).2
        = { board with analysisStatus := status, analysis := analysis } := by
  unfold completeAnalysis
  rw [if_neg (not_not_intro current)]
  cases outcome with
  | ok analysis =>
    dsimp only
    split
    · next success => exact ⟨_, _, .good success, rfl⟩
    · exact ⟨_, _, .kept, rfl⟩
  | error error =>
    dsimp only
    rcases error.status_eq with gone | failed
    · rw [gone]
      exact ⟨_, _, .gone, rfl⟩
    · rw [failed]
      exact ⟨_, _, .kept, rfl⟩

theorem completeRun_active {sequence : Nat} (current : board.latestRun = some sequence)
    (outcome : Except ServiceError Execution) : ∃ status output, status ≠ .idle ∧
      (board.completeRun sequence outcome).2 = { board with runStatus := status, output := output } := by
  unfold completeRun
  rw [if_neg (not_not_intro current)]
  cases outcome with
  | ok execution =>
    refine ⟨_, _, ?_, rfl⟩
    split
    · decide
    · decide
  | error error =>
    refine ⟨error.status, board.output, ?_, rfl⟩
    intro idle
    rcases error.status_eq with gone | failed
    · cases gone.symm.trans idle
    · cases failed.symm.trans idle

-- What the status of an endpoint says is so.
structure Truthful (board : Board) : Prop where
  success : ∀ analysis, board.analysis = some analysis → analysis.isSuccess = true
  ready : board.analysisStatus = .ready → board.analysis.isSome = true
  offline : board.analysisStatus = .offline → board.analysis = none
  idle : ∀ endpoint, board.status endpoint = .idle ↔ board.latest endpoint = none

theorem Truthful.start : Truthful {} where
  success analysis stored := by cases stored
  ready same := by cases same
  offline same := by cases same
  idle endpoint := by cases endpoint <;> exact ⟨fun _ => rfl, fun _ => rfl⟩

theorem Truthful.issue (truthful : Truthful board) (request : Request) : Truthful (board.issue request) := by
  obtain ⟨sequence, target, code⟩ := request
  cases target with
  | analyze =>
    refine ⟨truthful.success, fun same => (by cases same), fun same => (by cases same), fun endpoint => ?_⟩
    cases endpoint with
    | analyze => simp [Board.issue, Board.status, Board.latest]
    | run => exact truthful.idle .run
  | run =>
    refine ⟨truthful.success, truthful.ready, truthful.offline, fun endpoint => ?_⟩
    cases endpoint with
    | analyze => exact truthful.idle .analyze
    | run => simp [Board.issue, Board.status, Board.latest]

theorem Truthful.completeAnalysis (truthful : Truthful board) (sequence : Nat)
    (outcome : Except ServiceError Analysis) : Truthful (board.completeAnalysis sequence outcome).2 := by
  by_cases current : board.latestAnalysis = some sequence
  · obtain ⟨status, analysis, display, made⟩ := completeAnalysis_display current outcome
    have idle : status ≠ .idle → ∀ endpoint,
        ({ board with analysisStatus := status, analysis := analysis } : Board).status endpoint = .idle ↔
          board.latest endpoint = none := by
      intro active endpoint
      cases endpoint with
      | analyze => simp [Board.status, Board.latest, active, current]
      | run => exact truthful.idle .run
    rw [made]
    cases display with
    | good success =>
      refine ⟨fun stored same => ?_, fun _ => rfl, fun same => (by cases same), idle (by decide)⟩
      cases same
      exact success
    | gone =>
      exact ⟨fun stored same => (by cases same), fun same => (by cases same), fun _ => rfl, idle (by decide)⟩
    | kept =>
      exact ⟨truthful.success, fun same => (by cases same), fun same => (by cases same), idle (by decide)⟩
  · have dropped : board.advance (.analysis sequence outcome) = _ := advance_rejected rfl current
    exact (congrArg Prod.snd dropped).symm ▸ truthful

theorem Truthful.completeRun (truthful : Truthful board) (sequence : Nat)
    (outcome : Except ServiceError Execution) : Truthful (board.completeRun sequence outcome).2 := by
  by_cases current : board.latestRun = some sequence
  · obtain ⟨status, output, active, made⟩ := completeRun_active current outcome
    rw [made]
    refine ⟨truthful.success, truthful.ready, truthful.offline, fun endpoint => ?_⟩
    cases endpoint with
    | analyze => exact truthful.idle .analyze
    | run => simp [Board.status, Board.latest, active, current]
  · have dropped : board.advance (.execution sequence outcome) = _ := advance_rejected rfl current
    exact (congrArg Prod.snd dropped).symm ▸ truthful

theorem Truthful.advance (truthful : Truthful board) (event : BoardEvent) :
    Truthful (board.advance event).2 := by
  cases event with
  | issue request => exact truthful.issue request
  | issueRun code => exact truthful.issue (board.runRequest code)
  | analysis sequence outcome => exact truthful.completeAnalysis sequence outcome
  | execution sequence outcome => exact truthful.completeRun sequence outcome

theorem Truthful.after (truthful : Truthful board) (events : List BoardEvent) : Truthful (board.after events) := by
  induction events generalizing board with
  | nil => exact truthful
  | cons event rest ih => exact ih (truthful.advance event)

theorem Truthful.total (truthful : Truthful board) : board.total = match board.analysis with
    | none => board.analysisStatus.label
    | some analysis => analysis.total := by
  unfold Board.total
  split
  · next offline => rw [truthful.offline offline]
  · cases board.analysis with
    | none => rfl
    | some analysis => rfl

end

end Board

open Board

-- How the two halves of a board and the parts of each stand to each other after a run.
structure Consistent (events : List BoardEvent) (board : Board) : Prop where
  alone : let alone := Board.after {} (events.filter (·.endpoint = .analyze))
    board.shown .analyze = alone.shown .analyze ∧ board.total = alone.total
  afterAnalysis : ∀ sequence outcome, let next := (board.completeAnalysis sequence outcome).2
    next.shown .run = board.shown .run ∧ next.latest .run = board.latest .run
  afterRun : ∀ sequence outcome, let next := (board.completeRun sequence outcome).2
    next.shown .analyze = board.shown .analyze ∧ next.latest .analyze = board.latest .analyze ∧
      next.total = board.total
  success : ∀ analysis, board.analysis = some analysis → analysis.isSuccess = true
  ready : board.analysisStatus = .ready → ∃ analysis, board.analysis = some analysis
  offline : board.analysisStatus = .offline → board.analysis = none ∧ board.total = "Offline"
  idle : ∀ endpoint, board.status endpoint = .idle ↔
    ∀ request ∈ Board.issued {} events, request.endpoint ≠ endpoint
  unstored : board.analysis = none → board.total = board.analysisStatus.label
  stored : ∀ analysis, board.analysis = some analysis → board.total = analysis.total

theorem board_consistent (events : List BoardEvent) : Consistent events (Board.after {} events) := by
  have truthful : Truthful (Board.after {} events) := Truthful.start.after events
  have abreast : Abreast (Board.after {} events) _ := Abreast.after ⟨rfl, rfl, rfl⟩ events
  refine ⟨⟨?_, abreast.total⟩, fun sequence outcome => ?_, fun sequence outcome => ?_, truthful.success,
    fun same => Option.isSome_iff_exists.mp (truthful.ready same), fun same => ⟨truthful.offline same, ?_⟩,
    fun endpoint => ?_, fun none => ?_, fun analysis stored => ?_⟩
  · exact Prod.ext abreast.status (Prod.ext abreast.analysis rfl)
  · have elsewhere : (BoardEvent.analysis sequence outcome).endpoint ≠ .run := by simp [BoardEvent.endpoint]
    exact ⟨shown_elsewhere elsewhere, latest_elsewhere elsewhere⟩
  · have elsewhere : (BoardEvent.execution sequence outcome).endpoint ≠ .analyze := by simp [BoardEvent.endpoint]
    have passed : Abreast (_ : Board) (Board.after {} events) := Abreast.passed ⟨rfl, rfl, rfl⟩ elsewhere
    exact ⟨shown_elsewhere elsewhere, latest_elsewhere elsewhere, passed.total⟩
  · rw [truthful.total, truthful.offline same, same]
    rfl
  · rw [truthful.idle, (follows_issued events).latest, List.getLast?_eq_none_iff, sequencesTo, List.map_eq_nil_iff,
      List.filter_eq_nil_iff]
    simp
  · rw [truthful.total, none]
  · rw [truthful.total, stored]

-- A good analysis outlives an error and a late answer, and goes when the service is out of reach. The
-- runs in between take part in the numbering only.
def interleaved : List BoardEvent :=
  [.issue ⟨7, .analyze, "x = 1"⟩, .issueRun "x = 1", .execution 8 (.error (.unreachable "refused")),
    .analysis 7 (.ok ⟨"success", "O(1)", []⟩), .issue ⟨3, .analyze, "x ="⟩, .analysis 7 (.ok ⟨"success", "O(n)", []⟩),
    .analysis 3 (.ok ⟨"error", "Error", []⟩)]

theorem interleaved_consistent :
    Consistent interleaved (Board.after {} interleaved) ∧
      (Board.after {} interleaved).analysisStatus = .codeError ∧ (Board.after {} interleaved).runStatus = .offline ∧
      (Board.after {} interleaved).total = "O(1)" ∧
      Consistent (interleaved ++ [.analysis 3 (.error (.unreachable "gone"))])
        (Board.after {} (interleaved ++ [.analysis 3 (.error (.unreachable "gone"))])) ∧
      (Board.after {} (interleaved ++ [.analysis 3 (.error (.unreachable "gone"))])).total = "Offline" :=
  ⟨board_consistent _, by decide +kernel, by decide +kernel, by decide +kernel, board_consistent _, by decide +kernel⟩

end Blockwork.Collaboration
