import Mathlib
import Blockwork.Editing.Regeneration

-- A board over time. Requests go out to two endpoints and answers come back in
-- any order, late, more than once or never. Only the latest request of an
-- endpoint counts; an answer to another one leaves no trace.
namespace Blockwork.Collaboration

-- What happens to a board. An answer carries the number of a request, which may
-- be one that was never issued.
inductive BoardEvent where
  | issue (request : Request)
  | issueRun (code : String)
  | analysis (sequence : Nat) (outcome : Except ServiceError Analysis)
  | execution (sequence : Nat) (outcome : Except ServiceError Execution)

namespace BoardEvent

def endpoint : BoardEvent → Endpoint
  | .issue request => request.endpoint
  | .analysis _ _ => .analyze
  | .issueRun _ | .execution _ _ => .run

def answers? : BoardEvent → Option Nat
  | .analysis sequence _ | .execution sequence _ => some sequence
  | .issue _ | .issueRun _ => none

end BoardEvent

namespace Board

def requested? (board : Board) : BoardEvent → Option Request
  | .issue request => some request
  | .issueRun code => some (board.runRequest code)
  | .analysis _ _ | .execution _ _ => none

-- The number of the request that an event is about.
def sequenceOf (board : Board) : BoardEvent → Nat
  | .issue request => request.sequence
  | .issueRun code => (board.runRequest code).sequence
  | .analysis sequence _ | .execution sequence _ => sequence

-- The flag tells whether an answer was accepted. Requests always are.
def advance (board : Board) : BoardEvent → Bool × Board
  | .issue request => (true, board.issue request)
  | .issueRun code => (true, board.issue (board.runRequest code))
  | .analysis sequence outcome => board.completeAnalysis sequence outcome
  | .execution sequence outcome => board.completeRun sequence outcome

def after (board : Board) (events : List BoardEvent) : Board :=
  events.foldl (fun board event => (board.advance event).2) board

-- The requests of a run, in order.
def issued (board : Board) : List BoardEvent → List Request
  | [] => []
  | event :: rest => (board.requested? event).toList ++ (board.advance event).2.issued rest

def latest (board : Board) : Endpoint → Option Nat
  | .analyze => board.latestAnalysis
  | .run => board.latestRun

-- Status and result of an endpoint.
def shown (board : Board) : Endpoint → Status × Option Analysis × Option String
  | .analyze => (board.analysisStatus, board.analysis, none)
  | .run => (board.runStatus, none, board.output)

end Board

def sequencesTo (endpoint : Endpoint) (requests : List Request) : List Nat :=
  (requests.filter (·.endpoint = endpoint)).map (·.sequence)

-- The numbers issued to an endpoint grow from request to request.
def Increasing (events : List BoardEvent) : Prop :=
  ∀ endpoint, (sequencesTo endpoint (Board.issued {} events)).Pairwise (· < ·)

theorem sequencesTo_append (endpoint : Endpoint) (first second : List Request) :
    sequencesTo endpoint (first ++ second) = sequencesTo endpoint first ++ sequencesTo endpoint second := by
  simp [sequencesTo]

theorem mem_sequencesTo {endpoint : Endpoint} {requests : List Request} {sequence : Nat} :
    sequence ∈ sequencesTo endpoint requests ↔
      ∃ request ∈ requests, request.endpoint = endpoint ∧ request.sequence = sequence := by
  simp [sequencesTo, and_assoc]

namespace Board

variable {board next : Board} {event : BoardEvent} {request : Request} {sequence : Nat}

theorem after_append (board : Board) (first second : List BoardEvent) :
    board.after (first ++ second) = (board.after first).after second := List.foldl_append

theorem issued_append (board : Board) (first second : List BoardEvent) :
    board.issued (first ++ second) = board.issued first ++ (board.after first).issued second := by
  induction first generalizing board with
  | nil => rfl
  | cons event rest ih =>
    have later := ih (board.advance event).2
    simp only [List.cons_append, issued, later, List.append_assoc]
    rfl

-- What an event can do: send a request, or bring an answer that is accepted or
-- dropped. An accepted answer touches only what is shown of its own endpoint.
structure Spares (endpoint : Endpoint) (board next : Board) : Prop where
  counter : next.nextSequence = board.nextSequence
  latest : next.latest = board.latest
  elsewhere : ∀ other, other ≠ endpoint → next.shown other = board.shown other

theorem requested_or_answered (board : Board) (event : BoardEvent) :
    (∃ request, board.requested? event = some request) ∨ ∃ sequence, event.answers? = some sequence := by
  cases event with
  | issue request => exact .inl ⟨request, rfl⟩
  | issueRun code => exact .inl ⟨board.runRequest code, rfl⟩
  | analysis sequence outcome => exact .inr ⟨sequence, rfl⟩
  | execution sequence outcome => exact .inr ⟨sequence, rfl⟩

theorem advance_requested (asked : board.requested? event = some request) :
    board.advance event = (true, board.issue request) ∧ request.endpoint = event.endpoint ∧
      request.sequence = board.sequenceOf event := by
  cases event with
  | issue sent =>
    cases asked
    exact ⟨rfl, rfl, rfl⟩
  | issueRun code =>
    cases asked
    exact ⟨rfl, rfl, rfl⟩
  | analysis sequence outcome => cases asked
  | execution sequence outcome => cases asked

theorem not_requested (answer : event.answers? = some sequence) : board.requested? event = none := by
  cases event with
  | issue request => cases answer
  | issueRun code => cases answer
  | analysis number outcome => rfl
  | execution number outcome => rfl

theorem spares_analysis (board : Board) (status : Status) (analysis : Option Analysis) :
    Spares .analyze board { board with analysisStatus := status, analysis := analysis } := by
  refine ⟨rfl, funext fun endpoint => by cases endpoint <;> rfl, fun other different => ?_⟩
  cases other with
  | analyze => exact absurd rfl different
  | run => rfl

theorem spares_run (board : Board) (status : Status) (output : Option String) :
    Spares .run board { board with runStatus := status, output := output } := by
  refine ⟨rfl, funext fun endpoint => by cases endpoint <;> rfl, fun other different => ?_⟩
  cases other with
  | analyze => rfl
  | run => exact absurd rfl different

theorem completeAnalysis_accepted (current : board.latestAnalysis = some sequence)
    (outcome : Except ServiceError Analysis) :
    ∃ next, board.completeAnalysis sequence outcome = (true, next) ∧ Spares .analyze board next := by
  unfold completeAnalysis
  rw [if_neg (not_not_intro current)]
  cases outcome with
  | error error => exact ⟨_, rfl, spares_analysis board _ _⟩
  | ok analysis =>
    dsimp only
    split
    · exact ⟨_, rfl, spares_analysis board _ _⟩
    · exact ⟨_, rfl, spares_analysis board .codeError board.analysis⟩

theorem completeRun_accepted (current : board.latestRun = some sequence)
    (outcome : Except ServiceError Execution) :
    ∃ next, board.completeRun sequence outcome = (true, next) ∧ Spares .run board next := by
  unfold completeRun
  rw [if_neg (not_not_intro current)]
  cases outcome with
  | error error => exact ⟨_, rfl, spares_run board error.status board.output⟩
  | ok execution => exact ⟨_, rfl, spares_run board _ _⟩

theorem advance_accepted (answer : event.answers? = some sequence)
    (current : board.latest event.endpoint = some sequence) :
    ∃ next, board.advance event = (true, next) ∧ Spares event.endpoint board next := by
  cases event with
  | issue request => cases answer
  | issueRun code => cases answer
  | analysis number outcome =>
    cases answer
    exact completeAnalysis_accepted current outcome
  | execution number outcome =>
    cases answer
    exact completeRun_accepted current outcome

theorem advance_rejected (answer : event.answers? = some sequence)
    (other : board.latest event.endpoint ≠ some sequence) : board.advance event = (false, board) := by
  cases event with
  | issue request => cases answer
  | issueRun code => cases answer
  | analysis number outcome =>
    cases answer
    have other : board.latestAnalysis ≠ some sequence := other
    simp [advance, completeAnalysis, other]
  | execution number outcome =>
    cases answer
    have other : board.latestRun ≠ some sequence := other
    simp [advance, completeRun, other]

theorem accepted_iff (answer : event.answers? = some sequence) :
    (board.advance event).1 = true ↔ board.latest event.endpoint = some sequence := by
  constructor
  · intro accepted
    by_contra other
    rw [advance_rejected answer other] at accepted
    cases accepted
  · intro current
    obtain ⟨next, made, _⟩ := advance_accepted answer current
    rw [made]

-- What is issued to an endpoint is its latest request and sets its status.
theorem issue_latest (board : Board) (request : Request) (endpoint : Endpoint) :
    (board.issue request).latest endpoint
      = if request.endpoint = endpoint then some request.sequence else board.latest endpoint := by
  obtain ⟨sequence, target, code⟩ := request
  cases target <;> cases endpoint <;> rfl

theorem issue_elsewhere {endpoint : Endpoint} (other : request.endpoint ≠ endpoint) :
    (board.issue request).shown endpoint = board.shown endpoint := by
  obtain ⟨sequence, target, code⟩ := request
  cases target <;> cases endpoint <;> first | rfl | exact absurd rfl other

theorem shown_elsewhere {endpoint : Endpoint} (other : event.endpoint ≠ endpoint) :
    (board.advance event).2.shown endpoint = board.shown endpoint := by
  rcases board.requested_or_answered event with ⟨request, asked⟩ | ⟨sequence, answer⟩
  · obtain ⟨made, target, _⟩ := advance_requested asked
    rw [made]
    exact issue_elsewhere (target ▸ other)
  · by_cases current : board.latest event.endpoint = some sequence
    · obtain ⟨next, made, spares⟩ := advance_accepted answer current
      rw [made]
      exact spares.elsewhere endpoint other.symm
    · rw [advance_rejected answer current]

theorem sequenceOf_answer (board : Board) (answer : event.answers? = some sequence) :
    board.sequenceOf event = sequence := by
  cases event with
  | issue request => cases answer
  | issueRun code => cases answer
  | analysis number outcome => exact Option.some.inj answer
  | execution number outcome => exact Option.some.inj answer

theorem issue_counter (board : Board) (request : Request) :
    (board.issue request).nextSequence = max board.nextSequence request.sequence := by
  obtain ⟨sequence, target, code⟩ := request
  cases target <;> rfl

-- What a board knows of the requests before it: the latest one of each endpoint,
-- and the greatest number of all.
structure Follows (board : Board) (past : List Request) : Prop where
  latest : ∀ endpoint, board.latest endpoint = (sequencesTo endpoint past).getLast?
  greatest : ∀ limit, board.nextSequence ≤ limit ↔ ∀ request ∈ past, request.sequence ≤ limit

theorem follows_start : Follows {} [] :=
  ⟨fun endpoint => by cases endpoint <;> rfl, fun limit => by simp⟩

theorem Follows.issue {past : List Request} (follows : Follows board past) (request : Request) :
    Follows (board.issue request) (past ++ [request]) := by
  refine ⟨fun endpoint => ?_, fun limit => ?_⟩
  · rw [issue_latest, sequencesTo_append]
    by_cases here : request.endpoint = endpoint
    · simp [sequencesTo, here]
    · simp [here, follows.latest endpoint, sequencesTo]
  · rw [issue_counter, Nat.max_le, follows.greatest limit]
    simp [or_imp, forall_and]

theorem Follows.advance {past : List Request} (follows : Follows board past) (event : BoardEvent) :
    Follows (board.advance event).2 (past ++ (board.requested? event).toList) := by
  rcases board.requested_or_answered event with ⟨request, asked⟩ | ⟨sequence, answer⟩
  · rw [(advance_requested asked).1, asked]
    exact follows.issue request
  · rw [not_requested answer, Option.toList_none, List.append_nil]
    by_cases current : board.latest event.endpoint = some sequence
    · obtain ⟨next, made, spares⟩ := advance_accepted answer current
      rw [made]
      refine ⟨fun endpoint => ?_, fun limit => ?_⟩
      · rw [spares.latest]
        exact follows.latest endpoint
      · rw [spares.counter]
        exact follows.greatest limit
    · rw [advance_rejected answer current]
      exact follows

theorem Follows.run {past : List Request} (follows : Follows board past) (events : List BoardEvent) :
    Follows (board.after events) (past ++ board.issued events) := by
  induction events generalizing board past with
  | nil =>
    rw [issued, List.append_nil]
    exact follows
  | cons event rest ih =>
    have later := ih (follows.advance event)
    rw [List.append_assoc] at later
    exact later

theorem follows_issued (events : List BoardEvent) :
    Follows (Board.after {} events) (Board.issued {} events) := follows_start.run events

theorem issueRun_greater (events : List BoardEvent) (code : String) :
    ∀ request ∈ Board.issued {} events,
      request.sequence < ((Board.after {} events).runRequest code).sequence := by
  intro request sent
  have bound := ((follows_issued events).greatest _).mp (Nat.le_refl _) request sent
  exact Nat.lt_succ_of_le bound

end Board

open Board

section

variable {events past more : List BoardEvent} {event : BoardEvent} {sequence : Nat}

theorem getLast?_append_le {first second : List Nat} {n : Nat} (sorted : (first ++ second).Pairwise (· < ·))
    (last : first.getLast? = some n) : ∃ m, (first ++ second).getLast? = some m ∧ n ≤ m := by
  cases ending : second.getLast? with
  | none =>
    obtain rfl := List.getLast?_eq_none_iff.mp ending
    exact ⟨n, by simpa using last, Nat.le_refl n⟩
  | some m =>
    refine ⟨m, by simp [ending], ?_⟩
    have before := (List.pairwise_append.mp sorted).2.2
    exact Nat.le_of_lt (before n (List.mem_of_getLast? last) m (List.mem_of_getLast? ending))

theorem Increasing.part (increasing : Increasing (past ++ more)) : Increasing past := by
  intro endpoint
  have whole := increasing endpoint
  rw [issued_append, sequencesTo_append] at whole
  exact (List.pairwise_append.mp whole).1

-- After an answer was accepted, the latest request is that one or a later one.
theorem latest_after (increasing : Increasing (past ++ more)) {endpoint : Endpoint}
    (current : (Board.after {} past).latest endpoint = some sequence) :
    ∃ newest, (Board.after {} (past ++ more)).latest endpoint = some newest ∧ sequence ≤ newest := by
  have sorted := increasing endpoint
  rw [(follows_issued past).latest endpoint] at current
  rw [(follows_issued (past ++ more)).latest endpoint]
  rw [issued_append, sequencesTo_append] at sorted ⊢
  exact getLast?_append_le sorted current

-- A request is numbered after all that went to its endpoint before.
theorem request_after (increasing : Increasing (past ++ [event])) {request : Request} {newest : Nat}
    (asked : (Board.after {} past).requested? event = some request)
    (last : (Board.after {} past).latest event.endpoint = some newest) : newest < request.sequence := by
  have sorted := increasing event.endpoint
  have sent : (Board.after {} past).issued [event] = [request] := by
    rw [issued, asked]
    rfl
  rw [issued_append, sequencesTo_append, sent] at sorted
  apply (List.pairwise_append.mp sorted).2.2
  · apply List.mem_of_getLast?
    rw [← (follows_issued past).latest event.endpoint]
    exact last
  · have target := (advance_requested asked).2.1
    exact mem_sequencesTo.mpr ⟨request, List.mem_singleton_self _, target, rfl⟩

-- Whatever changes the endpoint from then on belongs to no older request.
theorem change_after (increasing : Increasing (past ++ more ++ [event])) {endpoint : Endpoint}
    (current : (Board.after {} past).latest endpoint = some sequence) :
    let board := Board.after {} (past ++ more)
    (board.advance event).2.shown endpoint = board.shown endpoint ∨
      (event.endpoint = endpoint ∧ sequence ≤ board.sequenceOf event) := by
  intro board
  obtain ⟨newest, last, above⟩ := latest_after increasing.part current
  by_cases here : event.endpoint = endpoint
  · subst here
    rcases board.requested_or_answered event with ⟨request, asked⟩ | ⟨number, answer⟩
    · have later := request_after increasing asked last
      have numbered := (advance_requested asked).2.2
      exact .inr ⟨rfl, by omega⟩
    · by_cases accepted : board.latest event.endpoint = some number
      · have same : newest = number := Option.some.inj (last.symm.trans accepted)
        have numbered := board.sequenceOf_answer answer
        exact .inr ⟨rfl, by omega⟩
      · rw [advance_rejected answer accepted]
        exact .inl rfl
  · exact .inl (shown_elsewhere here)

-- An older answer is dropped, so it might as well never have come.
def outdated (endpoint : Endpoint) (sequence : Nat) (event : BoardEvent) : Bool :=
  decide (event.endpoint = endpoint) && event.answers?.any (· < sequence)

theorem outdated_iff {endpoint : Endpoint} : outdated endpoint sequence event = true ↔
    event.endpoint = endpoint ∧ ∃ number, event.answers? = some number ∧ number < sequence := by
  simp [outdated, Option.any_eq_true]

theorem after_without_outdated {endpoint : Endpoint} (increasing : Increasing (past ++ more))
    (current : (Board.after {} past).latest endpoint = some sequence) :
    (Board.after {} past).after more
      = (Board.after {} past).after (more.filter fun event => !outdated endpoint sequence event) := by
  induction more using List.reverseRecOn with
  | nil => rfl
  | append_singleton more event ih =>
    rw [← List.append_assoc] at increasing
    rw [List.filter_append, after_append, after_append, ← ih increasing.part]
    cases old : outdated endpoint sequence event with
    | false => simp [old]
    | true =>
      obtain ⟨here, number, answer, below⟩ := outdated_iff.mp old
      obtain ⟨newest, last, above⟩ := latest_after increasing.part current
      have dropped : ((Board.after {} past).after more).advance event
          = (false, (Board.after {} past).after more) := by
        apply advance_rejected answer
        rw [here, ← after_append, last, ne_eq, Option.some.injEq]
        omega
      simp only [old, Bool.not_true, Bool.false_eq_true, not_false_eq_true, List.filter_cons_of_neg, List.filter_nil]
      exact congrArg Prod.snd dropped

-- How a board behaves in a run, said at every point of it.
structure Orderly (events : List BoardEvent) : Prop where
  accepts : ∀ past event rest sequence, events = past ++ event :: rest → event.answers? = some sequence →
    (((Board.after {} past).advance event).1 = true ↔
      (sequencesTo event.endpoint (Board.issued {} past)).getLast? = some sequence)
  rejects : ∀ past event rest, events = past ++ event :: rest →
    ((Board.after {} past).advance event).1 = false →
    ((Board.after {} past).advance event).2 = Board.after {} past
  numbers : ∀ past code rest, events = past ++ .issueRun code :: rest →
    ∀ request ∈ Board.issued {} past,
      request.sequence < ((Board.after {} past).runRequest code).sequence
  -- Sixty-four bits hold the next number as long as they hold one more than all before.
  fits : ∀ past code rest, events = past ++ .issueRun code :: rest →
    (∀ request ∈ Board.issued {} past, request.sequence < UInt64.size - 1) →
    ((Board.after {} past).runRequest code).sequence < UInt64.size
  advances : ∀ past event between later rest sequence,
    events = past ++ event :: between ++ later :: rest → event.answers? = some sequence →
    ((Board.after {} past).advance event).1 = true →
    let board := Board.after {} (past ++ event :: between)
    (board.advance later).2.shown event.endpoint = board.shown event.endpoint ∨
      (later.endpoint = event.endpoint ∧ sequence ≤ board.sequenceOf later)
  forgets : ∀ past event between rest sequence, events = past ++ event :: between ++ rest →
    event.answers? = some sequence → ((Board.after {} past).advance event).1 = true →
    let board := Board.after {} (past ++ [event])
    board.after between = board.after (between.filter fun later => !outdated event.endpoint sequence later)

theorem only_latest_request_counts (increasing : Increasing events) : Orderly events where
  accepts past event rest sequence split answer := by
    rw [← (follows_issued past).latest event.endpoint]
    exact accepted_iff answer
  rejects past event rest split rejected := by
    rcases (Board.after {} past).requested_or_answered event with ⟨request, asked⟩ | ⟨sequence, answer⟩
    · rw [(advance_requested asked).1] at rejected
      cases rejected
    · have other : (Board.after {} past).latest event.endpoint ≠ some sequence := by
        intro current
        rw [(accepted_iff answer).mpr current] at rejected
        cases rejected
      rw [advance_rejected answer other]
  numbers past code rest split := issueRun_greater past code
  fits past code rest split small := by
    have bound := ((follows_issued past).greatest (UInt64.size - 2)).mpr fun request sent => by
      have step := small request sent
      omega
    have number : ((Board.after {} past).runRequest code).sequence
        = (Board.after {} past).nextSequence + 1 := rfl
    have wide : UInt64.size - 2 + 2 = UInt64.size := by decide
    omega
  advances past event between later rest sequence split answer accepted := by
    have current := (accepted_iff answer).mp accepted
    subst split
    have whole : past ++ event :: between ++ later :: rest
        = past ++ (event :: between) ++ [later] ++ rest := by simp
    rw [whole] at increasing
    exact change_after increasing.part current
  forgets past event between rest sequence split answer accepted := by
    have current := (accepted_iff answer).mp accepted
    subst split
    have kept : outdated event.endpoint sequence event = false := by
      rw [Bool.eq_false_iff, ne_eq, outdated_iff]
      rintro ⟨_, number, same, below⟩
      cases answer.symm.trans same
      omega
    have equal := after_without_outdated increasing.part current
    rw [List.filter_cons_of_pos (by simp [kept])] at equal
    rw [after_append]
    exact equal

-- Where the numbers come from: one driver asks for all analyses, and the board
-- numbers the runs.
def dispatched (driver : Editing.Driver) : List Graph → List Request
  | [] => []
  | g :: rest => (driver.pass g).2.request :: dispatched (driver.pass g).1 rest

structure Driven (driver : Editing.Driver) (graphs : List Graph) (events : List BoardEvent) : Prop where
  analyses : (Board.issued {} events).filter (·.endpoint = .analyze) = dispatched driver graphs
  runs : ∀ request, BoardEvent.issue request ∈ events → request.endpoint = .analyze

theorem dispatched_sequences (driver : Editing.Driver) (graphs : List Graph) :
    (dispatched driver graphs).map (·.sequence) = List.range' (driver.sequence + 1) graphs.length := by
  induction graphs generalizing driver with
  | nil => rfl
  | cons g rest ih =>
    have later := ih (driver.pass g).1
    rw [List.length_cons, List.range'_succ]
    exact congrArg ((driver.sequence + 1) :: ·) later

theorem runs_increasing (runs : ∀ request, BoardEvent.issue request ∈ events → request.endpoint = .analyze) :
    (sequencesTo .run (Board.issued {} events)).Pairwise (· < ·) := by
  induction events using List.reverseRecOn with
  | nil => exact .nil
  | append_singleton past event ih =>
    have earlier := ih fun request sent => runs request (List.mem_append_left _ sent)
    rw [issued_append, sequencesTo_append]
    cases event with
    | issueRun code =>
      refine List.pairwise_append.mpr ⟨earlier, List.pairwise_singleton _ _, fun old before new last => ?_⟩
      obtain ⟨request, sent, _, rfl⟩ := mem_sequencesTo.mp before
      have number : new = ((Board.after {} past).runRequest code).sequence := List.mem_singleton.mp last
      rw [number]
      exact issueRun_greater past code request sent
    | issue request =>
      have analysis := runs request (List.mem_append_right _ (List.mem_singleton_self _))
      have none : sequencesTo .run ((Board.after {} past).issued [.issue request]) = [] := by
        simp [issued, requested?, sequencesTo, analysis]
      rw [none, List.append_nil]
      exact earlier
    | analysis sequence outcome | execution sequence outcome =>
      refine Eq.subst ?_ earlier
      exact (List.append_nil _).symm

theorem Driven.increasing {driver : Editing.Driver} {graphs : List Graph}
    (driven : Driven driver graphs events) : Increasing events := by
  intro endpoint
  cases endpoint with
  | run => exact runs_increasing driven.runs
  | analyze =>
    rw [sequencesTo, driven.analyses, dispatched_sequences]
    exact List.pairwise_lt_range'

end

-- The analysis of the first program comes after that of the second, the run is answered twice.
def answersOutOfOrder : List BoardEvent :=
  let driver : Editing.Driver := ⟨{}, .dispatch, 0, true⟩
  let requests := dispatched driver [.empty, .empty]
  requests.map .issue
    ++ [.issueRun "print(1)", .analysis 2 (.ok ⟨"success", "O(n)", []⟩),
      .analysis 1 (.error (.unreachable "refused")), .execution 3 (.ok ⟨"success", "1"⟩),
      .execution 3 (.ok ⟨"error", "again"⟩), .issueRun "print(2)", .execution 3 (.ok ⟨"success", "late"⟩)]

theorem late_answers_dropped :
    Driven ⟨{}, .dispatch, 0, true⟩ [.empty, .empty] answersOutOfOrder ∧
      Increasing answersOutOfOrder ∧ Orderly answersOutOfOrder ∧
      (Board.after {} answersOutOfOrder).total = "O(n)" ∧
      (Board.after {} answersOutOfOrder).runStatus = .pending ∧
      (Board.after {} answersOutOfOrder).output = some "again" := by
  have driven : Driven ⟨{}, .dispatch, 0, true⟩ [.empty, .empty] answersOutOfOrder := by
    refine ⟨by decide +kernel, ?_⟩
    intro request sent
    simp [answersOutOfOrder, dispatched] at sent
    rcases sent with rfl | rfl <;> rfl
  exact ⟨driven, driven.increasing, only_latest_request_counts driven.increasing, by decide +kernel,
    by decide +kernel, by decide +kernel⟩

end Blockwork.Collaboration
