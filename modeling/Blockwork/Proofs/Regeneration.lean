import Mathlib
import Blockwork.Proofs.Refusals
import Blockwork.Proofs.SnapshotEquality

-- A driver never lags behind its graph. It is told of every change but those
-- inside a batch, and of a batch as a whole unless the graph is equal to what it
-- was before; so outside of batches its latest generation is that of the graph.
namespace Blockwork.Editing

mutual

-- What the listeners of a session saw during a step. A graph that takes the place of the
-- session's own has been worked on elsewhere.
def Step.heard : Step → List Event
  | .single _ after => after.events
  | .batch _ steps after => heardAll steps ++ after.events
  | .replaced _ after => after.events

def heardAll : List Step → List Event
  | [] => []
  | step :: rest => step.heard ++ heardAll rest

end

-- The driver that an event comes from.
def Event.driver? : Event → Option Nat
  | .called .. => none
  | .generated index _ | .requested index _ => some index

def eventsOf (index : Nat) (events : List Event) : List Event :=
  events.filter fun event => event.driver? == some index

-- What a sink makes of a generation.
def Sink.event (sink : Sink) (index : Nat) (generation : Generation) : Event :=
  match sink with
  | .record => .generated index generation
  | .dispatch => .requested index generation.request

mutual

-- The command does not detach the driver, nor ask it for a pass while a batch is open.
def Command.spares (index : Nat) (batching : Bool) : Command → Bool
  | .detachDriver other => other != index
  | .regenerate other => !batching || other != index
  | .batch commands _ _ => allSpare index commands
  | _ => true

-- The same of all commands in a batch.
def allSpare (index : Nat) : List Command → Bool
  | [] => true
  | command :: rest => command.spares index true && allSpare index rest

end

theorem allSpare_iff {index : Nat} {commands : List Command} :
    allSpare index commands = true ↔ ∀ c ∈ commands, c.spares index true = true := by
  induction commands with
  | nil => simp [allSpare]
  | cons c rest ih => simp [allSpare, ih]

namespace Session

-- The session has the driver under this index and calls it once for a change.
structure Tracks (s : Session) (index : Nat) (driver : Driver) : Prop where
  held : s.drivers[index]? = some driver
  once : s.listeners.count (.driver index) = 1

variable {s : Session} {index other : Nat} {driver : Driver}

theorem pass_self (held : s.drivers[index]? = some driver) :
    (s.pass index).1.drivers[index]? = some (driver.pass s.graph).1 ∧
      (s.pass index).2 = [driver.sink.event index (driver.pass s.graph).2] := by
  obtain ⟨inside, _⟩ := List.getElem?_eq_some_iff.mp held
  unfold pass
  rw [held]
  cases sink : driver.sink <;> simp [Driver.pass, sink, Sink.event, inside]

theorem pass_other (different : other ≠ index) :
    (s.pass other).1.drivers[index]? = s.drivers[index]? ∧ eventsOf index (s.pass other).2 = [] := by
  unfold pass
  split
  · exact ⟨rfl, rfl⟩
  · next driver found =>
    cases sink : driver.sink <;>
      simp [Driver.pass, sink, eventsOf, Event.driver?, different]

theorem pass_listeners (s : Session) (index : Nat) : (s.pass index).1.listeners = s.listeners := by
  unfold pass
  split
  · rfl
  · simp only
    split <;> rfl

theorem callAll_listeners (listeners : List Listener) (s : Session) :
    (s.callAll listeners).1.listeners = s.listeners := by
  induction listeners generalizing s with
  | nil => rfl
  | cons head rest ih =>
    cases head with
    | observer handle => exact ih s
    | driver index => exact (ih _).trans (pass_listeners s index)

theorem eventsOf_append (index : Nat) (first second : List Event) :
    eventsOf index (first ++ second) = eventsOf index first ++ eventsOf index second :=
  List.filter_append ..

theorem eventsOf_own (sink : Sink) (index : Nat) (generation : Generation) :
    eventsOf index [sink.event index generation] = [sink.event index generation] := by
  cases sink <;> simp [eventsOf, Sink.event, Event.driver?]

theorem callAll_others {listeners : List Listener} (absent : listeners.count (.driver index) = 0)
    (s : Session) : (s.callAll listeners).1.drivers[index]? = s.drivers[index]? ∧
      eventsOf index (s.callAll listeners).2 = [] := by
  induction listeners generalizing s with
  | nil => exact ⟨rfl, rfl⟩
  | cons head rest ih =>
    rw [List.count_eq_zero, List.mem_cons, not_or, ← List.count_eq_zero] at absent
    obtain ⟨different, absent⟩ := absent
    cases head with
    | observer handle =>
      obtain ⟨kept, silent⟩ := ih absent s
      exact ⟨kept, by simpa [callAll, eventsOf, Event.driver?] using silent⟩
    | driver other =>
      obtain ⟨kept, silent⟩ := ih absent (s.pass other).1
      have others : other ≠ index := fun same => different (same ▸ rfl)
      obtain ⟨kept', silent'⟩ := s.pass_other others
      refine ⟨kept.trans kept', ?_⟩
      show eventsOf index ((s.pass other).2 ++ ((s.pass other).1.callAll rest).2) = []
      rw [eventsOf_append, silent', silent, List.append_nil]

theorem callAll_tracked {listeners : List Listener} (once : listeners.count (.driver index) = 1)
    (s : Session) (held : s.drivers[index]? = some driver) :
    (s.callAll listeners).1.drivers[index]? = some (driver.pass s.graph).1 ∧
      eventsOf index (s.callAll listeners).2 = [driver.sink.event index (driver.pass s.graph).2] := by
  induction listeners generalizing s with
  | nil => cases once
  | cons head rest ih =>
    cases head with
    | observer handle =>
      have later : rest.count (.driver index) = 1 := by simpa using once
      obtain ⟨passed, event⟩ := ih later s held
      exact ⟨passed, by simpa [callAll, eventsOf, Event.driver?] using event⟩
    | driver other =>
      show _ ∧ eventsOf index ((s.pass other).2 ++ ((s.pass other).1.callAll rest).2) = _
      rw [eventsOf_append]
      by_cases same : other = index
      · subst same
        have absent : rest.count (.driver other) = 0 := by simpa using once
        obtain ⟨passed, event⟩ := pass_self held
        obtain ⟨kept, silent⟩ := callAll_others absent (s.pass other).1
        refine ⟨kept.trans passed, ?_⟩
        rw [event, silent, eventsOf_own]
        rfl
      · have later : rest.count (.driver index) = 1 := by
          rwa [List.count_cons_of_ne (by simpa using same)] at once
        obtain ⟨kept, silent⟩ := s.pass_other same
        have graph : (s.pass other).1.graph = s.graph := congrArg Workspace.graph (pass_workspace s other)
        obtain ⟨passed, event⟩ := ih later (s.pass other).1 (kept.trans held)
        rw [graph] at passed event
        exact ⟨passed, by rw [silent, event, List.nil_append]⟩

-- Graphs that nobody who compares them can tell apart.
def Same (g h : Graph) : Prop := g = h ∨ g.equals h = true

theorem Same.trans {f g h : Graph} (first : Same f g) (second : Same g h) : Same f h := by
  rcases first with rfl | first
  · exact second
  · rcases second with rfl | second
    · exact .inr first
    · exact .inr (Graph.equals_trans first second)

-- What one command means for a driver: no pass, and the graph still looks as it did, or one pass
-- over the graph as it is now.
inductive Advances (index : Nat) (driver : Driver) (s s' : Session) (events : List Event) : Prop where
  | idles (tracks : Tracks s' index driver) (silent : eventsOf index events = [])
      (same : Same s'.graph s.graph)
  | passes (tracks : Tracks s' index (driver.pass s'.graph).1)
      (event : eventsOf index events = [driver.sink.event index (driver.pass s'.graph).2])

theorem Advances.after {s' : Session} {before events : List Event} (silent : eventsOf index before = [])
    (advances : Advances index driver s s' events) : Advances index driver s s' (before ++ events) := by
  have whole : eventsOf index (before ++ events) = eventsOf index events := by
    rw [eventsOf_append, silent, List.nil_append]
  cases advances with
  | idles tracks none same => exact .idles tracks (whole.trans none) same
  | passes tracks event => exact .passes tracks (whole.trans event)

theorem notify_advances (tracks : Tracks s index driver) (top : s.depth = 0) (before : Session) :
    Advances index driver before s.notify.1 s.notify.2 := by
  have called : s.notify = s.callAll s.listeners := by simp [notify, top]
  have graph : (s.callAll s.listeners).1.graph = s.graph :=
    congrArg Workspace.graph (callAll_workspace _ s)
  obtain ⟨passed, event⟩ := callAll_tracked tracks.once s tracks.held
  rw [called]
  apply Advances.passes
  · exact ⟨graph ▸ passed, (callAll_listeners _ s).symm ▸ tracks.once⟩
  · rw [graph]
    exact event

theorem Tracks.inside (tracks : Tracks s index driver) : index < s.drivers.length :=
  (List.getElem?_eq_some_iff.mp tracks.held).1

theorem Tracks.pass_other (tracks : Tracks s index driver) (different : other ≠ index) :
    Tracks (s.pass other).1 index driver :=
  ⟨(s.pass_other different).1.trans tracks.held, (pass_listeners s other).symm ▸ tracks.once⟩

-- A command changes the graph, or asks some driver for a pass, or leaves this driver alone: others
-- come and go around it.
theorem Does.tracked {c : Command} {result : Session × Step} {batching : Bool} (does : Does s c result)
    (tracks : Tracks s index driver) (spared : c.spares index batching = true) :
    (∃ w, result.1 = (s.changed w).1 ∧ result.2.heard = (s.changed w).2) ∨
    (∃ other, c = .regenerate other ∧ result.1 = (s.pass other).1 ∧ result.2.heard = (s.pass other).2) ∨
    (Tracks result.1 index driver ∧ result.2.heard = [] ∧ result.1.graph = s.graph) := by
  have inside := tracks.inside
  obtain ⟨held, once⟩ := tracks
  cases does with
  | changes w | replaces w => exact .inl ⟨w, rfl, rfl⟩
  | @regenerates other => exact .inr (.inl ⟨other, rfl, rfl, rfl⟩)
  | subscribes =>
    have count : (s.listeners ++ [Listener.observer s.observers]).count (Listener.driver index) = 1 := by
      simpa using once
    exact .inr (.inr ⟨⟨held, count⟩, rfl, rfl⟩)
  | @unsubscribes handle =>
    have count : (s.listeners.erase (Listener.observer handle)).count (Listener.driver index) = 1 := by
      rwa [List.count_erase_of_ne (by simp)]
    exact .inr (.inr ⟨⟨held, count⟩, rfl, rfl⟩)
  | attaches =>
    have count : (s.listeners ++ [Listener.driver s.drivers.length]).count (Listener.driver index) = 1 := by
      have new : (Listener.driver s.drivers.length == Listener.driver index) = false := by
        have different : s.drivers.length ≠ index := by omega
        simpa using different
      simpa [List.count_append, List.count_singleton, new] using once
    exact .inr (.inr ⟨⟨(List.getElem?_append_left inside).trans held, count⟩, rfl, rfl⟩)
  | @detaches other =>
    have different : other ≠ index := by simpa [Command.spares] using spared
    have count : (s.listeners.erase (Listener.driver other)).count (Listener.driver index) = 1 := by
      rwa [List.count_erase_of_ne (by simpa using Ne.symm different)]
    exact .inr (.inr ⟨⟨(List.getElem?_set_ne different).trans held, count⟩, rfl, rfl⟩)
  | _ => exact .inr (.inr ⟨⟨held, once⟩, rfl, rfl⟩)

theorem Does.tracks {c : Command} {result : Session × Step} (does : Does s c result)
    (tracks : Tracks s index driver) (batching : 0 < s.depth) (spared : c.spares index true = true) :
    Tracks result.1 index driver ∧ eventsOf index result.2.heard = [] := by
  rcases does.tracked tracks spared with ⟨w, after, heard⟩ | ⟨other, rfl, after, heard⟩ | ⟨kept, heard, _⟩
  · have silent : s.changed w = ({ s with workspace := w }, []) := notify_open batching
    rw [after, heard, silent]
    exact ⟨⟨tracks.held, tracks.once⟩, rfl⟩
  · have different : other ≠ index := by simpa [Command.spares] using spared
    rw [after, heard]
    exact ⟨tracks.pass_other different, (s.pass_other different).2⟩
  · exact ⟨kept, by rw [heard]; rfl⟩

theorem Does.advances {c : Command} {result : Session × Step} (does : Does s c result)
    (tracks : Tracks s index driver) (top : s.depth = 0) (spared : c.spares index false = true) :
    Advances index driver s result.1 result.2.heard := by
  rcases does.tracked tracks spared with ⟨w, after, heard⟩ | ⟨other, rfl, after, heard⟩ | ⟨kept, heard, graph⟩
  · have changed : Tracks { s with workspace := w } index driver := ⟨tracks.held, tracks.once⟩
    rw [after, heard]
    exact notify_advances changed top s
  · have graph : (s.pass other).1.graph = s.graph := congrArg Workspace.graph (pass_workspace s other)
    rw [after, heard]
    by_cases same : other = index
    · subst same
      obtain ⟨passed, event⟩ := pass_self tracks.held
      apply Advances.passes
      · rw [graph]
        exact ⟨passed, (pass_listeners s other).symm ▸ tracks.once⟩
      · rw [event, graph, eventsOf_own]
    · exact .idles (tracks.pass_other same) (s.pass_other same).2 (.inl graph)
  · exact .idles kept (by rw [heard]; rfl) (.inl graph)

-- Nothing in a batch reaches the driver.
theorem runAll_tracks {commands : List Command} (stopAtFailure : Bool)
    (each : ∀ c ∈ commands, ∀ s : Session, Tracks s index driver → 0 < s.depth →
      Tracks (s.run c).1 index driver ∧ eventsOf index (s.run c).2.heard = [])
    (s : Session) (tracks : Tracks s index driver) (batching : 0 < s.depth) :
    Tracks (s.runAll stopAtFailure commands).1 index driver ∧
      eventsOf index (heardAll (s.runAll stopAtFailure commands).2.1) = [] := by
  induction commands generalizing s with
  | nil =>
    rw [runAll]
    exact ⟨tracks, rfl⟩
  | cons c rest ih =>
    rw [List.forall_mem_cons] at each
    obtain ⟨first, silent⟩ := each.1 s tracks batching
    rw [runAll]
    simp only
    split
    · refine ⟨first, ?_⟩
      rw [heardAll, heardAll, List.append_nil, silent]
    · obtain ⟨later, silent'⟩ := ih each.2 (s.run c).1 first (s.run_depth c ▸ batching)
      refine ⟨later, ?_⟩
      rw [heardAll, eventsOf_append, silent, silent']
      rfl

theorem closeBatch_tracks {inner : Session} (tracks : Tracks inner index driver) (batching : 0 < s.depth)
    (committed : Bool) : Tracks (inner.closeBatch s committed).1 index driver := by
  unfold closeBatch
  cases committed with
  | true =>
    simp only [if_true]
    split
    · exact ⟨tracks.held, tracks.once⟩
    · rw [notify_open (by exact batching)]
      exact ⟨tracks.held, tracks.once⟩
  | false => exact ⟨tracks.held, tracks.once⟩

theorem run_tracks (c : Command) (spared : c.spares index true = true) : ∀ s : Session,
    Tracks s index driver → 0 < s.depth →
      Tracks (s.run c).1 index driver ∧ eventsOf index (s.run c).2.heard = [] := by
  revert spared
  refine Command.nested (P := fun c => c.spares index true = true → ∀ s : Session,
    Tracks s index driver → 0 < s.depth →
      Tracks (s.run c).1 index driver ∧ eventsOf index (s.run c).2.heard = []) ?_ ?_ c
  · exact fun c single spared s tracks batching => (s.run_does single).tracks tracks batching spared
  intro commands tolerate fail each spared s tracks batching
  have spared := allSpare_iff.mp spared
  have entered : Tracks { s with depth := s.depth + 1 } index driver := ⟨tracks.held, tracks.once⟩
  obtain ⟨inner, silent⟩ := runAll_tracks (!tolerate) (fun c member => each c member (spared c member))
    _ entered (Nat.succ_pos _)
  rw [run_batch]
  refine ⟨closeBatch_tracks inner batching _, ?_⟩
  show eventsOf index (heardAll _ ++ _) = []
  rw [eventsOf_append, silent, List.nil_append]
  exact congrArg (eventsOf index) (closeBatch_open batching)

theorem closeBatch_advances {inner : Session} (tracks : Tracks inner index driver) (top : s.depth = 0)
    (committed : Bool) :
    Advances index driver s (inner.closeBatch s committed).1 (inner.closeBatch s committed).2 := by
  unfold closeBatch
  cases committed with
  | true =>
    simp only [if_true]
    split
    · next equal => exact .idles ⟨tracks.held, tracks.once⟩ rfl (.inr equal)
    · exact notify_advances (s := { inner with depth := s.depth }) ⟨tracks.held, tracks.once⟩ top s
  | false => exact .idles ⟨tracks.held, tracks.once⟩ rfl (.inl rfl)

theorem run_advances (s : Session) (c : Command) (tracks : Tracks s index driver) (top : s.depth = 0)
    (spared : c.spares index false = true) :
    Advances index driver s (s.run c).1 (s.run c).2.heard := by
  cases kind : c.isBatch with
  | false => exact (s.run_does kind).advances tracks top spared
  | true =>
    cases c with
    | batch commands tolerate fail =>
      have spared := allSpare_iff.mp spared
      have entered : Tracks { s with depth := s.depth + 1 } index driver := ⟨tracks.held, tracks.once⟩
      obtain ⟨inner, silent⟩ := runAll_tracks (!tolerate)
        (fun c member => run_tracks c (spared c member)) _ entered (Nat.succ_pos _)
      rw [run_batch]
      exact (closeBatch_advances inner top _).after silent
    | _ => cases kind

-- What the generations tell of a graph that was `start` before the first of them: some graph that
-- looks like it is the one of the last generation.
def Reflects (options : Options) (start : Graph) (generations : List Generation) (g : Graph) : Prop :=
  ∃ shown, Same g shown ∧ match generations.getLast? with
    | none => shown = start
    | some generation =>
      generation.source = Generation.compile shown options ∧ generation.snapshot = Snapshot.capture shown

theorem Reflects.later {options : Options} {start middle g : Graph} {first second : List Generation}
    (before : Reflects options start first middle) (after : Reflects options middle second g) :
    Reflects options start (first ++ second) g := by
  obtain ⟨shown, same, last⟩ := after
  cases second using List.reverseRecOn with
  | nil =>
    obtain ⟨shown', same', last'⟩ := before
    obtain rfl : shown = middle := last
    rw [List.append_nil]
    exact ⟨shown', same.trans same', last'⟩
  | append_singleton rest generation =>
    rw [List.getLast?_append] at last
    refine ⟨shown, same, ?_⟩
    rw [← List.append_assoc, List.getLast?_append]
    exact last

theorem runAll_reflects {commands : List Command}
    (spared : ∀ c ∈ commands, c.spares index false = true) (driver : Driver) (s : Session)
    (tracks : Tracks s index driver) (top : s.depth = 0) :
    ∃ generations : List Generation,
      eventsOf index (heardAll (s.runAll false commands).2.1)
        = generations.map (driver.sink.event index) ∧
      generations.map (·.sequence) = List.range' (driver.sequence + 1) generations.length ∧
      Reflects driver.options s.graph generations (s.runAll false commands).1.graph := by
  induction commands generalizing s driver with
  | nil =>
    rw [runAll]
    exact ⟨[], rfl, rfl, s.graph, .inl rfl, rfl⟩
  | cons c rest ih =>
    rw [List.forall_mem_cons] at spared
    have top' : (s.run c).1.depth = 0 := (s.run_depth c).trans top
    rw [runAll]
    simp only [Bool.false_and, Bool.false_eq_true, if_false, heardAll, eventsOf_append]
    cases s.run_advances c tracks top spared.1 with
    | idles tracks' silent same =>
      obtain ⟨generations, events, sequences, reflects⟩ := ih spared.2 driver _ tracks' top'
      have before : Reflects driver.options s.graph [] (s.run c).1.graph := ⟨s.graph, same, rfl⟩
      exact ⟨generations, by rw [silent, events, List.nil_append], sequences, before.later reflects⟩
    | passes tracks' event =>
      obtain ⟨generations, events, sequences, reflects⟩ := ih spared.2 _ _ tracks' top'
      have before : Reflects driver.options s.graph [(driver.pass (s.run c).1.graph).2] (s.run c).1.graph :=
        ⟨(s.run c).1.graph, .inl rfl, rfl, rfl⟩
      refine ⟨(driver.pass (s.run c).1.graph).2 :: generations, ?_, ?_, before.later reflects⟩
      · rw [event, events]
        rfl
      · rw [List.map_cons, sequences]
        rfl

-- Drivers are called by indices that they have.
def Enrolled (s : Session) : Prop := ∀ index, .driver index ∈ s.listeners → index < s.drivers.length

theorem pass_drivers (s : Session) (index : Nat) : (s.pass index).1.drivers.length = s.drivers.length := by
  unfold pass
  split
  · rfl
  · simp only
    split <;> exact List.length_set

theorem callAll_drivers (listeners : List Listener) (s : Session) :
    (s.callAll listeners).1.drivers.length = s.drivers.length := by
  induction listeners generalizing s with
  | nil => rfl
  | cons head rest ih =>
    cases head with
    | observer handle => exact ih s
    | driver index => exact (ih _).trans (pass_drivers s index)

theorem Enrolled.notify (enrolled : s.Enrolled) : s.notify.1.Enrolled := by
  unfold Session.notify
  split
  · exact enrolled
  · intro index member
    rw [callAll_listeners] at member
    rw [callAll_drivers]
    exact enrolled index member

theorem Does.enrolled {c : Command} {result : Session × Step} (does : Does s c result)
    (enrolled : s.Enrolled) : result.1.Enrolled := by
  cases does with
  | changes w | replaces w =>
    have changed : Enrolled { s with workspace := w } := enrolled
    exact changed.notify
  | subscribes =>
    intro index member
    exact enrolled index (by simpa [reply, answer] using member)
  | unsubscribes => exact fun index member => enrolled index (List.mem_of_mem_erase member)
  | attaches =>
    intro index member
    have listed : Listener.driver index ∈ s.listeners ++ [.driver s.drivers.length] := member
    show index < (s.drivers ++ [_]).length
    rw [List.length_append, List.length_singleton]
    rcases List.mem_append.mp listed with old | new
    · exact Nat.lt_succ_of_lt (enrolled index old)
    · cases List.mem_singleton.mp new
      exact Nat.lt_succ_self _
  | detaches =>
    intro index member
    show index < (s.drivers.set _ _).length
    rw [List.length_set]
    exact enrolled index (List.mem_of_mem_erase member)
  | @regenerates index =>
    intro other member
    have listed : Listener.driver other ∈ (s.pass index).1.listeners := member
    rw [pass_listeners] at listed
    exact (pass_drivers s index).symm ▸ enrolled other listed
  | _ => exact enrolled

theorem closeBatch_enrolled {inner : Session} (enrolled : inner.Enrolled) (committed : Bool) :
    (inner.closeBatch s committed).1.Enrolled := by
  unfold closeBatch
  cases committed with
  | true =>
    simp only [if_true]
    split
    · exact enrolled
    · exact Enrolled.notify (s := { inner with depth := s.depth }) enrolled
  | false => exact enrolled

theorem runAll_enrolled {commands : List Command} (stopAtFailure : Bool)
    (each : ∀ c ∈ commands, ∀ s : Session, s.Enrolled → (s.run c).1.Enrolled)
    (s : Session) (enrolled : s.Enrolled) : (s.runAll stopAtFailure commands).1.Enrolled := by
  induction commands generalizing s with
  | nil =>
    rw [runAll]
    exact enrolled
  | cons c rest ih =>
    rw [List.forall_mem_cons] at each
    rw [runAll]
    simp only
    split
    · exact each.1 s enrolled
    · exact ih each.2 _ (each.1 s enrolled)

theorem run_enrolled (c : Command) : ∀ s : Session, s.Enrolled → (s.run c).1.Enrolled := by
  refine Command.nested (P := fun c => ∀ s : Session, s.Enrolled → (s.run c).1.Enrolled) ?_ ?_ c
  · exact fun c single s enrolled => (s.run_does single).enrolled enrolled
  · intro commands tolerate fail each s enrolled
    have entered : Enrolled { s with depth := s.depth + 1 } := enrolled
    rw [run_batch]
    exact closeBatch_enrolled (runAll_enrolled (!tolerate) each _ entered) _

theorem attached_tracks (enrolled : s.Enrolled) (options : Options) (sink : Sink) :
    Tracks (s.run (.attachDriver options sink)).1 s.drivers.length ⟨options, sink, 0, true⟩ := by
  have new : s.listeners.count (.driver s.drivers.length) = 0 :=
    List.count_eq_zero.mpr fun listed => Nat.lt_irrefl _ (enrolled _ listed)
  rw [run]
  constructor
  · show (s.drivers ++ [_])[s.drivers.length]? = _
    simp
  · show (s.listeners ++ [_]).count _ = 1
    simp [List.count_append, new]

theorem runAll_depth (s : Session) (stopAtFailure : Bool) (commands : List Command) :
    (s.runAll stopAtFailure commands).1.depth = s.depth := by
  induction commands generalizing s with
  | nil => rw [runAll]
  | cons c rest ih =>
    rw [runAll]
    simp only
    split
    · exact s.run_depth c
    · exact (ih _).trans (s.run_depth c)

theorem latest_generation_current (before commands : List Command) (options : Options) (sink : Sink) :
    let s := (runAll {} false before).1
    let index := s.drivers.length
    let attached := (s.run (.attachDriver options sink)).1
    let ran := attached.runAll false commands
    (∀ c ∈ commands, c.spares index false = true) →
    ∃ generations : List Generation,
      eventsOf index (heardAll ran.2.1) = generations.map (sink.event index) ∧
      generations.map (·.sequence) = List.range' 1 generations.length ∧
      match generations.getLast? with
      | none => ran.1.graph.Numeric → ran.1.graph.equals s.graph = true
      | some generation =>
        generation.source = Generation.compile ran.1.graph options ∧
        (ran.1.graph.Numeric → (Snapshot.capture ran.1.graph).equals generation.snapshot = true) := by
  intro s index attached ran spared
  have enrolled : s.Enrolled := runAll_enrolled false (fun c _ => run_enrolled c) {} (by simp [Enrolled])
  have top : attached.depth = 0 := (s.run_depth _).trans (runAll_depth {} false before)
  have start : attached.graph = s.graph := by
    show (s.run _).1.graph = _
    rw [run]
    rfl
  obtain ⟨generations, events, sequences, shown, same, last⟩ :=
    runAll_reflects spared _ attached (attached_tracks enrolled options sink) top
  refine ⟨generations, events, sequences, ?_⟩
  have equal : ran.1.graph.Numeric → ran.1.graph.equals shown = true := by
    intro numeric
    rcases same with same | equal
    · exact same ▸ numeric.equals_self
    · exact equal
  split
  · next none =>
    rw [none] at last
    rw [← start, ← last]
    exact equal
  · next generation found =>
    rw [found] at last
    obtain ⟨source, snapshot⟩ := last
    constructor
    · rw [source]
      rcases same with same | equal
      · rw [same]
      · exact (Generation.compile_equals equal options).symm
    · intro numeric
      rw [snapshot]
      exact Snapshot.capture_equals (equal numeric)

-- The driver hears of the new block, and is asked for a pass once more. It hears nothing of a zero
-- that becomes a negative zero, nor of a batch that is given up.
theorem quiet_batches_leave_generation_current :
    let s := (runAll {} false [.subscribe, .edit (.addBlock .number)]).1
    let attached := (s.run (.attachDriver {} .record)).1
    let commands : List Command := [.edit (.addBlock .print),
      .batch [.edit (.setField ⟨"b1"⟩ "NUM" (.number (.finite true ⟨0, by decide⟩)))] false false,
      .batch [.edit .clear, .batch [.edit (.addBlock .text)] false false] false true, .regenerate 0]
    let ran := attached.runAll false commands
    (∀ c ∈ commands, c.spares 0 false = true) ∧ (eventsOf 0 (heardAll ran.2.1)).length = 2 ∧
    ∃ generations : List Generation,
      eventsOf 0 (heardAll ran.2.1) = generations.map (Sink.record.event 0) ∧
      generations.map (·.sequence) = List.range' 1 generations.length ∧
      match generations.getLast? with
      | none => ran.1.graph.Numeric → ran.1.graph.equals s.graph = true
      | some generation =>
        generation.source = Generation.compile ran.1.graph {} ∧
        (ran.1.graph.Numeric → (Snapshot.capture ran.1.graph).equals generation.snapshot = true) :=
  ⟨by decide +kernel, by decide +kernel,
    latest_generation_current [.subscribe, .edit (.addBlock .number)] _ {} .record (by decide +kernel)⟩

end Session
end Blockwork.Editing
