import Mathlib
import Blockwork.Proofs.Regeneration

-- Who is called, when and how often. Outside of batches each listener hears once of
-- every change that succeeds; of a batch it hears when the batch closes, and only if
-- the graph is another one by then. What a batch does to the workspace it would have
-- done without the batch.
namespace Blockwork.Editing

mutual

-- The command itself sets the driver to work.
def Command.asks (index : Nat) : Command → Bool
  | .regenerate other => other == index
  | .batch commands _ _ => anyAsks index commands
  | _ => false

def anyAsks (index : Nat) : List Command → Bool
  | [] => false
  | command :: rest => command.asks index || anyAsks index rest

end

namespace Session

-- Listeners after a command: the new ones come last, and nobody changes places.
def relisted (s : Session) : Command → List Listener
  | .subscribe => s.listeners ++ [.observer s.observers]
  | .unsubscribe handle => s.listeners.erase (.observer handle)
  | .attachDriver .. => s.listeners ++ [.driver s.drivers.length]
  | .detachDriver index => s.listeners.erase (.driver index)
  | .batch commands tolerate _ =>
    (runAll { s with depth := s.depth + 1 } (!tolerate) commands).1.listeners
  | _ => s.listeners

-- The command is a change of the graph, or a batch that made one. What is loaded or put in place
-- counts as a change whatever it is.
def tells (s : Session) (c : Command) : Bool :=
  match c with
  | .edit _ | .load _ | .replace _ => (s.run c).2.succeeded
  | .batch .. => (s.run c).2.succeeded && !(s.run c).1.graph.equals s.graph
  | _ => false

-- What a listener reports of the session that calls it.
inductive Hears (s : Session) : Listener → Event → Prop where
  | observer (handle : Nat) : Hears s (.observer handle) (.called handle s.graph)
  | driver {index : Nat} {driver : Driver} (held : s.drivers[index]? = some driver) :
      Hears s (.driver index) (driver.sink.event index
        ⟨driver.sequence, Snapshot.capture s.graph, Generation.compile s.graph driver.options⟩)

-- Sessions as they occur, before and after each command, also while batches are open.
inductive Occurs : Session → Prop where
  | start : Occurs {}
  | enter {s : Session} (before : Occurs s) : Occurs { s with depth := s.depth + 1 }
  | run {s : Session} (before : Occurs s) (c : Command) : Occurs (s.run c).1

-- All that decides whether a command succeeds, and what calls leave alone.
def basis (s : Session) : Workspace × List Listener × Nat × List Bool :=
  (s.workspace, s.listeners, s.observers, s.drivers.map (·.attached))

variable {s t : Session}

theorem workspace_of_basis (same : s.basis = t.basis) : s.workspace = t.workspace :=
  congrArg (·.1) same

theorem listeners_of_basis (same : s.basis = t.basis) : s.listeners = t.listeners :=
  congrArg (·.2.1) same

theorem observers_of_basis (same : s.basis = t.basis) : s.observers = t.observers :=
  congrArg (·.2.2.1) same

theorem attached_of_basis (same : s.basis = t.basis) (index : Nat) :
    s.drivers[index]?.map (·.attached) = t.drivers[index]?.map (·.attached) := by
  rw [← List.getElem?_map, ← List.getElem?_map]
  exact congrArg (·[index]?) (congrArg (·.2.2.2) same)

theorem drivers_of_basis (same : s.basis = t.basis) : s.drivers.length = t.drivers.length := by
  have flags : s.drivers.map (·.attached) = t.drivers.map (·.attached) := congrArg (·.2.2.2) same
  simpa using congrArg List.length flags

theorem set_attached {drivers : List Driver} {index : Nat} {old new : Driver}
    (held : drivers[index]? = some old) (same : new.attached = old.attached) :
    (drivers.set index new).map (·.attached) = drivers.map (·.attached) := by
  obtain ⟨inside, rfl⟩ := List.getElem?_eq_some_iff.mp held
  rw [List.map_set, same]
  apply List.ext_getElem (by simp)
  intro i _ _
  by_cases here : index = i
  · subst here
    simp
  · simp [here]

theorem pass_basis (s : Session) (index : Nat) : (s.pass index).1.basis = s.basis := by
  unfold pass
  split
  · rfl
  · next driver held =>
    have flags : (s.drivers.set index (driver.pass s.graph).1).map (·.attached)
        = s.drivers.map (·.attached) := set_attached held rfl
    simp only
    split <;> simp only [basis, flags]

theorem callAll_basis (listeners : List Listener) (s : Session) :
    (s.callAll listeners).1.basis = s.basis := by
  induction listeners generalizing s with
  | nil => rfl
  | cons head rest ih =>
    cases head with
    | observer handle => exact ih s
    | driver index => exact (ih _).trans (pass_basis s index)

theorem notify_basis (s : Session) : s.notify.1.basis = s.basis := by
  unfold notify
  split
  · rfl
  · exact callAll_basis _ s

theorem changed_basis (s : Session) (w : Workspace) :
    (s.changed w).1.basis = basis { s with workspace := w } := notify_basis _

theorem changed_listeners (s : Session) (w : Workspace) : (s.changed w).1.listeners = s.listeners :=
  listeners_of_basis (t := { s with workspace := w }) (s.changed_basis w)

-- Given up or not, a batch leaves the listeners and drivers that it found or made.
theorem closeBatch_basis (inner s : Session) (committed : Bool) :
    (inner.closeBatch s committed).1.basis
      = if committed then inner.basis
        else basis { inner with workspace := { inner.workspace with graph := s.graph } } := by
  unfold closeBatch
  cases committed with
  | true =>
    simp only [if_true]
    split
    · rfl
    · exact notify_basis _
  | false => rfl

theorem closeBatch_listeners (inner s : Session) (committed : Bool) :
    (inner.closeBatch s committed).1.listeners = inner.listeners := by
  cases committed with
  | true => exact listeners_of_basis (closeBatch_basis inner s true)
  | false => rfl

-- The register of listeners: handles that were handed out, drivers that are attached, nobody twice.
structure Registered (s : Session) : Prop where
  handles : ∀ handle, .observer handle ∈ s.listeners → handle < s.observers
  drivers : ∀ index, .driver index ∈ s.listeners → s.drivers[index]?.map (·.attached) = some true
  nodup : s.listeners.Nodup

theorem Registered.of_basis (registered : s.Registered) (same : t.basis = s.basis) : t.Registered where
  handles := by
    rw [listeners_of_basis same, observers_of_basis same]
    exact registered.handles
  drivers index := by
    rw [listeners_of_basis same, attached_of_basis same]
    exact registered.drivers index
  nodup := by
    rw [listeners_of_basis same]
    exact registered.nodup

theorem Registered.enrolled (registered : s.Registered) : s.Enrolled := by
  intro index member
  obtain ⟨driver, held, _⟩ := Option.map_eq_some_iff.mp (registered.drivers index member)
  exact (List.getElem?_eq_some_iff.mp held).1

theorem Registered.subscribes (registered : s.Registered) :
    Registered { s with
      listeners := s.listeners ++ [.observer s.observers]
      observers := s.observers + 1 } where
  handles handle member := by
    rcases List.mem_append.mp member with old | new
    · exact Nat.lt_succ_of_lt (registered.handles handle old)
    · cases List.mem_singleton.mp new
      exact Nat.lt_succ_self _
  drivers index member := registered.drivers index (by simpa using member)
  nodup := by
    refine List.Nodup.append registered.nodup (List.nodup_singleton _) ?_
    rw [List.disjoint_singleton]
    exact fun listed => Nat.lt_irrefl _ (registered.handles _ listed)

theorem Registered.attaches (registered : s.Registered) (driver : Driver) (attached : driver.attached = true) :
    Registered { s with
      listeners := s.listeners ++ [.driver s.drivers.length]
      drivers := s.drivers ++ [driver] } where
  handles handle member := registered.handles handle (by simpa using member)
  drivers index member := by
    rcases List.mem_append.mp member with old | new
    · rw [List.getElem?_append_left (registered.enrolled index old)]
      exact registered.drivers index old
    · cases List.mem_singleton.mp new
      simp [attached]
  nodup := by
    refine List.Nodup.append registered.nodup (List.nodup_singleton _) ?_
    rw [List.disjoint_singleton]
    exact fun listed => Nat.lt_irrefl _ (registered.enrolled _ listed)

theorem Registered.detaches (registered : s.Registered) (index : Nat) (driver : Driver) :
    Registered { s with
      drivers := s.drivers.set index driver
      listeners := s.listeners.erase (.driver index) } where
  handles handle member := registered.handles handle (List.mem_of_mem_erase member)
  drivers other member := by
    have different : index ≠ other := by
      rintro rfl
      exact registered.nodup.not_mem_erase member
    rw [List.getElem?_set_ne different]
    exact registered.drivers other (List.mem_of_mem_erase member)
  nodup := registered.nodup.erase _

theorem Does.registered {c : Command} {result : Session × Step} (does : Does s c result)
    (registered : s.Registered) : result.1.Registered := by
  cases does with
  | changes w | replaces w =>
    have moved : Registered { s with workspace := w } :=
      ⟨registered.handles, registered.drivers, registered.nodup⟩
    exact moved.of_basis (s.changed_basis w)
  | subscribes => exact registered.subscribes
  | @unsubscribes handle =>
    exact ⟨fun other member => registered.handles other (List.mem_of_mem_erase member),
      fun index member => registered.drivers index (List.mem_of_mem_erase member),
      registered.nodup.erase _⟩
  | attaches => exact registered.attaches _ rfl
  | @detaches index driver => exact registered.detaches index driver
  | @regenerates index => exact registered.of_basis (pass_basis s index)
  | _ => exact ⟨registered.handles, registered.drivers, registered.nodup⟩

theorem closeBatch_registered {inner : Session} (registered : inner.Registered) (committed : Bool) :
    (inner.closeBatch s committed).1.Registered := by
  cases committed with
  | true => exact registered.of_basis (closeBatch_basis inner s true)
  | false => exact ⟨registered.handles, registered.drivers, registered.nodup⟩

theorem runAll_registered {commands : List Command} (stopAtFailure : Bool)
    (each : ∀ c ∈ commands, ∀ s : Session, s.Registered → (s.run c).1.Registered)
    (s : Session) (registered : s.Registered) :
    (s.runAll stopAtFailure commands).1.Registered := by
  induction commands generalizing s with
  | nil =>
    rw [runAll]
    exact registered
  | cons c rest ih =>
    rw [List.forall_mem_cons] at each
    rw [runAll]
    simp only
    split
    · exact each.1 s registered
    · exact ih each.2 _ (each.1 s registered)

theorem run_registered (c : Command) : ∀ s : Session, s.Registered → (s.run c).1.Registered := by
  refine Command.nested (P := fun c => ∀ s : Session, s.Registered → (s.run c).1.Registered) ?_ ?_ c
  · exact fun c single s registered => (s.run_does single).registered registered
  · intro commands tolerate fail each s registered
    have entered : Registered { s with depth := s.depth + 1 } :=
      ⟨registered.handles, registered.drivers, registered.nodup⟩
    rw [run_batch]
    exact closeBatch_registered (runAll_registered (!tolerate) each _ entered) _

theorem Occurs.registered (occurs : s.Occurs) : s.Registered := by
  induction occurs with
  | start => exact ⟨by simp, by simp, List.nodup_nil⟩
  | enter _ ih => exact ⟨ih.handles, ih.drivers, ih.nodup⟩
  | run _ c ih => exact run_registered c _ ih

theorem pass_own (s : Session) (index : Nat) : ∀ event ∈ (s.pass index).2, event.driver? = some index := by
  unfold pass
  split
  · simp
  · simp only
    split <;> simp [Event.driver?]

-- Every listener is called, in the order of the list. Nobody stands in it twice, so a driver keeps
-- until the end what it made of the call.
theorem callAll_hears {listeners : List Listener} (nodup : listeners.Nodup) (s : Session)
    (enrolled : ∀ index, .driver index ∈ listeners → index < s.drivers.length) :
    List.Forall₂ (Hears (s.callAll listeners).1) listeners (s.callAll listeners).2 := by
  induction listeners generalizing s with
  | nil => exact .nil
  | cons head rest ih =>
    obtain ⟨absent, distinct⟩ := List.nodup_cons.mp nodup
    cases head with
    | observer handle =>
      have graph : (s.callAll rest).1.graph = s.graph := congrArg Workspace.graph (callAll_workspace rest s)
      have later := ih distinct s fun index member => enrolled index (.tail _ member)
      refine .cons ?_ later
      have own := Hears.observer (s := (s.callAll rest).1) handle
      rwa [graph] at own
    | driver index =>
      have inside := enrolled index (.head _)
      have held : s.drivers[index]? = some (s.drivers.get ⟨index, inside⟩) :=
        List.getElem?_eq_getElem inside
      obtain ⟨passed, event⟩ := pass_self held
      have graph : ((s.pass index).1.callAll rest).1.graph = s.graph :=
        congrArg Workspace.graph ((callAll_workspace rest _).trans (pass_workspace s index))
      have kept := (callAll_others (List.count_eq_zero.mpr absent) (s.pass index).1).1.trans passed
      have later := ih distinct (s.pass index).1 fun other member =>
        (pass_drivers s index).symm ▸ enrolled other (.tail _ member)
      show List.Forall₂ _ _ ((s.pass index).2 ++ ((s.pass index).1.callAll rest).2)
      rw [event]
      refine .cons ?_ later
      have own := Hears.driver kept
      rwa [graph] at own

theorem notify_hears (registered : s.Registered) (top : s.depth = 0) :
    List.Forall₂ (Hears s.notify.1) s.notify.1.listeners s.notify.2 := by
  have called : s.notify = s.callAll s.listeners := by simp [notify, top]
  rw [called, callAll_listeners]
  exact callAll_hears registered.nodup s registered.enrolled

theorem closeBatch_hears {inner : Session} (registered : inner.Registered) (top : s.depth = 0)
    (differs : inner.graph.equals s.graph = false) :
    let closed := inner.closeBatch s true
    List.Forall₂ (Hears closed.1) closed.1.listeners closed.2 := by
  have notified : inner.closeBatch s true = notify { inner with depth := s.depth } := by
    have still : (graph { inner with depth := s.depth }).equals s.graph = false := differs
    simp [closeBatch, still]
  rw [notified]
  exact notify_hears ⟨registered.handles, registered.drivers, registered.nodup⟩ top

theorem closeBatch_graph (inner s : Session) : (inner.closeBatch s true).1.graph = inner.graph :=
  congrArg Workspace.graph (workspace_of_basis (closeBatch_basis inner s true))

theorem closeBatch_silent {inner : Session} {committed : Bool}
    (unchanged : committed = true → inner.graph.equals s.graph = true) :
    (inner.closeBatch s committed).2 = [] := by
  cases committed with
  | true =>
    have still : (graph { inner with depth := s.depth }).equals s.graph = true := unchanged rfl
    simp [closeBatch, still]
  | false => rfl

-- Events that come from drivers which the command set to work.
def Asked (c : Command) (events : List Event) : Prop :=
  ∀ event ∈ events, ∃ index, event.driver? = some index ∧ c.asks index = true

theorem asked_nothing (c : Command) : Asked c [] := by
  simp [Asked]

theorem runQuery_heard (s : Session) (q : Query) : (s.runQuery q).2.heard = [] := by
  cases q with
  | validate | roundTrip =>
    simp only [runQuery]
    split <;> rfl
  | _ => rfl

theorem withDriver_heard {index : Nat} {detached : Reply} {run : Driver → Session × Step}
    {P : List Event → Prop} (nothing : P []) (runs : ∀ driver, P (run driver).2.heard) :
    P (s.withDriver index detached run).2.heard := by
  unfold withDriver
  split
  · exact nothing
  · split
    · exact runs _
    · exact nothing

-- A single command changes the graph and tells of it, or is silent but for a driver it asks.
theorem run_tells (s : Session) {c : Command} (single : c.isBatch = false) :
    (s.tells c = true ∧ ∃ w, (s.run c).1 = (s.changed w).1 ∧ (s.run c).2.heard = (s.changed w).2) ∨
      (s.tells c = false ∧ Asked c (s.run c).2.heard) := by
  cases c with
  | batch => cases single
  | edit e =>
    simp only [tells, run, runEdit_eq]
    split
    · exact .inr ⟨rfl, asked_nothing _⟩
    · exact .inl ⟨rfl, _, rfl, rfl⟩
  | load json =>
    simp only [tells, run, runLoad_eq]
    split
    · exact .inr ⟨rfl, asked_nothing _⟩
    · exact .inl ⟨rfl, _, rfl, rfl⟩
  | replace commands =>
    rw [run_replace]
    exact .inl ⟨rfl, _, rfl, rfl⟩
  | query q =>
    rw [run, runQuery_heard]
    exact .inr ⟨rfl, asked_nothing _⟩
  | unsubscribe handle =>
    rw [run, runUnsubscribe]
    split <;> exact .inr ⟨rfl, asked_nothing _⟩
  | regenerate index =>
    rw [run]
    refine .inr ⟨rfl, withDriver_heard (P := Asked _) (asked_nothing _) fun driver event member => ?_⟩
    exact ⟨index, s.pass_own index event member, by simp [Command.asks]⟩
  | driverSequence index =>
    rw [run]
    exact .inr ⟨rfl, withDriver_heard (P := Asked _) (asked_nothing _) fun _ => asked_nothing _⟩
  | detachDriver index =>
    rw [run]
    exact .inr ⟨rfl, withDriver_heard (P := Asked _) (asked_nothing _) fun _ => asked_nothing _⟩
  | _ =>
    rw [run]
    exact .inr ⟨rfl, asked_nothing _⟩

theorem runAll_asked {commands : List Command} (stopAtFailure : Bool)
    (each : ∀ c ∈ commands, ∀ s : Session, 0 < s.depth → Asked c (s.run c).2.heard)
    (s : Session) (batching : 0 < s.depth) :
    ∀ event ∈ heardAll (s.runAll stopAtFailure commands).2.1,
      ∃ index, event.driver? = some index ∧ anyAsks index commands = true := by
  induction commands generalizing s with
  | nil =>
    rw [runAll]
    simp [heardAll]
  | cons c rest ih =>
    rw [List.forall_mem_cons] at each
    have first : ∀ event ∈ (s.run c).2.heard,
        ∃ index, event.driver? = some index ∧ anyAsks index (c :: rest) = true := by
      intro event member
      obtain ⟨index, own, asks⟩ := each.1 s batching event member
      exact ⟨index, own, by simp [anyAsks, asks]⟩
    rw [runAll]
    simp only
    split
    · simpa [heardAll] using first
    · intro event member
      rw [heardAll, List.mem_append] at member
      rcases member with member | member
      · exact first event member
      · obtain ⟨index, own, asks⟩ := ih each.2 (s.run c).1 (s.run_depth c ▸ batching) event member
        exact ⟨index, own, by simp [anyAsks, asks]⟩

-- While a batch is open nobody is called who was not asked.
theorem run_asked (c : Command) : ∀ s : Session, 0 < s.depth → Asked c (s.run c).2.heard := by
  refine Command.nested (P := fun c => ∀ s : Session, 0 < s.depth → Asked c (s.run c).2.heard) ?_ ?_ c
  · intro c single s batching
    rcases s.run_tells single with ⟨_, w, _, heard⟩ | ⟨_, asked⟩
    · have silent : (s.changed w).2 = [] :=
        congrArg Prod.snd (notify_open (s := { s with workspace := w }) batching)
      rw [heard, silent]
      exact asked_nothing c
    · exact asked
  · intro commands tolerate fail each s batching
    simp only [run_batch, Step.heard, aftermath, closeBatch_open batching, List.append_nil]
    exact runAll_asked (!tolerate) each _ (Nat.succ_pos _)

-- All the calls of one command: those of drivers it asked, then each listener once or nobody.
theorem run_calls (registered : s.Registered) (c : Command) :
    ∃ asked calls, (s.run c).2.heard = asked ++ calls ∧ Asked c asked ∧
      (s.depth = 0 ∧ s.tells c = true → List.Forall₂ (Hears (s.run c).1) (s.run c).1.listeners calls) ∧
      (¬(s.depth = 0 ∧ s.tells c = true) → calls = []) := by
  by_cases top : s.depth = 0
  swap
  · refine ⟨(s.run c).2.heard, [], (List.append_nil _).symm, run_asked c s (Nat.pos_of_ne_zero top), ?_⟩
    exact ⟨fun both => absurd both.1 top, fun _ => rfl⟩
  cases kind : c.isBatch with
  | false =>
    rcases s.run_tells kind with ⟨tells, w, after, heard⟩ | ⟨quiet, asked⟩
    · refine ⟨[], (s.run c).2.heard, rfl, asked_nothing c, fun _ => ?_, fun not => absurd ⟨top, tells⟩ not⟩
      rw [after, heard]
      exact notify_hears ⟨registered.handles, registered.drivers, registered.nodup⟩ top
    · refine ⟨(s.run c).2.heard, [], (List.append_nil _).symm, asked, fun both => ?_, fun _ => rfl⟩
      exact absurd both.2 (by simp [quiet])
  | true =>
    cases c with
    | batch commands tolerate fail =>
      have entered : Registered { s with depth := s.depth + 1 } :=
        ⟨registered.handles, registered.drivers, registered.nodup⟩
      have inner : (runAll { s with depth := s.depth + 1 } (!tolerate) commands).1.Registered :=
        runAll_registered _ (fun c _ => run_registered c) _ entered
      have asked : Asked (.batch commands tolerate fail)
          (heardAll (runAll { s with depth := s.depth + 1 } (!tolerate) commands).2.1) :=
        runAll_asked _ (fun c _ => run_asked c) _ (Nat.succ_pos _)
      simp only [tells, run_batch, Step.succeeded, Step.heard, aftermath]
      refine ⟨_, _, rfl, asked, ?_⟩
      generalize runAll { s with depth := s.depth + 1 } (!tolerate) commands = ran at inner ⊢
      constructor
      · intro both
        obtain ⟨committed, differs⟩ := Bool.and_eq_true_iff.mp both.2
        rw [committed] at differs ⊢
        rw [closeBatch_graph, Bool.not_eq_true'] at differs
        exact closeBatch_hears inner top differs
      · intro neither
        apply closeBatch_silent
        intro committed
        rw [committed, closeBatch_graph] at neither
        simpa [top] using neither
    | _ => cases kind

theorem run_relisted (registered : s.Registered) (c : Command) : (s.run c).1.listeners = s.relisted c := by
  cases c with
  | edit e =>
    rw [run, runEdit_eq]
    split
    · rfl
    · exact changed_listeners s _
  | load json =>
    rw [run, runLoad_eq]
    split
    · rfl
    · exact changed_listeners s _
  | replace commands =>
    rw [run_replace]
    exact changed_listeners s _
  | query q =>
    rw [run]
    cases q with
    | validate | roundTrip =>
      simp only [runQuery]
      split <;> rfl
    | _ => rfl
  | batch commands tolerate fail =>
    rw [run_batch]
    exact closeBatch_listeners _ s _
  | unsubscribe handle =>
    rw [run, runUnsubscribe]
    split
    · rfl
    · next unknown =>
      exact (List.erase_of_not_mem fun listed => unknown (registered.handles handle listed)).symm
  | regenerate index =>
    rw [run, withDriver]
    split
    · rfl
    · split
      · exact pass_listeners s index
      · rfl
  | driverSequence index =>
    rw [run, withDriver]
    split
    · rfl
    · split <;> rfl
  | detachDriver index =>
    rw [run, withDriver]
    split
    · next missing =>
      refine (List.erase_of_not_mem fun listed => ?_).symm
      simpa [missing] using registered.drivers index listed
    · next driver held =>
      split
      · rfl
      · next detached =>
        refine (List.erase_of_not_mem fun listed => detached ?_).symm
        simpa [held] using registered.drivers index listed
  | _ =>
    rw [run]
    rfl

theorem withDriver_basis (same : s.basis = t.basis) {index : Nat} {detached : Reply}
    {run run' : Driver → Session × Step}
    (runs : ∀ driver driver', (run driver).1.basis = (run' driver').1.basis ∧
      (run driver).2.succeeded = (run' driver').2.succeeded) :
    (s.withDriver index detached run).1.basis = (t.withDriver index detached run').1.basis ∧
      (s.withDriver index detached run).2.succeeded = (t.withDriver index detached run').2.succeeded := by
  have attached := attached_of_basis same index
  unfold withDriver
  cases held : s.drivers[index]? with
  | none =>
    rw [held] at attached
    rw [Option.map_eq_none_iff.mp attached.symm]
    exact ⟨same, rfl⟩
  | some driver =>
    rw [held] at attached
    obtain ⟨driver', held', agree⟩ := Option.map_eq_some_iff.mp attached.symm
    simp only [held', agree]
    split
    · exact runs driver driver'
    · exact ⟨same, rfl⟩

theorem reply_succeeded (s : Session) (r : Reply) : (s.reply r).2.succeeded = true := rfl

theorem runQuery_basis (same : s.basis = t.basis) (q : Query) :
    (s.runQuery q).1.basis = (t.runQuery q).1.basis ∧
      (s.runQuery q).2.succeeded = (t.runQuery q).2.succeeded := by
  have graph : s.graph = t.graph := congrArg Workspace.graph (workspace_of_basis same)
  cases q with
  | validate | roundTrip =>
    simp only [runQuery, graph]
    split <;> exact ⟨same, rfl⟩
  | _ => exact ⟨same, (s.reply_succeeded _).trans (t.reply_succeeded _).symm⟩

theorem changed_same (same : s.basis = t.basis) (w : Workspace) :
    (s.changed w).1.basis = (t.changed w).1.basis := by
  rw [changed_basis, changed_basis]
  exact congrArg (w, ·.2) same

-- How often drivers have passed, and how many batches are open, makes no difference.
theorem run_single_basis (same : s.basis = t.basis) {c : Command} (single : c.isBatch = false) :
    (s.run c).1.basis = (t.run c).1.basis ∧ (s.run c).2.succeeded = (t.run c).2.succeeded := by
  have workspace := workspace_of_basis same
  have listeners := listeners_of_basis same
  have observers := observers_of_basis same
  have flags : s.drivers.map (·.attached) = t.drivers.map (·.attached) := congrArg (·.2.2.2) same
  cases c with
  | batch => cases single
  | edit e =>
    rw [run, run, runEdit_eq, runEdit_eq, workspace]
    split
    · exact ⟨same, rfl⟩
    · exact ⟨changed_same same _, rfl⟩
  | load json =>
    rw [run, run, runLoad_eq, runLoad_eq, workspace]
    split
    · exact ⟨same, rfl⟩
    · exact ⟨changed_same same _, rfl⟩
  | replace commands =>
    rw [run_replace, run_replace, workspace]
    exact ⟨changed_same same _, rfl⟩
  | query q =>
    rw [run, run]
    exact runQuery_basis same q
  | subscribe =>
    rw [run, run]
    exact ⟨by simp [runSubscribe, reply, answer, basis, workspace, listeners, observers, flags], rfl⟩
  | unsubscribe handle =>
    rw [run, run, runUnsubscribe, runUnsubscribe, observers]
    split
    · exact ⟨by simp [reply, answer, basis, workspace, listeners, flags], rfl⟩
    · exact ⟨same, rfl⟩
  | attachDriver options sink =>
    have length := drivers_of_basis same
    rw [run, run]
    exact ⟨by simp [runAttach, reply, answer, basis, workspace, listeners, observers, length, flags], rfl⟩
  | regenerate index =>
    rw [run, run]
    refine withDriver_basis same fun _ _ => ⟨?_, rfl⟩
    exact (pass_basis s index).trans (same.trans (pass_basis t index).symm)
  | driverSequence index =>
    rw [run, run]
    exact withDriver_basis same fun _ _ => ⟨same, rfl⟩
  | detachDriver index =>
    rw [run, run]
    refine withDriver_basis same fun _ _ => ⟨?_, rfl⟩
    simp [runDetach, reply, answer, basis, workspace, listeners, observers, List.map_set, flags]
  | _ =>
    rw [run, run]
    exact ⟨same, rfl⟩

theorem runAll_basis {commands : List Command}
    (each : ∀ c ∈ commands, ∀ s t : Session, s.basis = t.basis →
      (s.run c).1.basis = (t.run c).1.basis ∧ (s.run c).2.succeeded = (t.run c).2.succeeded)
    (stopAtFailure : Bool) (s t : Session) (same : s.basis = t.basis) :
    (s.runAll stopAtFailure commands).1.basis = (t.runAll stopAtFailure commands).1.basis ∧
      (s.runAll stopAtFailure commands).2.2 = (t.runAll stopAtFailure commands).2.2 := by
  induction commands generalizing s t with
  | nil =>
    rw [runAll, runAll]
    exact ⟨same, rfl⟩
  | cons c rest ih =>
    rw [List.forall_mem_cons] at each
    obtain ⟨first, succeeded⟩ := each.1 s t same
    rw [runAll, runAll]
    simp only [succeeded]
    split
    · exact ⟨first, rfl⟩
    · exact ih each.2 _ _ first

theorem closeBatch_same {inner inner' : Session} (same : s.basis = t.basis)
    (within : inner.basis = inner'.basis) (committed : Bool) :
    (inner.closeBatch s committed).1.basis = (inner'.closeBatch t committed).1.basis := by
  have graph : s.graph = t.graph := congrArg Workspace.graph (workspace_of_basis same)
  rw [closeBatch_basis, closeBatch_basis, graph, within]
  split
  · rfl
  · exact congrArg (fun b => (({ b.1 with graph := t.graph } : Workspace), b.2)) within

theorem run_basis (c : Command) : ∀ s t : Session, s.basis = t.basis →
    (s.run c).1.basis = (t.run c).1.basis ∧ (s.run c).2.succeeded = (t.run c).2.succeeded := by
  refine Command.nested (P := fun c => ∀ s t : Session, s.basis = t.basis →
    (s.run c).1.basis = (t.run c).1.basis ∧ (s.run c).2.succeeded = (t.run c).2.succeeded) ?_ ?_ c
  · exact fun c single s t same => run_single_basis same single
  · intro commands tolerate fail each s t same
    obtain ⟨within, completed⟩ := runAll_basis each (!tolerate) { s with depth := s.depth + 1 }
      { t with depth := t.depth + 1 } same
    rw [run_batch, run_batch]
    simp only [Step.succeeded, completed]
    exact ⟨closeBatch_same same within _, trivial⟩

-- When nothing fails it is all one whether commands stop at failures.
theorem runAll_succeeds {commands : List Command} (s t : Session) (same : s.basis = t.basis)
    (succeed : ∀ step ∈ (s.runAll false commands).2.1, step.succeeded = true) (stopAtFailure : Bool) :
    (t.runAll stopAtFailure commands).1.basis = (s.runAll false commands).1.basis ∧
      (t.runAll stopAtFailure commands).2.2 = true := by
  induction commands generalizing s t with
  | nil =>
    rw [runAll, runAll]
    exact ⟨same.symm, rfl⟩
  | cons c rest ih =>
    obtain ⟨first, agree⟩ := run_basis c s t same
    rw [runAll] at succeed ⊢
    simp only [Bool.false_and, Bool.false_eq_true, if_false, List.forall_mem_cons] at succeed ⊢
    rw [runAll]
    simp only [← agree, succeed.1, Bool.not_true, Bool.and_false, Bool.false_eq_true, if_false]
    exact ih _ _ first succeed.2

theorem batch_workspace (s : Session) {commands : List Command} (tolerate : Bool)
    (succeed : ∀ step ∈ (s.runAll false commands).2.1, step.succeeded = true) :
    (s.run (.batch commands tolerate false)).2.succeeded = true ∧
      (s.run (.batch commands tolerate false)).1.workspace = (s.runAll false commands).1.workspace := by
  obtain ⟨within, completed⟩ := runAll_succeeds s { s with depth := s.depth + 1 } rfl succeed (!tolerate)
  rw [run_batch]
  simp only [Step.succeeded, completed, Bool.not_false, Bool.and_true, true_and]
  exact (workspace_of_basis (closeBatch_basis _ s true)).trans (workspace_of_basis within)

theorem listeners_called_once_per_change {s : Session} (occurs : s.Occurs) (c : Command) :
    let ran := s.run c
    (ran.1.listeners = s.relisted c ∧ ran.1.listeners.Nodup) ∧
    (∃ asked calls, ran.2.heard = asked ++ calls ∧
      (∀ event ∈ asked, ∃ index, event.driver? = some index ∧ c.asks index = true) ∧
      (s.depth = 0 ∧ s.tells c = true → List.Forall₂ (Hears ran.1) ran.1.listeners calls) ∧
      (¬(s.depth = 0 ∧ s.tells c = true) → calls = [])) ∧
    ∀ (commands : List Command) (tolerate : Bool),
      (∀ step ∈ (s.runAll false commands).2.1, step.succeeded = true) →
      (s.run (.batch commands tolerate false)).2.succeeded = true ∧
        (s.run (.batch commands tolerate false)).1.workspace = (s.runAll false commands).1.workspace := by
  intro ran
  have registered := occurs.registered
  exact ⟨⟨run_relisted registered c, (run_registered c s registered).nodup⟩, run_calls registered c,
    fun commands tolerate succeed => batch_workspace s tolerate succeed⟩

-- Two observers, of whom one leaves while the batch is open. An inner batch is given up, and the
-- outer one goes on.
theorem tolerant_batch_called_once :
    let s := ((({} : Session).run .subscribe).1.run .subscribe).1
    let c : Command := .batch [.edit (.addBlock .print),
      .batch [.edit .clear, .edit (.detach ⟨"b9"⟩)] false false, .unsubscribe 0] true false
    let ran := s.run c
    let edits : List Command := [.edit (.addBlock .print), .batch [.edit (.addBlock .number)] false false]
    (s.Occurs ∧ s.depth = 0 ∧ s.tells c = true ∧ ran.1.listeners = [.observer 1] ∧ ran.2.heard.length = 1) ∧
    ((ran.1.listeners = s.relisted c ∧ ran.1.listeners.Nodup) ∧
    ∃ asked calls, ran.2.heard = asked ++ calls ∧
      (∀ event ∈ asked, ∃ index, event.driver? = some index ∧ c.asks index = true) ∧
      (s.depth = 0 ∧ s.tells c = true → List.Forall₂ (Hears ran.1) ran.1.listeners calls) ∧
      (¬(s.depth = 0 ∧ s.tells c = true) → calls = [])) ∧
    (∀ step ∈ (s.runAll false edits).2.1, step.succeeded = true) ∧
    (s.run (.batch edits false false)).2.succeeded = true ∧
      (s.run (.batch edits false false)).1.workspace = (s.runAll false edits).1.workspace :=
  have occurs : ((({} : Session).run .subscribe).1.run .subscribe).1.Occurs :=
    .run (.run .start .subscribe) .subscribe
  ⟨⟨occurs, by decide +kernel, by decide +kernel, by decide +kernel, by decide +kernel⟩,
    ⟨(listeners_called_once_per_change occurs _).1, (listeners_called_once_per_change occurs _).2.1⟩,
    by decide +kernel, (listeners_called_once_per_change occurs .subscribe).2.2 _ false (by decide +kernel)⟩

end Session
end Blockwork.Editing
