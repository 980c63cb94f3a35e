import Mathlib
import Blockwork.Proofs.Refusals

-- The ids that edits choose. One serial numbers blocks, variables and procedures;
-- a number that is in use is passed over, and no number comes up a second time,
-- whatever was deleted, given up or replaced since.
namespace Blockwork

inductive NewId where
  | ofBlock (id : BlockId)
  | ofVariable (id : VariableId)
  | ofProcedure (id : ProcedureId)
  deriving DecidableEq

def EditReply.newIds : EditReply → List NewId
  | .done => []
  | .block id => [.ofBlock id]
  | .variableMade id => [.ofVariable id]
  | .procedureMade id definition => [.ofProcedure id, .ofBlock definition]

-- The id is in use in its table.
def Graph.Has (g : Graph) : NewId → Prop
  | .ofBlock id => (g.block? id).isSome
  | .ofVariable id => (g.variableWith? id).isSome
  | .ofProcedure id => (g.procedureWith? id).isSome

-- The id was made from the number.
def NewId.Numbered : NewId → Nat → Prop
  | .ofBlock id, n => id = Workspace.blockName n
  | .ofVariable id, n => id = Workspace.variableName n
  | .ofProcedure id, n => id = Workspace.procedureName n

theorem NewId.Numbered.unique {id : NewId} {m n : Nat} (first : id.Numbered m) (second : id.Numbered n) :
    m = n := by
  cases id with
  | ofBlock id => exact Kind.prefixed_inj (congrArg BlockId.text (first.symm.trans second))
  | ofVariable id => exact Kind.prefixed_inj (congrArg VariableId.text (first.symm.trans second))
  | ofProcedure id => exact Kind.prefixed_inj (congrArg ProcedureId.text (first.symm.trans second))

-- The search for a free number, one number after another. It has an end only where a
-- free number comes.
inductive Search (taken : Nat → Bool) : Nat → Nat → Prop where
  | found {n : Nat} (free : taken (n + 1) = false) : Search taken n (n + 1)
  | further {n last : Nat} (busy : taken (n + 1) = true) (rest : Search taken (n + 1) last) :
      Search taken n last

theorem Search.lt {taken : Nat → Bool} {n last : Nat} (search : Search taken n last) : n < last := by
  induction search with
  | found free => exact Nat.lt_succ_self _
  | further busy rest ih => exact Nat.lt_trans (Nat.lt_succ_self _) ih

theorem Search.free {taken : Nat → Bool} {n last : Nat} (search : Search taken n last) :
    taken last = false := by
  induction search with
  | found free => exact free
  | further busy rest ih => exact ih

theorem firstFree_search {taken : Nat → Bool} {tries n : Nat}
    (free : taken (firstFree taken tries (n + 1)) = false) :
    Search taken n (firstFree taken tries (n + 1)) := by
  induction tries generalizing n with
  | zero => exact .found free
  | succ tries ih =>
    rw [firstFree] at free ⊢
    cases busy : taken (n + 1) with
    | false => exact .found busy
    | true =>
      simp only [busy, if_true] at free ⊢
      exact .further busy (ih free)

namespace Workspace

def blockTaken (g : Graph) (n : Nat) : Bool := g.hasBlock (blockName n)
def variableTaken (g : Graph) (n : Nat) : Bool := (g.variableWith? (variableName n)).isSome
def procedureTaken (g : Graph) (n : Nat) : Bool := (g.procedureWith? (procedureName n)).isSome

theorem blockSerial_search (g : Graph) (serial : Nat) :
    Search (blockTaken g) serial (blockSerial g serial) := by
  have free : blockTaken g (blockSerial g serial) = false := by
    rw [blockTaken, Graph.hasBlock_eq, Graph.blockSerial_free]
    rfl
  exact firstFree_search free

theorem variableSerial_search (g : Graph) (serial : Nat) :
    Search (variableTaken g) serial (variableSerial g serial) := by
  have free : variableTaken g (variableSerial g serial) = false := by
    rw [variableTaken, Graph.variableSerial_free]
    rfl
  exact firstFree_search free

theorem procedureSerial_search (g : Graph) (serial : Nat) :
    Search (procedureTaken g) serial (procedureSerial g serial) := by
  have free : procedureTaken g (procedureSerial g serial) = false := by
    rw [procedureTaken, Graph.procedureSerial_free]
    rfl
  exact firstFree_search free

-- How an accepted edit comes to its ids, and the serial that it leaves.
inductive Chooses (w : Workspace) : EditReply → Nat → Prop where
  | none : Chooses w .done w.serial
  | block {n : Nat} (search : Search (blockTaken w.graph) w.serial n) :
      Chooses w (.block (blockName n)) n
  | variableMade {n : Nat} (search : Search (variableTaken w.graph) w.serial n) :
      Chooses w (.variableMade (variableName n)) n
  | procedureMade {m n : Nat} (first : Search (procedureTaken w.graph) w.serial m)
      (second : Search (blockTaken w.graph) m n) :
      Chooses w (.procedureMade (procedureName m) (blockName n)) n

theorem keepSerial_done {w w' : Workspace} {change : Change EditError Graph Unit} {reply : EditReply}
    (kept : w.make (.keepSerial change) = .ok (w', reply)) : reply = .done ∧ w'.serial = w.serial := by
  obtain ⟨g, _, same⟩ := keepSerial_iff.mp kept
  cases same
  exact ⟨rfl, rfl⟩

-- Three edits choose ids, and put them to use.
theorem apply_chooses {w w' : Workspace} {e : Edit} {reply : EditReply}
    (edited : w.apply e = .ok (w', reply)) :
    w.Chooses reply w'.serial ∧ ∀ id ∈ reply.newIds, w'.graph.Has id := by
  cases e with
  | addBlock kind =>
    cases free : kind.isDefinition with
    | true => simp [apply_addBlock, free] at edited
    | false =>
      simp only [apply_addBlock, free, Bool.false_eq_true, if_false, Except.ok.injEq,
        Prod.mk.injEq] at edited
      obtain ⟨rfl, rfl⟩ := edited
      refine ⟨.block (blockSerial_search _ _), fun id chosen => ?_⟩
      rw [List.mem_singleton.mp chosen]
      simp [Graph.Has]
  | createVariable name =>
    rw [apply_createVariable] at edited
    obtain ⟨⟨made, id⟩, step, same⟩ := map_eq_ok.mp edited
    obtain ⟨name', _, added⟩ := makeVariable_iff.mp step
    cases same
    cases added
    refine ⟨.variableMade (variableSerial_search _ _), fun id chosen => ?_⟩
    rw [List.mem_singleton.mp chosen]
    exact Graph.variableWith?_isSome.mpr ⟨_, List.mem_append_right _ (List.mem_singleton_self _), rfl⟩
  | createProcedure name params returns =>
    rw [apply_createProcedure] at edited
    obtain ⟨name', _, same⟩ := map_eq_ok.mp edited
    cases same
    refine ⟨.procedureMade (procedureSerial_search _ _) (blockSerial_search _ _), fun id chosen => ?_⟩
    rcases List.mem_cons.mp chosen with rfl | chosen
    · simp [Graph.Has, Graph.procedureWith?, Graph.addProcedure]
    · rw [List.mem_singleton.mp chosen]
      exact Option.isSome_iff_exists.mpr ⟨_, (Graph.block?_addRoot _ _ _).trans (if_pos rfl)⟩
  | _ =>
    obtain ⟨rfl, same⟩ := keepSerial_done edited
    rw [same]
    exact ⟨.none, fun id chosen => absurd chosen List.not_mem_nil⟩

-- Ids are free before the edit that chooses them.
theorem Chooses.free {w : Workspace} {reply : EditReply} {serial : Nat} (chooses : w.Chooses reply serial)
    {id : NewId} (chosen : id ∈ reply.newIds) : ¬w.graph.Has id := by
  have block : ∀ {m n}, Search (blockTaken w.graph) m n → ¬w.graph.Has (.ofBlock (blockName n)) :=
    fun search => Bool.eq_false_iff.mp search.free
  cases chooses with
  | none => cases chosen
  | block search =>
    rw [List.mem_singleton.mp chosen]
    exact block search
  | variableMade search =>
    rw [List.mem_singleton.mp chosen]
    exact Bool.eq_false_iff.mp search.free
  | procedureMade first second =>
    rcases List.mem_cons.mp chosen with rfl | chosen
    · exact Bool.eq_false_iff.mp first.free
    · rw [List.mem_singleton.mp chosen]
      exact block second

end Workspace

-- The numbers of the ids grow, from above one serial up to another.
inductive Ascends : Nat → List NewId → Nat → Prop where
  | rest {low high : Nat} (le : low ≤ high) : Ascends low [] high
  | next {low n high : Nat} {id : NewId} {ids : List NewId} (lt : low < n) (numbered : id.Numbered n)
      (later : Ascends n ids high) : Ascends low (id :: ids) high

namespace Ascends

theorem le {low high : Nat} {ids : List NewId} (ascends : Ascends low ids high) : low ≤ high := by
  induction ascends with
  | rest le => exact le
  | next lt _ _ ih => exact Nat.le_trans (Nat.le_of_lt lt) ih

theorem from_below {low mid high : Nat} {ids : List NewId} (le : low ≤ mid)
    (later : Ascends mid ids high) : Ascends low ids high := by
  cases later with
  | rest le' => exact .rest (Nat.le_trans le le')
  | next lt numbered later => exact .next (Nat.lt_of_le_of_lt le lt) numbered later

theorem append {low mid high : Nat} {first second : List NewId} (lower : Ascends low first mid)
    (upper : Ascends mid second high) : Ascends low (first ++ second) high := by
  induction lower with
  | rest le => exact upper.from_below le
  | next lt numbered _ ih => exact .next lt numbered (ih upper)

theorem above {low high : Nat} {ids : List NewId} (ascends : Ascends low ids high) {id : NewId}
    (listed : id ∈ ids) : ∃ n, id.Numbered n ∧ low < n := by
  induction ascends with
  | rest => cases listed
  | next lt numbered _ ih =>
    rcases List.mem_cons.mp listed with rfl | listed
    · exact ⟨_, numbered, lt⟩
    · obtain ⟨n, numbered', later⟩ := ih listed
      exact ⟨n, numbered', Nat.lt_trans lt later⟩

theorem nodup {low high : Nat} {ids : List NewId} (ascends : Ascends low ids high) : ids.Nodup := by
  induction ascends with
  | rest => exact List.nodup_nil
  | next lt numbered later ih =>
    refine List.nodup_cons.mpr ⟨fun again => ?_, ih⟩
    obtain ⟨n, numbered', beyond⟩ := later.above again
    exact Nat.lt_irrefl _ (numbered.unique numbered' ▸ beyond)

end Ascends

namespace Workspace

theorem Chooses.ascends {w : Workspace} {reply : EditReply} {serial : Nat}
    (chooses : w.Chooses reply serial) : Ascends w.serial reply.newIds serial := by
  cases chooses with
  | none => exact .rest (Nat.le_refl _)
  | block search => exact .next search.lt rfl (.rest (Nat.le_refl _))
  | variableMade search => exact .next search.lt rfl (.rest (Nat.le_refl _))
  | procedureMade first second =>
    exact .next first.lt rfl (.next second.lt rfl (.rest (Nat.le_refl _)))

-- Nothing takes the serial back: not giving up a batch, and not another graph.
theorem Steps.serial_le {v w : Workspace} (steps : Steps v w) : v.serial ≤ w.serial := by
  induction steps with
  | done => exact Nat.le_refl _
  | edit _ made ih => exact Nat.le_trans ih (apply_chooses made).1.ascends.le
  | replace _ _ ih => exact Nat.le_trans ih (Nat.le_max_left _ _)
  | load _ _ ih => exact Nat.le_trans ih (Nat.le_max_left _ _)
  | abandon _ _ ih batch => exact Nat.le_trans ih batch

end Workspace

namespace Editing

mutual

-- The ids that a step reports. What is put in place by `replaced` was made elsewhere, and so were
-- the ids of its steps.
def Step.newIds : Step → List NewId
  | .single (.ok (.edited reply)) _ => reply.newIds
  | .single _ _ => []
  | .batch _ steps _ => newIdsAll steps
  | .replaced _ _ => []

def newIdsAll : List Step → List NewId
  | [] => []
  | step :: rest => step.newIds ++ newIdsAll rest

end

-- An edit that was accepted, with the workspaces around it.
structure Accepted where
  before : Workspace
  edit : Edit
  reply : EditReply
  after : Workspace
  made : before.apply edit = .ok (after, reply)

namespace Session

mutual

-- The edits of a command that are accepted by the graph of the session, in order, also those of
-- batches that are given up.
def accepted (s : Session) : Command → List Accepted
  | .edit e =>
    match made : s.workspace.apply e with
    | .ok (after, reply) => [⟨s.workspace, e, reply, after, made⟩]
    | .error _ => []
  | .batch commands tolerate _ => acceptedAll { s with depth := s.depth + 1 } (!tolerate) commands
  | _ => []

def acceptedAll (s : Session) (stopAtFailure : Bool) : List Command → List Accepted
  | [] => []
  | command :: rest =>
    s.accepted command ++
      if stopAtFailure && !(s.run command).2.succeeded then []
      else acceptedAll (s.run command).1 stopAtFailure rest

end

-- Single commands other than edits report no ids.
theorem withDriver_newIds {s : Session} {index : Nat} {detached : Reply} {run : Driver → Session × Step}
    (other : (s.reply detached).2.newIds = []) (none : ∀ driver, (run driver).2.newIds = []) :
    (s.withDriver index detached run).2.newIds = [] := by
  unfold withDriver
  split
  · rfl
  · split
    · exact none _
    · exact other

theorem run_newIds {s : Session} {c : Command} (single : c.isBatch = false)
    (other : ∀ e, c ≠ .edit e) : (s.run c).2.newIds = [] := by
  cases c with
  | edit e => exact absurd rfl (other e)
  | batch => cases single
  | load json =>
    rw [run, runLoad_eq]
    split <;> rfl
  | query q =>
    rw [run]
    unfold runQuery
    split <;> first | rfl | (split <;> rfl)
  | unsubscribe handle =>
    rw [run, runUnsubscribe]
    split <;> rfl
  | regenerate index | driverSequence index | detachDriver index =>
    rw [run]
    exact withDriver_newIds rfl fun _ => rfl
  | _ =>
    rw [run]
    rfl

theorem closeBatch_serial (inner s : Session) (committed : Bool) :
    (inner.closeBatch s committed).1.workspace.serial = inner.workspace.serial := by
  unfold closeBatch
  cases committed with
  | true =>
    simp only [if_true]
    split
    · rfl
    · rw [notify_workspace]
  | false => rfl

-- The steps report the ids that the accepted edits chose, and these take the serial from where it
-- was to where it is.
structure Accounts (before : Nat) (made : List Accepted) (ids : List NewId) (after : Nat) : Prop where
  reported : made.flatMap (·.reply.newIds) = ids
  ascends : Ascends before ids after

theorem edit_accounts (s : Session) (e : Edit) : Accounts s.workspace.serial (s.accepted (.edit e))
    (s.run (.edit e)).2.newIds (s.run (.edit e)).1.workspace.serial := by
  rw [accepted, run, runEdit_eq]
  split
  · next after reply made =>
    simp only [made]
    refine ⟨List.append_nil _, ?_⟩
    simp only [answer, changed_workspace]
    exact (Workspace.apply_chooses made).1.ascends
  · next error refused =>
    simp only [refused]
    exact ⟨rfl, .rest (Nat.le_refl _)⟩

theorem runAll_accounts {commands : List Command} (stopAtFailure : Bool)
    (each : ∀ c ∈ commands, ∀ s : Session,
      Accounts s.workspace.serial (s.accepted c) (s.run c).2.newIds (s.run c).1.workspace.serial)
    (s : Session) : Accounts s.workspace.serial (s.acceptedAll stopAtFailure commands)
      (newIdsAll (s.runAll stopAtFailure commands).2.1)
      (s.runAll stopAtFailure commands).1.workspace.serial := by
  induction commands generalizing s with
  | nil =>
    rw [acceptedAll, runAll]
    exact ⟨rfl, .rest (Nat.le_refl _)⟩
  | cons c rest ih =>
    rw [List.forall_mem_cons] at each
    have first := each.1 s
    rw [acceptedAll, runAll]
    simp only
    split
    · simp only [newIdsAll, List.append_nil]
      exact first
    · have later := ih each.2 (s.run c).1
      simp only [newIdsAll]
      refine ⟨?_, first.ascends.append later.ascends⟩
      rw [List.flatMap_append, first.reported, later.reported]

theorem run_accounts (c : Command) : ∀ s : Session,
    Accounts s.workspace.serial (s.accepted c) (s.run c).2.newIds (s.run c).1.workspace.serial := by
  refine Command.nested (P := fun c => ∀ s : Session, Accounts s.workspace.serial (s.accepted c)
    (s.run c).2.newIds (s.run c).1.workspace.serial) ?_ ?_ c
  · intro c single s
    by_cases edits : ∃ e, c = .edit e
    · obtain ⟨e, rfl⟩ := edits
      exact s.edit_accounts e
    · have other : ∀ e, c ≠ .edit e := fun e same => edits ⟨e, same⟩
      have none : s.accepted c = [] := by
        cases c with
        | edit e => exact absurd rfl (other e)
        | batch => cases single
        | _ => simp [accepted]
      rw [none, run_newIds single other]
      exact ⟨rfl, .rest (s.run_steps c).serial_le⟩
  · intro commands tolerate fail each s
    rw [run_batch, accepted]
    simp only [Step.newIds, closeBatch_serial]
    exact runAll_accounts (!tolerate) each { s with depth := s.depth + 1 }

-- An id is free when it is chosen, the search that leads to it comes to an end, and in the whole
-- run it is chosen once: numbers that were used inside a batch stay used when the batch is given
-- up, and whatever graph takes the place of another one.
theorem new_ids_free_and_unrepeated (s : Session) (stopAtFailure : Bool) (commands : List Command) :
    let made := s.acceptedAll stopAtFailure commands
    let ids := newIdsAll (s.runAll stopAtFailure commands).2.1
    made.flatMap (·.reply.newIds) = ids ∧ ids.Nodup ∧
      (∀ a ∈ made, a.before.Chooses a.reply a.after.serial ∧
        ∀ id ∈ a.reply.newIds, ¬a.before.graph.Has id ∧ a.after.graph.Has id) ∧
      ∀ w : Workspace, (∃ n, Search (Workspace.blockTaken w.graph) w.serial n) ∧
        (∃ n, Search (Workspace.variableTaken w.graph) w.serial n) ∧
        ∃ n, Search (Workspace.procedureTaken w.graph) w.serial n := by
  have accounts := runAll_accounts stopAtFailure (fun c (_ : c ∈ commands) => run_accounts c) s
  refine ⟨accounts.reported, accounts.ascends.nodup, fun a _ => ?_, fun w => ?_⟩
  · obtain ⟨chooses, used⟩ := Workspace.apply_chooses a.made
    exact ⟨chooses, fun id chosen => ⟨chooses.free chosen, used id chosen⟩⟩
  · exact ⟨⟨_, Workspace.blockSerial_search _ _⟩, ⟨_, Workspace.variableSerial_search _ _⟩,
      _, Workspace.procedureSerial_search _ _⟩

-- An id of somebody else's choice is passed over, and neither the deleted block nor the one of the
-- abandoned batch leaves its number behind; the graph that is put in place brings a higher serial.
theorem numbers_passed_over_unrepeated :
    let commands : List Command :=
      [.edit (.addBlockAs ⟨"b2"⟩ .print), .edit (.addBlock .number), .edit (.deleteTree ⟨"b1"⟩),
        .batch [.edit (.addBlock .text), .edit (.detach ⟨"b3"⟩)] false false,
        .replace [.edit (.addBlock .text), .edit (.addBlockAs ⟨"b7"⟩ .text), .edit (.createVariable "x"),
          .edit (.addBlock .text), .edit (.addBlock .text), .edit (.addBlock .text)],
        .edit (.createProcedure "f" [⟨"v2"⟩] true), .edit .clear, .edit (.createVariable "x")]
    let made := acceptedAll {} false commands
    let ids := newIdsAll (runAll {} false commands).2.1
    ids = [.ofBlock ⟨"b1"⟩, .ofBlock ⟨"b3"⟩, .ofProcedure ⟨"p6"⟩, .ofBlock ⟨"b8"⟩, .ofVariable ⟨"v9"⟩] ∧
      made.flatMap (·.reply.newIds) = ids ∧ ids.Nodup ∧
      (∀ a ∈ made, a.before.Chooses a.reply a.after.serial ∧
        ∀ id ∈ a.reply.newIds, ¬a.before.graph.Has id ∧ a.after.graph.Has id) ∧
      ∀ w : Workspace, (∃ n, Search (Workspace.blockTaken w.graph) w.serial n) ∧
        (∃ n, Search (Workspace.variableTaken w.graph) w.serial n) ∧
        ∃ n, Search (Workspace.procedureTaken w.graph) w.serial n :=
  ⟨by decide +kernel, new_ids_free_and_unrepeated {} false _⟩

end Session
end Editing
end Blockwork
