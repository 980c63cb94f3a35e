import Mathlib
import Blockwork.Proofs.Walks
import Blockwork.Proofs.WantedImports

-- A pass of generation that is watched. It takes the same rules through the same blocks, but it
-- knows which blocks it has seen and how many loops are open, keeps a log of what it renders, and
-- reports where the graph lets it down. On a graph that keeps its rules there is nothing to report,
-- and what comes out is the program.
namespace Blockwork.Generation

open Python

-- Where a pass would have to make do with less.
inductive Fault where
  | again (id : BlockId)
  | dangling (link : ParentLink)
  | valueless (link : ParentLink)
  | nameless (id : BlockId) (value : FieldValue)
  | unbound (id : BlockId)
  | undefined (id : ProcedureId)
  deriving DecidableEq

-- A block as it was rendered: the links that led to it from its root, the number of open loops
-- before and after it, and what it contributed.
structure Rendered where
  id : BlockId
  trail : List ParentLink
  before : Nat
  after : Nat
  code : Code

structure Watch where
  pass : PassState
  seen : List BlockId
  depth : Nat
  log : List Rendered
  faults : List Fault

abbrev Watched := StateM Watch

def plainly {α : Type} (action : Pass α) : Watched α := do
  let w ← get
  let (a, s) := action.run w.pass
  set { w with pass := s }
  return a

def report (faults : List Fault) : Watched Unit := modify fun w => { w with faults := w.faults ++ faults }

def hasName (names : NameTable) : FieldValue → Bool
  | .variableRef v => (names.variableName? v).isSome
  | .procedureRef p => (names.procedureName? p).isSome
  | _ => true

def namelessAmong (names : NameTable) (id : BlockId) (values : List FieldValue) : List Fault :=
  (values.filter fun value => !hasName names value).map (.nameless id)

-- Renders a block unless it was seen before. The log has it before all that is below it.
def enter (trail : List ParentLink) (block : Block) (work : Watched Code) : Watched Code := do
  let before ← get
  if block.id ∈ before.seen then
    report [.again block.id]
    return .nothing
  else
    set { before with
      seen := before.seen ++ [block.id]
      log := []
      faults := before.faults ++ namelessAmong before.pass.names block.id block.fields.values }
    let code ← work
    modify fun after => { after with
      log := before.log ++ ⟨block.id, trail, before.depth, after.depth, code⟩ :: after.log }
    return code

structure Watching where
  code : Watched Code
  chain : Watched Chain

-- A loop is open in its body and nowhere else.
def deepens (block : Block) (place : Place) : Nat :=
  if block.kind.isLoop ∧ place = .body "DO" then 1 else 0

def missing (block : Block) (place : Place) : Watched Unit :=
  report (if (block.held place).isSome then [.dangling ⟨block.id, place⟩] else [])

def watchValue (block : Block) (below : List (Place × Watching)) (slot : String) : Watched (Option Expr) :=
  match below.lookup (.input slot) with
  | none => do
    missing block (.input slot)
    return none
  | some child => do
    match ← child.code with
    | .expression e => return some e
    | _ =>
      report [.valueless ⟨block.id, .input slot⟩]
      return none

def watchChain (block : Block) (below : List (Place × Watching)) (place : Place) : Watched Chain :=
  match below.lookup place with
  | none => do
    missing block place
    return .empty
  | some child => do
    modify fun w => { w with depth := w.depth + deepens block place }
    let chain ← child.chain
    modify fun w => { w with depth := w.depth - deepens block place }
    return chain

def watchService (block : Block) (below : List (Place × Watching)) : Service Watched :=
  ⟨plainly, watchValue block below, fun place _ => watchChain block below place⟩

mutual

def watchTree (trail : List ParentLink) : Tree → Watching
  | .node block branches =>
    let below := watchBranches trail block.id branches
    let code := enter trail block do
      let w ← get
      (ruleAsking block (decide (0 < w.depth))).serve (watchService block below)
    { code := code
      chain := do
        let code ← code
        let rest ← watchChain block below .next
        return (code.toChain block.kind).append rest }

def watchBranches (trail : List ParentLink) (id : BlockId) : List (Place × Tree) → List (Place × Watching)
  | [] => []
  | (place, tree) :: rest => (place, watchTree (trail ++ [⟨id, place⟩]) tree) :: watchBranches trail id rest

end

def watchFunction (procedure : Procedure) (definition : Block) (below : List (Place × Watching)) : Watched Unit := do
  let lines ← (functionAsking procedure definition).serve (watchService definition below)
  plainly (addFunction ("%procedure%" ++ procedure.id.text) lines)

-- No loop around a definition is open in its function.
def watchDefinition (g : Graph) : Tree → Watched Unit
  | .node block branches =>
    match (block.procedureIn? "NAME").bind g.procedureWith? with
    | none => report [.unbound block.id]
    | some procedure => discard <| enter [] block do
      let w ← get
      report (namelessAmong w.pass.names block.id (procedure.params.map .variableRef))
      modify fun inside => { inside with depth := 0 }
      watchFunction procedure block (watchBranches [] block.id branches)
      modify fun after => { after with depth := w.depth }
      return .nothing

def watchProcedure (g : Graph) (procedure : Procedure) : Watched Unit :=
  match g.tree? procedure.definition with
  | none => report [.undefined procedure.id]
  | some tree => watchDefinition g tree

def watchProgram (g : Graph) : Watched (List (List Line)) := do
  let chains ← (mainTrees g).mapM fun tree => (watchTree [] tree).chain
  g.procedures.forM (watchProcedure g)
  return (chains.map (·.lines)).filter (!·.isEmpty)

def Watch.start (g : Graph) : Watch := ⟨.start g (reservedIn g), [], 0, [], []⟩

def watch (g : Graph) : List (List Line) × Watch := (watchProgram g).run (.start g)

-- The state when a watched pass has gone on to a state of a plain one, with no fault.
def Watch.after (w : Watch) (s : PassState) (new : List Rendered) : Watch :=
  { w with pass := s, seen := w.seen ++ new.map (·.id), log := w.log ++ new }

theorem Watch.after_nil (w : Watch) : w.after w.pass [] = w := by
  rw [Watch.after, List.map_nil, List.append_nil, List.append_nil]

theorem Watch.after_after (w : Watch) (s t : PassState) (first second : List Rendered) :
    (w.after s first).after t second = w.after t (first ++ second) := by
  simp only [Watch.after, List.map_append, List.append_assoc]

-- What is given or imported at one point of a pass still is at a later one.
structure Since (s t : PassState) : Prop where
  names : Keeps s.names t.names
  imports : s.preamble.imports ⊆ t.preamble.imports

theorem Since.refl (s : PassState) : Since s s := ⟨.refl _, fun _ listed => listed⟩

theorem Since.trans {s t u : PassState} (first : Since s t) (second : Since t u) : Since s u :=
  ⟨first.names.trans second.names, fun _ listed => second.imports (first.imports listed)⟩

-- What was rendered came of the rule of its block, at an earlier point of the pass.
inductive Rendered.Stems (g : Graph) (t : PassState) (r : Rendered) : Prop where
  | of {block branches inLoop s counters} (full : g.Full (.node block branches)) (own : block.id = r.id)
    (accountable : Accountable g s counters)
    (code : r.code = ((rule block (renderBranches branches) inLoop).run s).1)
    (since : Since ((rule block (renderBranches branches) inLoop).run s).2 t)

def Rendered.Wants (g : Graph) (line : String) (r : Rendered) : Prop :=
  ∃ block, g.block? r.id = some block ∧ line ∈ wants block

-- A stretch of a pass and what was rendered on it. What is new among the imports is on the list, or
-- a block that was rendered wants it.
structure Traced (g : Graph) (lines : List String) (s t : PassState) (new : List Rendered) : Prop where
  accountable : ∃ counters, Accountable g t counters
  since : Since s t
  imports : ∀ line ∈ t.preamble.imports, line ∈ s.preamble.imports ∨ line ∈ lines ∨ ∃ r ∈ new, r.Wants g line
  stems : ∀ r ∈ new, r.Stems g t

section
variable {g : Graph} {lines more : List String} {s t u : PassState} {new new' : List Rendered}

theorem Rendered.Stems.later {r : Rendered} (stems : r.Stems g t) (since : Since t u) : r.Stems g u := by
  cases stems with
  | of full own accountable code earlier => exact .of full own accountable code (earlier.trans since)

theorem Traced.refl (accountable : ∃ counters, Accountable g s counters) : Traced g lines s s [] :=
  ⟨accountable, .refl s, fun _ => .inl, fun _ listed => by cases listed⟩

theorem Traced.trans (first : Traced g lines s t new) (second : Traced g lines t u new') :
    Traced g lines s u (new ++ new') := by
  refine ⟨second.accountable, first.since.trans second.since, fun line listed => ?_, fun r listed => ?_⟩
  · rcases second.imports line listed with early | own | ⟨r, member, wants⟩
    · rcases first.imports line early with early | own | ⟨r, member, wants⟩
      · exact .inl early
      · exact .inr (.inl own)
      · exact .inr (.inr ⟨r, List.mem_append_left _ member, wants⟩)
    · exact .inr (.inl own)
    · exact .inr (.inr ⟨r, List.mem_append_right _ member, wants⟩)
  · rcases List.mem_append.mp listed with early | late
    · exact (first.stems r early).later second.since
    · exact second.stems r late

theorem Traced.widen (traced : Traced g [] s t new) : Traced g lines s t new := by
  refine ⟨traced.accountable, traced.since, fun line listed => ?_, traced.stems⟩
  rcases traced.imports line listed with early | own | wanted
  · exact .inl early
  · cases own
  · exact .inr (.inr wanted)

-- The block whose rule it was is rendered too, and answers for the list.
theorem Traced.cons (traced : Traced g lines s t new) {r : Rendered} (wanted : ∀ line ∈ lines, r.Wants g line)
    (stems : r.Stems g t) : Traced g [] s t (r :: new) := by
  refine ⟨traced.accountable, traced.since, fun line listed => ?_, List.forall_mem_cons.mpr ⟨stems, traced.stems⟩⟩
  rcases traced.imports line listed with early | own | ⟨r, member, wants⟩
  · exact .inl early
  · exact .inr (.inr ⟨r, List.mem_cons_self, wanted line own⟩)
  · exact .inr (.inr ⟨r, List.mem_cons_of_mem _ member, wants⟩)

theorem Hoists.traced {α : Type} {action : Pass α} (hoists : Hoists g lines action)
    (accountable : ∃ counters, Accountable g s counters) : Traced g lines s (action.run s).2 [] := by
  obtain ⟨counters, accountable⟩ := accountable
  obtain ⟨more, final, later, _⟩ := hoists.accounts s counters accountable fun _ _ => trivial
  refine ⟨⟨more, final⟩, ⟨later.names, later.imports⟩, fun line listed => ?_, fun _ listed => by cases listed⟩
  exact (hoists.adds s line listed).imp_right .inl

end

-- The watched action does what the plain one does, and adds to the log what is told.
def Follows {α : Type} (g : Graph) (lines : List String) (act : Watched α) (plain : Pass α) (w : Watch)
    (told : List Rendered → Prop) : Prop :=
  ∃ new, told new ∧ Traced g lines w.pass (plain.run w.pass).2 new ∧
    act.run w = ((plain.run w.pass).1, w.after (plain.run w.pass).2 new)

section
variable {α β : Type} {g : Graph} {lines : List String} {w : Watch} {act : Watched α} {plain : Pass α}
  {told : List Rendered → Prop}

theorem Follows.weaken {told' : List Rendered → Prop} (follows : Follows g lines act plain w told)
    (weaker : ∀ new, told new → told' new) : Follows g lines act plain w told' :=
  follows.imp fun new => And.imp_left (weaker new)

theorem Follows.widen (follows : Follows g [] act plain w told) : Follows g lines act plain w told :=
  follows.imp fun _ => And.imp_right (And.imp_left Traced.widen)

theorem Follows.plainly (traced : Traced g lines w.pass (plain.run w.pass).2 []) (nothing : told []) :
    Follows g lines (plainly plain) plain w told := by
  refine ⟨[], nothing, traced, ?_⟩
  rw [Watch.after, List.map_nil, List.append_nil, List.append_nil]
  rfl

theorem Follows.pure (a : α) (accountable : ∃ counters, Accountable g w.pass counters) (nothing : told []) :
    Follows g lines (pure a) (pure a) w told := by
  refine ⟨[], nothing, .refl accountable, ?_⟩
  show (a, w) = (a, w.after w.pass [])
  rw [w.after_nil]

theorem Follows.bind {next : α → Watched β} {goesOn : α → Pass β} {more both : List Rendered → Prop}
    (first : Follows g lines act plain w told)
    (second : ∀ new, told new → Traced g lines w.pass (plain.run w.pass).2 new →
      Follows g lines (next (plain.run w.pass).1) (goesOn (plain.run w.pass).1)
        (w.after (plain.run w.pass).2 new) more)
    (joined : ∀ new new', told new → more new' → both (new ++ new')) :
    Follows g lines (act >>= next) (plain >>= goesOn) w both := by
  obtain ⟨new, fine, traced, runs⟩ := first
  obtain ⟨new', fine', traced', runs'⟩ := second new fine traced
  refine ⟨new ++ new', joined new new' fine fine', traced.trans traced', ?_⟩
  rw [StateT.run_bind, StateT.run_bind, runs]
  show (next _).run _ = _
  rw [runs', Watch.after_after]
  rfl

-- What comes after gives a result at once.
theorem Follows.finish (follows : Follows g lines act plain w told) {next : α → Watched β} {goesOn : α → Pass β}
    (ends : ∃ b, next (plain.run w.pass).1 = Pure.pure b ∧ goesOn (plain.run w.pass).1 = Pure.pure b) :
    Follows g lines (act >>= next) (plain >>= goesOn) w told := by
  obtain ⟨b, first, second⟩ := ends
  refine follows.bind (fun new _ traced => ?_) fun new more fine (nothing : more = []) => ?_
  · rw [first, second]
    exact .pure b traced.accountable rfl
  · rwa [nothing, List.append_nil]

end

-- How many loops are open at the end of a way, and whether the way leads through no input.
def opens (g : Graph) (link : ParentLink) : Nat := ((g.block? link.parent).map (deepens · link.place)).getD 0

def loops (g : Graph) (trail : List ParentLink) : Nat := (trail.map (opens g)).sum

theorem loops_step {g : Graph} {trail : List ParentLink} {id : BlockId} {block : Block} {place : Place}
    (found : g.block? id = some block) : loops g (trail ++ [⟨id, place⟩]) = loops g trail + deepens block place := by
  simp [loops, opens, found]

def stands (trail : List ParentLink) : Bool :=
  trail.all fun link => match link.place with
    | .input _ => false
    | _ => true

-- The blocks of a log that stand in chains, with the ways to them.
def standing (log : List Rendered) : List (BlockId × List ParentLink) :=
  (log.filter (stands ·.trail)).map fun r => (r.id, r.trail)

mutual

-- The same of a tree, in the order of its text.
def outlineTree (trail : List ParentLink) : Tree → List (BlockId × List ParentLink)
  | .node block branches =>
    let below := outlineBranches trail block.id branches
    (block.id, trail) :: (bodyPlaces block ++ [Place.next]).flatMap fun place => (below.lookup place).getD []

def outlineBranches (trail : List ParentLink) (id : BlockId) :
    List (Place × Tree) → List (Place × List (BlockId × List ParentLink))
  | [] => []
  | (place, tree) :: rest => (place, outlineTree (trail ++ [⟨id, place⟩]) tree) :: outlineBranches trail id rest

end

-- A block is rendered at its place in the graph, with as many loops open as its way has. A block
-- that leaves or continues a loop says so where there is one.
structure Rendered.Proper (g : Graph) (root : BlockId) (r : Rendered) : Prop where
  path : g.Path root r.trail r.id
  before : r.before = loops g r.trail
  after : r.after = r.before
  flow : ∀ block, g.block? r.id = some block → block.kind = .flow →
    r.code = .statement (flowLines block (decide (0 < loops g r.trail)))

structure Recorded (g : Graph) (root : BlockId) (trail : List ParentLink) (ids : List BlockId)
    (order : List (BlockId × List ParentLink)) (new : List Rendered) : Prop where
  within : (new.map (·.id)).Subperm ids
  ordered : stands trail = true → standing new = order
  each : ∀ r ∈ new, trail <+: r.trail ∧ r.Proper g root

section
variable {g : Graph} {root : BlockId} {trail : List ParentLink} {ids ids' : List BlockId}
  {order order' : List (BlockId × List ParentLink)} {new new' : List Rendered}

theorem Recorded.nothing : Recorded g root trail ids [] [] :=
  ⟨List.nil_subperm, fun _ => rfl, fun _ listed => by cases listed⟩

theorem standing_append (first second : List Rendered) :
    standing (first ++ second) = standing first ++ standing second := by
  rw [standing, List.filter_append, List.map_append]
  rfl

theorem Recorded.append (first : Recorded g root trail ids order new)
    (second : Recorded g root trail ids' order' new') :
    Recorded g root trail (ids ++ ids') (order ++ order') (new ++ new') where
  within := by
    rw [List.map_append]
    exact first.within.append second.within
  ordered upright := by rw [standing_append, first.ordered upright, second.ordered upright]
  each r listed := (List.mem_append.mp listed).elim (first.each r) (second.each r)

theorem Recorded.more (recorded : Recorded g root trail ids order new) (more : ids.Subperm ids') :
    Recorded g root trail ids' order new := ⟨recorded.within.trans more, recorded.ordered, recorded.each⟩

end

-- What a watched pass relies on at the end of a way.
structure Ready (g : Graph) (trail : List ParentLink) (w : Watch) : Prop where
  accountable : ∃ counters, Accountable g w.pass counters
  depth : w.depth = loops g trail

theorem Ready.names {g : Graph} {trail : List ParentLink} {w : Watch} (ready : Ready g trail w) :
    Keeps (.build g (reservedIn g)) w.pass.names := by
  obtain ⟨counters, accountable⟩ := ready.accountable
  exact accountable.visits.keeps

theorem Ready.after {g : Graph} {lines : List String} {trail : List ParentLink} {w : Watch} (ready : Ready g trail w)
    {s : PassState} {new : List Rendered} (traced : Traced g lines w.pass s new) : Ready g trail (w.after s new) :=
  ⟨traced.accountable, ready.depth⟩

def Fresh (ids : List BlockId) (w : Watch) : Prop := ∀ id ∈ ids, id ∉ w.seen

-- Blocks that are apart from those that were rendered stay fresh.
theorem Fresh.after {first second : List BlockId} {w : Watch} (fresh : Fresh (first ++ second) w)
    (once : (first ++ second).Nodup) {s : PassState} {new : List Rendered}
    (within : (new.map (·.id)).Subperm first) : Fresh second (w.after s new) := by
  intro id listed seen
  rcases List.mem_append.mp seen with old | just
  · exact fresh id (List.mem_append_right _ listed) old
  · exact List.disjoint_of_nodup_append once (within.subset just) listed

theorem subperm_flatMap {α β : Type} {xs ys : List α} (fewer : xs.Subperm ys) (f : α → List β) :
    (xs.flatMap f).Subperm (ys.flatMap f) := by
  obtain ⟨zs, perm, sublist⟩ := fewer
  exact ⟨zs.flatMap f, perm.flatMap_right f, sublist.flatMap f⟩

theorem nodup_of_subperm {α : Type} {xs ys : List α} (fewer : xs.Subperm ys) (once : ys.Nodup) : xs.Nodup := by
  obtain ⟨zs, perm, sublist⟩ := fewer
  exact perm.nodup_iff.mp (once.sublist sublist)

-- A rule that is served by blocks that follow is followed itself.
theorem Asking.follows {g : Graph} {root : BlockId} {trail : List ParentLink} {below : Below}
    {value : String → Watched (Option Expr)} {chain : Place → Bool → Watched Chain}
    {ids : Place → List BlockId} {order : Place → List (BlockId × List ParentLink)} {lines : List String}
    (values : ∀ slot w, Ready g trail w → Fresh (ids (.input slot)) w →
      Follows g [] (value slot) (below.value? slot) w (Recorded g root trail (ids (.input slot)) []))
    {α : Type} {ps : List Place} {bs : List (Place × Bool)} {family : Below → Pass α} (asking : Asking ps bs family)
    (each : asking.Each (Hoists g lines)) (chains : ∀ b ∈ bs, ∀ w, Ready g trail w → Fresh (ids b.1) w →
      Follows g [] (chain b.1 b.2) (below.chainAt b.1 b.2) w (Recorded g root trail (ids b.1) (order b.1)))
    (once : (ps.flatMap ids).Nodup) {w : Watch} (ready : Ready g trail w) (fresh : Fresh (ps.flatMap ids) w) :
    Follows g lines (asking.serve ⟨plainly, value, chain⟩) (family below) w
      (Recorded g root trail (ps.flatMap ids) (bs.flatMap fun b => order b.1)) := by
  induction asking generalizing w with
  | own steady =>
    have each : Hoists g lines _ := each
    exact .plainly (each.traced ready.accountable) .nothing
  | value slot =>
    rw [List.flatMap_singleton] at fresh ⊢
    exact (values slot w ready fresh).widen
  | chain place inLoop =>
    rw [List.flatMap_singleton] at fresh ⊢
    rw [List.flatMap_singleton]
    exact (chains _ (List.mem_singleton_self _) w ready fresh).widen
  | @bind α β ps qs bs cs first next one two ihOne ihTwo =>
    rw [List.flatMap_append] at once fresh ⊢
    rw [List.flatMap_append]
    have before : Fresh (ps.flatMap ids) w := fun id listed => fresh id (List.mem_append_left _ listed)
    have start := ihOne each.1 (fun b listed => chains b (List.mem_append_left _ listed)) once.of_append_left ready
      before
    refine start.bind (fun new recorded traced => ?_) fun _ _ one two => one.append two
    exact ihTwo _ (each.2 _) (fun b listed => chains b (List.mem_append_right _ listed)) once.of_append_right
      (ready.after traced) (fresh.after once recorded.within)
  | @less α ps qs bs cs family family' fewer same same' asking ih =>
    subst same same'
    have fewer := subperm_flatMap fewer ids
    exact (ih each chains (nodup_of_subperm fewer once) ready fun id listed => fresh id (fewer.subset listed)).weaken
      fun _ recorded => recorded.more fewer

end Blockwork.Generation
