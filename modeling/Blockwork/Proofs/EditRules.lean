import Mathlib
import Blockwork.Workspace.Edit

-- When each edit of a graph is accepted, and what it makes of the graph then.
-- Proofs about edits start from these facts and do not open the edits again.
namespace Blockwork

theorem bind_eq_ok {ε α β : Type} {x : Except ε α} {f : α → Except ε β} {b : β} :
    (x >>= f) = .ok b ↔ ∃ a, x = .ok a ∧ f a = .ok b := by
  cases x with
  | error e => simp [bind, Except.bind]
  | ok a => simp [bind, Except.bind]

theorem check_eq_ok {ε β : Type} {x : Except ε Unit} {f : Unit → Except ε β} {b : β} :
    (x >>= f) = .ok b ↔ x = .ok () ∧ f () = .ok b := by
  cases x with
  | error e => simp [bind, Except.bind]
  | ok a => cases a; simp [bind, Except.bind]

theorem map_eq_ok {ε α β : Type} {x : Except ε α} {f : α → β} {b : β} :
    x.map f = .ok b ↔ ∃ a, x = .ok a ∧ f a = b := by
  cases x <;> simp [Except.map]

@[simp] theorem bind_error {ε α β : Type} (e : ε) (f : α → Except ε β) :
    ((.error e : Except ε α) >>= f) = .error e := rfl

@[simp] theorem throw_eq {ε α : Type} (e : ε) : (throw e : Except ε α) = .error e := rfl

@[simp] theorem pure_eq {ε α : Type} (a : α) : (pure a : Except ε α) = .ok a := rfl

namespace Change

variable {ε σ α β : Type}

theorem runOn_bind (x : Change ε σ α) (f : α → Change ε σ β) (s : σ) :
    (x >>= f).runOn s = match x.runOn s with
      | (.ok a, s') => (f a).runOn s'
      | (.error e, s') => (.error e, s') := by
  simp only [runOn, ExceptT.run_bind, StateT.run_bind]
  rcases StateT.run (ExceptT.run x) s with ⟨e | a, s'⟩ <;> rfl

theorem runOn_get (f : σ → Change ε σ α) (s : σ) : (get >>= f).runOn s = (f s).runOn s := rfl

theorem runOn_lift (x : Except ε α) (f : α → Change ε σ β) (s : σ) :
    (liftM x >>= f).runOn s = match x with
      | .ok a => (f a).runOn s
      | .error e => (.error e, s) := by
  cases x <;> rfl

end Change

namespace Graph

variable {g g' : Graph}

-- An edit as it looks to whoever only waits for its result: look-ups and checks are made on
-- the graph as it is, and a write hands its result to the steps that follow.
section

variable {α : Type} {change : α → Change EditError Graph Unit}

@[simp] theorem after_get {change : Graph → Change EditError Graph Unit} :
    g.after (get >>= change) = g.after (change g) := rfl

@[simp] theorem after_lift {x : Except EditError α} :
    g.after (liftM x >>= change) = x >>= fun a => g.after (change a) := by
  cases x <;> rfl

@[simp] theorem after_throw {e : EditError} : g.after (throw e) = .error e := rfl

@[simp] theorem after_throw_bind {e : EditError} : g.after (throw e >>= change) = .error e := rfl

@[simp] theorem after_pure : g.after (pure ()) = .ok g := rfl

@[simp] theorem after_modify {f : Graph → Graph} : g.after (modify f) = .ok (f g) := rfl

@[simp] theorem after_modify_bind {f : Graph → Graph} {change : PUnit → Change EditError Graph Unit} :
    g.after (modify f >>= change) = (f g).after (change ⟨⟩) := rfl

@[simp] theorem after_ite {c : Prop} [Decidable c] {yes no : Change EditError Graph Unit} :
    g.after (if c then yes else no) = if c then g.after yes else g.after no := by
  split <;> rfl

@[simp] theorem after_forM {items : List α} {f : α → Graph → Graph} :
    g.after (forM items fun a => modify (f a)) = .ok (items.foldl (fun g a => f a g) g) := by
  induction items generalizing g with
  | nil => rfl
  | cons a rest ih => exact ih

end

theorem block_eq_ok {id : BlockId} {block : Block} : g.block id = .ok block ↔ g.block? id = some block := by
  unfold Graph.block
  split <;> simp_all

def Asks (parent : Block) (place : Place) (child : Kind) : Prop :=
  match place with
  | .input slot => child.connection = .expression ∧ ∃ check,
    parent.kind.slot? parent.extent slot = some (.input check) ∧
      ∀ expected found, check = some expected → child.output = some found → expected = found
  | .body slot => child.connection = .statement ∧ parent.kind.slot? parent.extent slot = some .body
  | .next => child.connection = .statement ∧ parent.kind.connection = .statement

theorem demand_eq_ok {parent : Block} {place : Place} {required : Connection}
    {check : Option ValueType} : demand parent place = .ok (required, check) ↔
      parent.held place = none ∧ match place with
        | .input slot => required = .expression ∧
          parent.kind.slot? parent.extent slot = some (.input check)
        | .body slot => required = .statement ∧ check = none ∧
          parent.kind.slot? parent.extent slot = some .body
        | .next => required = .statement ∧ check = none ∧ parent.kind.connection = .statement := by
  cases place with
  | input slot =>
    simp only [demand]
    rcases parent.kind.slot? parent.extent slot with _ | ⟨shape⟩ | own | _
    · simp
    · simp
    · cases parent.held (.input slot) <;> simp [eq_comm]
    · simp
  | body slot =>
    simp only [demand]
    rcases parent.kind.slot? parent.extent slot with _ | ⟨shape⟩ | own | _
    · simp
    · simp
    · simp
    · cases parent.held (.body slot) <;> simp [eq_comm]
  | next =>
    simp only [demand, Block.held]
    cases parent.next <;> cases parent.kind.connection <;> simp [eq_comm]

theorem checkAttach_eq_ok {parent child : BlockId} {place : Place} :
    g.checkAttach parent place child = .ok () ↔ ∃ parentBlock childBlock,
      g.block? parent = some parentBlock ∧ g.block? child = some childBlock ∧
        parentBlock.held place = none ∧ Asks parentBlock place childBlock.kind ∧
        child ∉ g.lineage parent := by
  unfold checkAttach
  simp only [bind_eq_ok, block_eq_ok]
  constructor
  · rintro ⟨parentBlock, foundParent, childBlock, foundChild, ⟨required, check⟩, asked, rest⟩
    obtain ⟨free, sort⟩ := demand_eq_ok.mp asked
    refine ⟨parentBlock, childBlock, foundParent, foundChild, free, ?_⟩
    by_cases connects : childBlock.kind.connection = required
    · have typed : ∀ expected found, check = some expected → childBlock.kind.output = some found →
          expected = found := by
        rintro expected found rfl yields
        by_contra different
        simp [connects, yields, different] at rest
      have apart : child ∉ g.lineage parent := by
        intro above
        simp only [connects, ne_eq, not_true_eq_false, if_false, above, if_true] at rest
        split at rest
        · split at rest <;> simp at rest
        · simp at rest
      refine ⟨?_, apart⟩
      cases place with
      | input slot => exact ⟨sort.1 ▸ connects, check, sort.2, typed⟩
      | body slot => exact ⟨sort.1 ▸ connects, sort.2.2⟩
      | next => exact ⟨sort.1 ▸ connects, sort.2.2⟩
    · simp [connects] at rest
  · rintro ⟨parentBlock, childBlock, foundParent, foundChild, free, asked, apart⟩
    refine ⟨parentBlock, foundParent, childBlock, foundChild, ?_⟩
    cases place with
    | input slot =>
      obtain ⟨connects, check, sort, typed⟩ := asked
      refine ⟨(.expression, check), demand_eq_ok.mpr ⟨free, rfl, sort⟩, ?_⟩
      simp only [connects, ne_eq, not_true_eq_false, if_false, apart]
      split
      · next expected found yields => simp [typed expected found rfl yields]
      · rfl
    | body slot =>
      refine ⟨(.statement, none), demand_eq_ok.mpr ⟨free, rfl, rfl, asked.2⟩, ?_⟩
      simp [asked.1, apart]
    | next =>
      refine ⟨(.statement, none), demand_eq_ok.mpr ⟨free, rfl, rfl, asked.2⟩, ?_⟩
      simp [asked.1, apart]

def attached (g : Graph) (parent : BlockId) (place : Place) (child : BlockId) : Graph :=
  ((g.unlink child).update parent fun block => block.hold place (some child)).update child
    fun block => { block with parent := some ⟨parent, place⟩ }

theorem attach_eq_ok {parent child : BlockId} {place : Place} :
    g.after (.attach parent place child) = .ok g' ↔
      g.checkAttach parent place child = .ok () ∧ g' = g.attached parent place child := by
  simp only [Change.attach, after_get, after_lift, after_modify_bind, after_modify, check_eq_ok,
    Except.ok.injEq, @eq_comm _ g', attached]

theorem detach_eq_ok {id : BlockId} : g.after (.detach id) = .ok g' ↔ ∃ block link,
    g.block? id = some block ∧ block.parent = some link ∧
      g' = { g.unlink id with roots := (g.unlink id).roots ++ [id] } := by
  simp only [Change.detach, after_get, after_lift, after_ite, after_throw_bind, after_modify_bind,
    after_modify, bind_eq_ok, block_eq_ok]
  constructor
  · rintro ⟨block, found, rest⟩
    cases attached : block.parent with
    | none => simp [attached] at rest
    | some link =>
      simp only [attached, Option.isNone_some, Bool.false_eq_true, if_false, Except.ok.injEq] at rest
      exact ⟨block, link, found, attached, rest.symm⟩
  · rintro ⟨block, link, found, attached, rfl⟩
    exact ⟨block, found, by simp [attached]⟩

theorem reorderRoot_eq_ok {id : BlockId} {index : Nat} : g.after (.reorderRoot id index) = .ok g' ↔
    (∃ block, g.block? id = some block) ∧ id ∈ g.roots ∧
      g' = { g with
        roots := (g.roots.erase id).take index ++ id :: (g.roots.erase id).drop index } := by
  simp only [Change.reorderRoot, after_get, after_lift, after_ite, after_throw_bind, after_modify_bind,
    after_modify, bind_eq_ok, block_eq_ok]
  constructor
  · rintro ⟨block, found, rest⟩
    by_cases listed : id ∈ g.roots
    · simp only [listed, not_true_eq_false, if_false, Except.ok.injEq] at rest
      exact ⟨⟨block, found⟩, listed, rest.symm⟩
    · simp [listed] at rest
  · rintro ⟨⟨block, found⟩, listed, rfl⟩
    exact ⟨block, found, by simp [listed]⟩

theorem addBlock_eq_ok {id : BlockId} {kind : Kind} : g.after (.addBlock id kind) = .ok g' ↔
    kind.isDefinition = false ∧ g.block? id = none ∧
      g' = g.addRoot (.fresh id kind kind.defaultExtent) := by
  unfold Change.addBlock
  cases defines : kind.isDefinition
  · cases present : g.block? id <;>
      simp [hasBlock, Dict.contains, block?] at present ⊢ <;> simp [present, eq_comm]
  · simp

theorem setPosition_eq_ok {id : BlockId} {position : Position} : g.after (.setPosition id position) = .ok g' ↔
    (∃ block, g.block? id = some block) ∧
      g' = g.update id fun block => { block with position := some position } := by
  simp only [Change.setPosition, after_get, after_lift, after_modify, bind_eq_ok, block_eq_ok,
    Except.ok.injEq, exists_and_right, @eq_comm _ g']

theorem setItemCount_eq_ok {id : BlockId} {items : Nat} : g.after (.setItemCount id items) = .ok g' ↔
    ∃ block, g.block? id = some block ∧
      (block.kind.variadic = some .items ∨ block.kind.variadic = some .branches) ∧
      items ≤ maxItems ∧ g' = g.reshape id { block.extent with items := items } := by
  simp only [Change.setItemCount, after_get, after_lift, bind_eq_ok, block_eq_ok]
  refine exists_congr fun block => and_congr_right fun _ => ?_
  by_cases bounded : items ≤ maxItems
  · have small : ¬items > maxItems := by omega
    rcases block.kind.variadic with _ | sort
    · simp
    · cases sort <;> simp [small, bounded, eq_comm]
  · have large : items > maxItems := by omega
    rcases block.kind.variadic with _ | sort
    · simp
    · cases sort <;> simp [large, bounded]

theorem setHasElse_eq_ok {id : BlockId} {hasElse : Bool} : g.after (.setHasElse id hasElse) = .ok g' ↔
    ∃ block, g.block? id = some block ∧ block.kind.variadic = some .branches ∧
      g' = g.reshape id { block.extent with hasElse := hasElse } := by
  simp only [Change.setHasElse, after_get, after_lift, bind_eq_ok, block_eq_ok]
  refine exists_congr fun block => and_congr_right fun _ => ?_
  by_cases branches : block.kind.variadic = some .branches
  · simp [branches, eq_comm]
  · simp [branches]

-- Names and tables.
theorem checkName_eq_ok {name name' : String} {others : List String} :
    checkName name others = .ok name' ↔ name' = Text.trim name ∧ name'.isEmpty = false ∧
      ∀ other ∈ others, sameName other name' = false := by
  simp only [checkName]
  constructor
  · intro checked
    split at checked
    · cases checked
    · next filled =>
      split at checked
      · cases checked
      · next free =>
        cases checked
        refine ⟨rfl, by simpa using filled, fun other listed => ?_⟩
        simp only [List.any_eq_true, not_exists, not_and, Bool.not_eq_true] at free
        exact free other listed
  · rintro ⟨rfl, filled, free⟩
    have none : ¬others.any (fun other => sameName other (Text.trim name)) = true := by
      simp only [List.any_eq_true, not_exists, not_and, Bool.not_eq_true]
      exact free
    simp [filled, none]

theorem createVariable_eq_ok {id : VariableId} {name : String} : g.after (.createVariable id name) = .ok g' ↔
    g.variableWith? id = none ∧ ∃ name', g.checkVariableName name none = .ok name' ∧
      g' = g.addVariable id name' := by
  simp only [Change.createVariable, after_get, after_ite, after_throw_bind]
  cases present : g.variableWith? id <;> simp [bind_eq_ok, @eq_comm _ g']

theorem renameVariable_eq_ok {id : VariableId} {name : String} : g.after (.renameVariable id name) = .ok g' ↔
    (g.variableWith? id).isSome ∧ ∃ name', g.checkVariableName name (some id) = .ok name' ∧
      g' = { g with
        vars := g.vars.map fun v => if v.id = id then { v with name := name' } else v } := by
  simp only [Change.renameVariable, after_get, after_ite, after_throw_bind]
  cases present : g.variableWith? id <;> simp [bind_eq_ok, @eq_comm _ g']

theorem deleteVariable_eq_ok {id : VariableId} : g.after (.deleteVariable id) = .ok g' ↔
    (g.variableWith? id).isSome ∧ g.usesVariable id = false ∧
      g' = { g with vars := g.vars.filter (·.id != id) } := by
  simp only [Change.deleteVariable, after_get, after_ite, after_throw_bind, after_modify]
  cases present : g.variableWith? id <;> cases used : g.usesVariable id <;> simp [eq_comm]

theorem checkParamsAfter_eq_ok {seen params : List VariableId} :
    g.checkParamsAfter seen params = .ok () ↔ (∀ v ∈ params, (g.variableWith? v).isSome) ∧
      params.Nodup ∧ ∀ v ∈ params, v ∉ seen := by
  induction params generalizing seen with
  | nil => simp [checkParamsAfter]
  | cons param rest ih =>
    rw [checkParamsAfter]
    cases known : g.variableWith? param with
    | none => simp [known]
    | some v =>
      by_cases repeated : param ∈ seen
      · simp [repeated]
      · simp only [Option.isNone_some, Bool.false_eq_true, if_false, List.contains_iff_mem, repeated,
          ih, List.nodup_cons]
        constructor
        · rintro ⟨all, distinct, apart⟩
          refine ⟨?_, ⟨fun again => apart param again List.mem_cons_self, distinct⟩, ?_⟩
          · exact List.forall_mem_cons.mpr ⟨by simp [known], all⟩
          · exact List.forall_mem_cons.mpr
              ⟨repeated, fun v listed old => apart v listed (List.mem_cons_of_mem _ old)⟩
        · rintro ⟨all, ⟨new, distinct⟩, apart⟩
          refine ⟨(List.forall_mem_cons.mp all).2, distinct, fun v listed => ?_⟩
          rw [List.mem_cons, not_or]
          exact ⟨fun same => new (same ▸ listed), (List.forall_mem_cons.mp apart).2 v listed⟩

theorem checkParams_eq_ok {params : List VariableId} : g.checkParams params = .ok () ↔
    params.length ≤ maxItems ∧ (∀ v ∈ params, (g.variableWith? v).isSome) ∧ params.Nodup := by
  unfold checkParams
  by_cases long : params.length > maxItems
  · have tooLong : ¬params.length ≤ maxItems := by omega
    simp [long, tooLong]
  · have short : params.length ≤ maxItems := by omega
    simp [long, short, checkParamsAfter_eq_ok]

theorem checkSignature_eq_ok {name name' : String} {params : List VariableId} :
    g.checkSignature name params = .ok name' ↔
      g.checkProcedureName name none = .ok name' ∧ g.checkParams params = .ok () := by
  unfold checkSignature
  simp only [bind_eq_ok, pure_eq, Except.ok.injEq]
  constructor
  · rintro ⟨_, named, ⟨⟩, fine, rfl⟩
    exact ⟨named, fine⟩
  · rintro ⟨named, fine⟩
    exact ⟨name', named, (), fine, rfl⟩

theorem createProcedure_eq_ok {id : ProcedureId} {definition : BlockId} {name : String}
    {params : List VariableId} {returns : Bool} :
    g.after (.createProcedure id definition name params returns) = .ok g' ↔
      g.procedureWith? id = none ∧ g.block? definition = none ∧
        ∃ name', g.checkSignature name params = .ok name' ∧
          g' = g.addProcedure id definition name' params returns := by
  have absent : g.hasBlock definition = (g.block? definition).isSome := rfl
  simp only [Change.createProcedure, after_get, after_ite, after_throw_bind, absent]
  cases g.procedureWith? id <;> cases g.block? definition <;> simp [bind_eq_ok, @eq_comm _ g']

theorem renameProcedure_eq_ok {id : ProcedureId} {name : String} :
    g.after (.renameProcedure id name) = .ok g' ↔ (g.procedureWith? id).isSome ∧
      ∃ name', g.checkProcedureName name (some id) = .ok name' ∧
        g' = g.updateProcedure id fun p => { p with name := name' } := by
  simp only [Change.renameProcedure, after_get, after_ite, after_throw_bind]
  cases present : g.procedureWith? id <;> simp [bind_eq_ok, @eq_comm _ g']

theorem setParams_eq_ok {id : ProcedureId} {params : List VariableId} :
    g.after (.setParams id params) = .ok g' ↔ (g.procedureWith? id).isSome ∧ g.checkParams params = .ok () ∧
      g' = ((g.updateProcedure id fun p => { p with params := params }).callers id).foldl
        (fun g call => g.reshape call { items := params.length })
        (g.updateProcedure id fun p => { p with params := params }) := by
  simp only [Change.setParams, after_get, after_ite, after_throw_bind]
  cases present : g.procedureWith? id <;> simp [check_eq_ok, @eq_comm _ g']

theorem removeProcedure_eq_ok {id : ProcedureId} : g.after (.removeProcedure id) = .ok g' ↔
    ∃ procedure, g.procedureWith? id = some procedure ∧ g.callers id = [] ∧
      g' = { g.removeTree procedure.definition with
        procedures := (g.removeTree procedure.definition).procedures.filter (·.id != id) } := by
  simp only [Change.removeProcedure, after_get]
  cases present : g.procedureWith? id <;> cases called : g.callers id <;>
    simp [called, @eq_comm _ g']

theorem deleteTree_eq_ok {id : BlockId} : g.after (.deleteTree id) = .ok g' ↔ ∃ block,
    g.block? id = some block ∧
      ((block.kind.isDefinition = false ∧ g' = g.removeTree id) ∨
        (block.kind.isDefinition = true ∧ ∃ procedure, block.procedureIn? "NAME" = some procedure ∧
          g.after (.removeProcedure procedure) = .ok g')) := by
  simp only [Change.deleteTree, after_get, after_lift, bind_eq_ok, block_eq_ok]
  refine exists_congr fun block => and_congr_right fun _ => ?_
  cases defines : block.kind.isDefinition
  · simp [@eq_comm _ g']
  · cases bound : block.procedureIn? "NAME" <;> simp

def Admits (g : Graph) (block : Block) (shape : FieldShape) (value : FieldValue) : Prop :=
  match shape, value with
  | .text _, .text _ => True
  | .number _, .number _ => True
  | .dropdown options, .choice option => option ∈ options
  | .variableRef, .variableRef id => (g.variableWith? id).isSome
  | .variableRef, .empty => True
  | .procedureRef, .procedureRef id => block.kind.isDefinition = false ∧
    ∃ procedure, g.procedureWith? id = some procedure ∧ block.kind = .call procedure.returns
  | .procedureRef, .empty => block.kind.isDefinition = false
  | _, _ => False

theorem checkValue_eq_ok {block : Block} {slot : String} {shape : FieldShape} {value : FieldValue} :
    g.checkValue block slot shape value = .ok () ↔ g.Admits block shape value := by
  cases shape with
  | text _ | number _ => cases value <;> simp [checkValue, Admits]
  | dropdown options =>
    cases value with
    | choice option => by_cases listed : option ∈ options <;> simp [checkValue, Admits, listed]
    | _ => simp [checkValue, Admits]
  | variableRef =>
    cases value with
    | variableRef id => cases known : g.variableWith? id <;> simp [checkValue, Admits, known]
    | _ => simp [checkValue, Admits]
  | procedureRef =>
    cases defines : block.kind.isDefinition
    · cases value with
      | procedureRef id =>
        cases known : g.procedureWith? id with
        | none => simp [checkValue, Admits, defines, known]
        | some procedure =>
          by_cases same : block.kind = .call procedure.returns <;>
            simp [checkValue, Admits, defines, known, same]
      | _ => simp [checkValue, Admits, defines]
    · cases value <;> simp [checkValue, Admits, defines]

-- The graph with a value in a field. A call follows its procedure in extent.
def written (g : Graph) (id : BlockId) (slot : String) (shape : FieldShape) (value : FieldValue) :
    Graph :=
  let g' := g.update id fun block => { block with fields := block.fields.insert slot value }
  match g.arity? shape value with
  | some items => g'.reshape id { items := items }
  | none => g'

theorem setField_eq_ok {id : BlockId} {slot : String} {value : FieldValue} :
    g.after (.setField id slot value) = .ok g' ↔ ∃ block shape, g.block? id = some block ∧
      block.kind.slot? block.extent slot = some (.field shape) ∧ g.Admits block shape value ∧
      g' = g.written id slot shape value := by
  simp only [Change.setField, after_get, after_lift, bind_eq_ok, block_eq_ok, exists_and_left]
  refine exists_congr fun block => and_congr_right fun found => ?_
  rcases sort : block.kind.slot? block.extent slot with _ | ⟨shape⟩ | check | _
  · simp
  · simp only [after_get, after_lift, after_modify_bind, check_eq_ok, checkValue_eq_ok,
      Option.some.injEq, SlotKind.field.injEq, exists_eq_left']
    refine and_congr_right fun _ => ?_
    simp only [bind_eq_ok, block_eq_ok, found, Option.some.injEq, exists_eq_left', written]
    cases g.arity? shape value <;> simp [@eq_comm _ g']
  · simp
  · simp

end Graph

-- What an edit makes of a workspace: of its graph, and of the serial where it chooses ids.
namespace Workspace

open Change

theorem make_keepSerial (w : Workspace) (change : Change EditError Graph Unit) :
    w.make (.keepSerial change) = (w.graph.after change).map fun g => (⟨g, w.serial⟩, .done) := by
  have ran : (onGraph change).runOn ⟨w, []⟩ = ((change.runOn w.graph).1,
      ⟨⟨(change.runOn w.graph).2, w.serial⟩, []⟩) := rfl
  simp only [make, keepSerial, Graph.after, outcome, runOn_bind, ran]
  rcases change.runOn w.graph with ⟨e | a, g⟩ <;> rfl

theorem keepSerial_iff {w w' : Workspace} {change : Change EditError Graph Unit} {reply : EditReply} :
    w.make (.keepSerial change) = .ok (w', reply) ↔
      ∃ g, w.graph.after change = .ok g ∧ (⟨g, w.serial⟩, .done) = (w', reply) := by
  rw [make_keepSerial, map_eq_ok]

theorem keepSerial_made {w : Workspace} {change : Change EditError Graph Unit} {g : Graph}
    (made : w.graph.after change = .ok g) :
    w.make (.keepSerial change) = .ok (⟨g, w.serial⟩, .done) := keepSerial_iff.mpr ⟨g, made, rfl⟩

theorem keepSerial_eq_ok {w w' : Workspace} {change : Change EditError Graph Unit} {reply : EditReply}
    (edited : w.make (.keepSerial change) = .ok (w', reply)) :
    ∃ g, w.graph.after change = .ok g ∧ w'.graph = g := by
  obtain ⟨g, made, same⟩ := keepSerial_iff.mp edited
  cases same
  exact ⟨g, made, rfl⟩

theorem make_makeVariable (w : Workspace) (name : String) :
    w.make (.makeVariable name) = (w.graph.checkVariableName name none).map fun name =>
      (⟨w.graph.addVariable (variableName (variableSerial w.graph w.serial)) name,
        variableSerial w.graph w.serial⟩, variableName (variableSerial w.graph w.serial)) := by
  simp only [make, makeVariable, outcome, runOn_get, runOn_lift]
  cases w.graph.checkVariableName name none <;> rfl

theorem makeVariable_iff {w w' : Workspace} {name : String} {id : VariableId} :
    w.make (.makeVariable name) = .ok (w', id) ↔
      ∃ name', w.graph.checkVariableName name none = .ok name' ∧
        (⟨w.graph.addVariable (variableName (variableSerial w.graph w.serial)) name',
          variableSerial w.graph w.serial⟩, variableName (variableSerial w.graph w.serial)) = (w', id) := by
  rw [make_makeVariable, map_eq_ok]

theorem apply_createVariable (w : Workspace) (name : String) :
    w.apply (.createVariable name)
      = (w.make (.makeVariable name)).map fun made => (made.1, .variableMade made.2) := by
  simp only [apply, make, perform, outcome, runOn_bind]
  rcases (makeVariable name).runOn ⟨w, []⟩ with ⟨e | id, bench⟩ <;> rfl

theorem apply_addBlock (w : Workspace) (kind : Kind) :
    w.apply (.addBlock kind) = if kind.isDefinition then .error .definitionWithoutProcedure
      else .ok (⟨w.graph.addRoot (.fresh (blockName (blockSerial w.graph w.serial)) kind
        kind.defaultExtent), blockSerial w.graph w.serial⟩,
        .block (blockName (blockSerial w.graph w.serial))) := by
  simp only [apply, make, perform]
  split <;> rfl

theorem apply_createProcedure (w : Workspace) (name : String) (params : List VariableId)
    (returns : Bool) :
    w.apply (.createProcedure name params returns)
      = (w.graph.checkSignature name params).map fun name =>
        let idSerial := procedureSerial w.graph w.serial
        let serial := blockSerial w.graph idSerial
        (⟨w.graph.addProcedure (procedureName idSerial) (blockName serial) name params returns, serial⟩,
          .procedureMade (procedureName idSerial) (blockName serial)) := by
  simp only [apply, make, perform, outcome, runOn_get, runOn_lift]
  cases w.graph.checkSignature name params <;> rfl

end Workspace
end Blockwork
