import Mathlib
import Blockwork.Proofs.Relabeling
import Blockwork.Proofs.Walks
import Blockwork.Proofs.NumericEquality

-- Source text does not show ids, layout or the order in which blocks are kept. A pass
-- over a relabelled graph stays in step with the pass over the graph itself: they
-- give out the same names and hoist the same lines, under other keys.
namespace Blockwork

theorem ProcedureId.text_injective : Function.Injective ProcedureId.text :=
  fun ⟨_⟩ ⟨_⟩ same => congrArg ProcedureId.mk same

namespace Python

theorem distinct_perm {taken other : List String} (perm : taken.Perm other) (base : String) :
    distinct taken base = distinct other base := by
  have same : ∀ name, taken.contains name = other.contains name :=
    fun name => Bool.eq_iff_iff.mpr (by simp [perm.mem_iff])
  have search : ∀ tries n, numbered taken base tries n = numbered other base tries n := by
    intro tries
    induction tries with
    | zero => exact fun n => rfl
    | succ tries ih => exact fun n => by simp only [numbered, same, ih]
  simp only [distinct, same, search, perm.length_eq]

end Python

namespace Generation

open Python

-- Keys under which the two passes record one function.
inductive SameKey (r : Relabeling) : String → String → Prop where
  | helper (key : String) : SameKey r ("%helper%" ++ key) ("%helper%" ++ key)
  | procedure (id : ProcedureId) :
      SameKey r ("%procedure%" ++ id.text) ("%procedure%" ++ (r.procedure id).text)
  | declarations : SameKey r "variables" "variables"

variable {r : Relabeling}

theorem SameKey.eq_iff {key key' other other' : String} (first : SameKey r key key')
    (second : SameKey r other other') : key = other ↔ key' = other' := by
  cases first with
  | helper key =>
    cases second with
    | helper other => exact Iff.rfl
    | procedure id => simp [helper_ne_procedure]
    | declarations => exact Iff.rfl
  | procedure id =>
    cases second with
    | helper other => simp [(helper_ne_procedure _ _).symm]
    | procedure other =>
      rw [String.append_right_inj, String.append_right_inj]
      constructor
      · intro same
        obtain rfl : id = other := ProcedureId.text_injective same
        rfl
      · intro same
        exact congrArg _ (r.procedure.injective (ProcedureId.text_injective same))
    | declarations => exact iff_of_false (variables_ne rfl _).symm (variables_ne rfl _).symm
  | declarations =>
    cases second with
    | helper other => exact Iff.rfl
    | procedure id => exact iff_of_false (variables_ne rfl _) (variables_ne rfl _)
    | declarations => exact Iff.rfl

structure SameDefinition (r : Relabeling) (d e : Definition (List Line)) : Prop where
  key : SameKey r d.key e.key
  isFunction : e.isFunction = d.isFunction
  body : e.body = d.body

-- States of the two passes at one point. Names are taken in some order, which does not show.
structure Mirrors (r : Relabeling) (s t : PassState) : Prop where
  taken : t.names.taken.Perm s.names.taken
  vars : t.names.vars = s.names.vars.map fun e => (r.variableId e.1, e.2)
  procedures : t.names.procedures = s.names.procedures.map fun e => (r.procedure e.1, e.2)
  helpers : t.names.helpers = s.names.helpers
  imports : t.preamble.imports = s.preamble.imports
  definitions : List.Forall₂ (SameDefinition r) s.preamble.definitions t.preamble.definitions

namespace Mirrors

variable {s t : PassState}

theorem variableName? (mirrors : Mirrors r s t) (id : VariableId) :
    t.names.variableName? (r.variableId id) = s.names.variableName? id := by
  rw [NameTable.variableName?, mirrors.vars]
  exact (lookup_mapped_keys r.variableId.injective (fun name => name) _ id).trans (by simp; rfl)

theorem procedureName? (mirrors : Mirrors r s t) (id : ProcedureId) :
    t.names.procedureName? (r.procedure id) = s.names.procedureName? id := by
  rw [NameTable.procedureName?, mirrors.procedures]
  exact (lookup_mapped_keys r.procedure.injective (fun name => name) _ id).trans (by simp; rfl)

theorem claim (mirrors : Mirrors r s t) (base : String) :
    (t.names.claim base).1 = (s.names.claim base).1 ∧
      Mirrors r { s with names := (s.names.claim base).2 } { t with names := (t.names.claim base).2 } := by
  have name := distinct_perm mirrors.taken (legalize base)
  refine ⟨name, { mirrors with taken := ?_ }⟩
  show (distinct t.names.taken (legalize base) :: _).Perm (distinct s.names.taken (legalize base) :: _)
  rw [name]
  exact mirrors.taken.cons _

theorem records (mirrors : Mirrors r s t) {key key' : String} (same : SameKey r key key')
    (body : List Line) : t.preamble.records key' body = s.preamble.records key body := by
  unfold Preamble.records
  have alike := mirrors.definitions
  generalize s.preamble.definitions = ds, t.preamble.definitions = es at alike
  induction alike with
  | nil => rfl
  | cons head _ ih =>
    have keys := (head.key.eq_iff same)
    simp only [List.any_cons, ih, head.body]
    congr 2
    exact Bool.eq_iff_iff.mpr (by simp [keys])

theorem addDefinition (mirrors : Mirrors r s t) {key key' : String} (same : SameKey r key key')
    (body : List Line) :
    Mirrors r { s with preamble := s.preamble.addDefinition ⟨key, true, body⟩ }
      { t with preamble := t.preamble.addDefinition ⟨key', true, body⟩ } := by
  unfold Preamble.addDefinition
  simp only [mirrors.records same body]
  split
  · exact mirrors
  · exact { mirrors with
      definitions := List.rel_append mirrors.definitions (.cons ⟨same, rfl, rfl⟩ .nil) }

theorem functions (mirrors : Mirrors r s t) : t.preamble.functions = s.preamble.functions := by
  unfold Preamble.functions
  have alike := mirrors.definitions
  generalize s.preamble.definitions = ds, t.preamble.definitions = es at alike
  induction alike with
  | nil => rfl
  | cons head _ ih =>
    simp only [List.filter_cons, head.isFunction]
    split
    · simp only [List.map_cons, ih, head.body]
    · exact ih

end Mirrors

-- Actions that give the same back when their passes are at one point, and take them to one point.
def InStep (r : Relabeling) {α : Type} (first second : Pass α) : Prop :=
  ∀ s t, Mirrors r s t →
    (second.run t).1 = (first.run s).1 ∧ Mirrors r (first.run s).2 (second.run t).2

namespace InStep

variable {α β : Type}

theorem pure (a : α) : InStep r (pure a) (pure a) := fun _ _ mirrors => ⟨rfl, mirrors⟩

theorem bind {first second : Pass α} {next next' : α → Pass β} (one : InStep r first second)
    (two : ∀ a, InStep r (next a) (next' a)) : InStep r (first >>= next) (second >>= next') := by
  intro s t mirrors
  obtain ⟨value, middle⟩ := one s t mirrors
  have last := two (first.run s).1 _ _ middle
  rw [StateT.run_bind, StateT.run_bind]
  show (next' (second.run t).1 |>.run _).1 = _ ∧ Mirrors r _ (next' (second.run t).1 |>.run _).2
  rw [value]
  exact last

theorem finish {first second : Pass α} (one : InStep r first second) (result : α → β) :
    InStep r (first >>= fun a => Pure.pure (result a)) (second >>= fun a => Pure.pure (result a)) :=
  one.bind fun _ => pure _

-- What follows a look at the state has to be in step only for states at one point.
theorem reading {next next' : PassState → Pass β}
    (rest : ∀ s t, Mirrors r s t → InStep r (next s) (next' t)) :
    InStep r (get >>= next) (get >>= next') := fun s t mirrors => rest s t mirrors s t mirrors

theorem addImport (line : String) : InStep r (addImport line) (addImport line) := by
  intro s t mirrors
  refine ⟨rfl, ?_⟩
  show Mirrors r { s with preamble := s.preamble.addImport line }
    { t with preamble := t.preamble.addImport line }
  unfold Preamble.addImport
  simp only [mirrors.imports]
  split
  · exact mirrors
  · exact { mirrors with imports := rfl }

theorem addFunction {key key' : String} (same : SameKey r key key') (lines : List Line) :
    InStep r (addFunction key lines) (addFunction key' lines) :=
  fun _ _ mirrors => ⟨rfl, mirrors.addDefinition same lines⟩

theorem claimName (base : String) : InStep r (claimName base) (claimName base) :=
  fun _ _ mirrors => mirrors.claim base

theorem helperFunction (key : String) (define : String → List Line) :
    InStep r (helperFunction key define) (helperFunction key define) := by
  intro s t mirrors
  have known : t.names.helperName? key = s.names.helperName? key := by
    rw [NameTable.helperName?, mirrors.helpers]
    rfl
  have remembered : ∀ name, InStep r
      (modify fun s => { s with names := s.names.remember key name } : Pass Unit)
      (modify fun s => { s with names := s.names.remember key name }) := by
    intro name s t mirrors
    exact ⟨rfl, { mirrors with helpers := congrArg ((key, name) :: ·) mirrors.helpers }⟩
  have rest : InStep r
      (do
        let name ← Generation.claimName key
        modify fun s => { s with names := s.names.remember key name }
        Generation.addFunction ("%helper%" ++ key) (define name)
        return name : Pass String)
      (do
        let name ← Generation.claimName key
        modify fun s => { s with names := s.names.remember key name }
        Generation.addFunction ("%helper%" ++ key) (define name)
        return name) :=
    (claimName key).bind fun name => (remembered name).bind fun _ =>
      (addFunction (.helper key) _).bind fun _ => pure _
  simp only [Generation.helperFunction, StateT.run_bind, StateT.run_get, pure_bind]
  rw [known]
  cases s.names.helperName? key with
  | some name => exact ⟨rfl, mirrors⟩
  | none => exact rest s t mirrors

theorem variableName? (block : Block) (field : String) :
    InStep r (variableName? block field) (variableName? (block.relabel r) field) := by
  intro s t mirrors
  refine ⟨?_, mirrors⟩
  show ((block.relabel r).variableIn? field).bind t.names.variableName?
    = (block.variableIn? field).bind s.names.variableName?
  rw [Block.relabel_variableIn?]
  cases block.variableIn? field with
  | none => rfl
  | some id => exact mirrors.variableName? id

theorem procedureName? (block : Block) (field : String) :
    InStep r (procedureName? block field) (procedureName? (block.relabel r) field) := by
  intro s t mirrors
  refine ⟨?_, mirrors⟩
  show ((block.relabel r).procedureIn? field).bind t.names.procedureName?
    = (block.procedureIn? field).bind s.names.procedureName?
  rw [Block.relabel_procedureIn?]
  cases block.procedureIn? field with
  | none => rfl
  | some id => exact mirrors.procedureName? id

end InStep

structure SameRendering (r : Relabeling) (first second : Rendering) : Prop where
  code : ∀ inLoop, InStep r (first.code inLoop) (second.code inLoop)
  chain : ∀ inLoop, InStep r (first.chain inLoop) (second.chain inLoop)

-- What hangs below a block and below the relabelled block.
def SameBelow (r : Relabeling) (below below' : Below) : Prop :=
  List.Forall₂ (fun p q => p.1 = q.1 ∧ SameRendering r p.2 q.2) below below'

namespace SameBelow

variable {below below' : Below} (same : SameBelow r below below')

include same

theorem lookup (place : Place) :
    Option.Rel (SameRendering r) (below.lookup place) (below'.lookup place) := by
  induction same with
  | nil => exact .none
  | @cons p q _ _ head _ ih =>
    obtain ⟨k, v⟩ := p
    obtain ⟨_, w⟩ := q
    obtain ⟨rfl, alike⟩ := head
    simp only [List.lookup_cons]
    split
    · exact .some alike
    · exact ih

theorem value? (slot : String) : InStep r (below.value? slot) (below'.value? slot) := by
  unfold Below.value?
  have related := same.lookup (.input slot)
  generalize below.lookup (.input slot) = found, below'.lookup (.input slot) = found' at related
  cases related with
  | none => exact .pure none
  | some alike =>
    refine (alike.code false).bind fun code => ?_
    cases code <;> exact .pure _

theorem valueOr (slot : String) (standIn : Expr) :
    InStep r (below.valueOr slot standIn) (below'.valueOr slot standIn) := (same.value? slot).finish _

theorem valuesOr (slots : List String) (standIn : Expr) :
    InStep r (below.valuesOr slots standIn) (below'.valuesOr slots standIn) := by
  induction slots with
  | nil => exact .pure []
  | cons slot rest ih => exact (same.valueOr slot standIn).bind fun _ => ih.finish _

theorem chainAt (place : Place) (inLoop : Bool) :
    InStep r (below.chainAt place inLoop) (below'.chainAt place inLoop) := by
  unfold Below.chainAt
  have related := same.lookup place
  generalize below.lookup place = found, below'.lookup place = found' at related
  cases related with
  | none => exact .pure _
  | some alike => exact alike.chain inLoop

theorem suite (slot : String) (inLoop : Bool) :
    InStep r (below.suite slot inLoop) (below'.suite slot inLoop) := (same.chainAt _ inLoop).finish _

theorem branchLines (inLoop : Bool) (count n : Nat) :
    InStep r (branchLines below inLoop count n) (branchLines below' inLoop count n) := by
  induction count generalizing n with
  | zero => exact .pure []
  | succ count ih =>
    exact (same.valueOr _ _).bind fun _ => (same.suite _ inLoop).bind fun _ => (ih (n + 1)).finish _

theorem ifLines (block : Block) (inLoop : Bool) :
    InStep r (ifLines block below inLoop) (ifLines (block.relabel r) below' inLoop) := by
  unfold Generation.ifLines
  refine (same.branchLines inLoop _ 0).bind fun _ => ?_
  rw [Block.relabel_extent]
  split
  · exact (same.suite _ inLoop).finish _
  · exact .pure _

theorem callValue? (block : Block) :
    InStep r (callValue? block below) (callValue? (block.relabel r) below') := by
  refine (InStep.procedureName? block "NAME").bind fun name => ?_
  cases name with
  | none => exact .pure none
  | some name => exact (same.valuesOr _ _).finish _

end SameBelow

theorem relabel_numberValue (block : Block) : numberValue (block.relabel r) = numberValue block := by
  rw [numberValue, numberValue, Block.relabel_field]
  cases block.fields.get? "NUM" with
  | none => rfl
  | some value => cases value <;> rfl

theorem relabel_fieldText (block : Block) : fieldText (block.relabel r) = fieldText block := by
  rw [fieldText, fieldText, Block.relabel_field]
  cases block.fields.get? "TEXT" with
  | none => rfl
  | some value => cases value <;> rfl

theorem rule_inStep (block : Block) {below below' : Below} (same : SameBelow r below below')
    (inLoop : Bool) : InStep r (rule block below inLoop) (rule (block.relabel r) below' inLoop) := by
  unfold rule
  rw [Block.relabel_kind]
  cases block.kind with
  | ifElse => exact (same.ifLines block inLoop).finish _
  | textJoin => exact ((same.valuesOr _ _).finish _).finish _
  | listOf => exact ((same.valuesOr _ _).finish _).finish _
  | call yields =>
    cases yields with
    | false => exact ((same.callValue? block).finish _).finish _
    | true => exact (same.callValue? block).finish _
  | boolean | null | definition =>
    simp only [Block.relabel_choiceIn?]
    exact .pure _
  | flow =>
    simp only [flowLines, Block.relabel_choiceIn?]
    exact .pure _
  | number =>
    simp only [relabel_numberValue]
    exact .pure _
  | comment | text =>
    simp only [relabel_fieldText]
    exact .pure _
  | variableGet => exact (InStep.variableName? block "VAR").finish _
  | negation | textLength | listLength | listIsEmpty => exact (same.valueOr _ _).finish _
  | print => exact ((same.valueOr _ _).finish _).finish _
  | modulo => exact .finish ((same.valueOr _ _).bind fun _ => (same.valueOr _ _).finish _) _
  | compare =>
    simp only [compareValue, Block.relabel_choiceIn?]
    exact .finish ((same.valueOr _ _).bind fun _ => (same.valueOr _ _).finish _) _
  | arithmetic =>
    simp only [arithmeticValue, Block.relabel_choiceIn?]
    exact .finish ((same.valueOr _ _).bind fun _ => (same.valueOr _ _).finish _) _
  | logical =>
    simp only [logicalValue, Block.relabel_choiceIn?]
    exact .finish ((same.value? _).bind fun _ => (same.value? _).finish _) _
  | ternary =>
    exact .finish ((same.valueOr _ _).bind fun _ => (same.valueOr _ _).bind fun _ =>
      (same.valueOr _ _).finish _) _
  | constant =>
    simp only [constantValue, Block.relabel_choiceIn?]
    refine .finish ?_ _
    split
    · exact .pure _
    · exact (InStep.addImport _).finish _
  | unary =>
    simp only [unaryValue, Block.relabel_choiceIn?]
    refine .finish ((same.valueOr _ _).bind fun value => ?_) _
    split
    · exact .pure _
    · exact .pure _
    · exact (InStep.addImport _).finish _
  | round =>
    simp only [roundValue, Block.relabel_choiceIn?]
    refine .finish ((same.valueOr _ _).bind fun value => ?_) _
    split
    · exact (InStep.addImport _).finish _
    · exact (InStep.addImport _).finish _
    · exact .pure _
  | aggregate =>
    simp only [aggregateValue, Block.relabel_choiceIn?]
    refine .finish ((same.valueOr _ _).bind fun list => ?_) _
    split
    · exact .pure _
    · exact .pure _
    · exact (InStep.addImport _).bind fun _ => (InStep.helperFunction _ _).finish _
    · exact (InStep.addImport _).finish _
    · exact .pure _
  | randomInteger =>
    exact .finish ((InStep.addImport _).bind fun _ => (same.valueOr _ _).bind fun _ =>
      (same.valueOr _ _).finish _) _
  | randomFraction => exact .finish ((InStep.addImport _).finish _) _
  | repeatTimes =>
    exact .finish ((same.value? _).bind fun _ => (InStep.claimName _).bind fun _ =>
      (same.suite _ _).finish _) _
  | whileUntil =>
    simp only [whileLines, Block.relabel_choiceIn?]
    exact .finish ((same.valueOr _ _).bind fun _ => (same.suite _ _).finish _) _
  | countWith =>
    exact .finish ((InStep.variableName? block "VAR").bind fun _ => (same.valueOr _ _).bind fun _ =>
      (same.valueOr _ _).bind fun _ => (same.valueOr _ _).bind fun _ => (same.suite _ _).finish _) _
  | forEach =>
    exact .finish ((InStep.variableName? block "VAR").bind fun _ => (same.valueOr _ _).bind fun _ =>
      (same.suite _ _).finish _) _
  | changeBy =>
    simp only [changeLines, Block.relabel_choiceIn?]
    exact .finish ((InStep.variableName? block "VAR").bind fun _ => (same.valueOr _ _).finish _) _
  | variableSet =>
    exact .finish ((InStep.variableName? block "VAR").bind fun _ => (same.valueOr _ _).finish _) _
  | listGet =>
    simp only [listGetValue, Block.relabel_choiceIn?]
    refine .finish ((same.valueOr _ _).bind fun list => ?_) _
    split
    · exact .pure _
    · exact (same.valueOr _ _).finish _
  | listSet =>
    simp only [listSetLines, Block.relabel_choiceIn?]
    refine .finish ((same.valueOr _ _).bind fun list => (same.valueOr _ _).bind fun value => ?_) _
    split
    · exact .pure _
    · exact (same.valueOr _ _).finish _

theorem node_inStep (block : Block) {branches branches' : List (Place × Tree)}
    (below : SameBelow r (renderBranches branches) (renderBranches branches')) :
    SameRendering r (renderTree (.node block branches)) (renderTree (.node (block.relabel r) branches')) where
  code := rule_inStep block below
  chain inLoop := (rule_inStep block below inLoop).bind fun _ => (below.chainAt .next inLoop).finish _

theorem branches_inStep {g : Graph} {depth : Nat}
    (each : ∀ child, SameRendering r (renderTree (g.treeTo depth child))
      (renderTree ((g.relabel r).treeTo depth (child.relabel r)))) (block : Block) :
    SameBelow r (renderBranches (g.branchesTo depth block))
      (renderBranches ((g.relabel r).branchesTo depth (block.relabel r))) := by
  rw [SameBelow, renderBranches_eq, renderBranches_eq, Graph.relabel_branchesTo, Graph.branchesTo]
  simp only [List.map_filterMap, Option.map_map]
  refine List.rel_filterMap (R := (· = ·)) ?_ (List.forall₂_refl _)
  rintro link _ rfl
  dsimp only
  cases g.block? link.2 with
  | none => exact .none
  | some child => exact .some ⟨rfl, each child⟩

theorem tree_inStep (r : Relabeling) (g : Graph) (depth : Nat) (block : Block) :
    SameRendering r (renderTree (g.treeTo depth block))
      (renderTree ((g.relabel r).treeTo depth (block.relabel r))) := by
  induction depth generalizing block with
  | zero => exact node_inStep block .nil
  | succ depth ih => exact node_inStep block (branches_inStep ih block)

theorem mainChains_inStep {trees trees' : List Tree}
    (alike : List.Forall₂ (fun tree tree' => tree'.block.kind = tree.block.kind ∧
      SameRendering r (renderTree tree) (renderTree tree')) trees trees') :
    InStep r (mainChains trees) (mainChains trees') := by
  induction alike with
  | nil => exact .pure []
  | @cons tree tree' _ _ head _ ih =>
    simp only [mainChains, head.1]
    split
    · exact ih
    · exact (head.2.chain false).bind fun _ => ih.finish _

theorem forest_inStep (r : Relabeling) (g : Graph) :
    InStep r (mainChains g.forest) (mainChains (g.relabel r).forest) := by
  apply mainChains_inStep
  have roots : (g.relabel r).roots = g.roots.map r.block := rfl
  rw [Graph.forest, Graph.forest, roots, List.filterMap_map]
  refine List.rel_filterMap (R := (· = ·)) ?_ (List.forall₂_refl _)
  rintro id _ rfl
  simp only [Function.comp_apply, Graph.tree?, Graph.relabel_block?, Option.map_map]
  cases g.block? id with
  | none => exact .none
  | some block =>
    refine .some ⟨?_, ?_⟩
    · simp [Graph.tree, Graph.treeTo_block]
    · show SameRendering r (renderTree (g.treeTo g.size block))
        (renderTree ((g.relabel r).treeTo (g.relabel r).size (block.relabel r)))
      rw [Graph.relabel_size]
      exact tree_inStep r g g.size block

theorem define_inStep (r : Relabeling) (g : Graph) (definition : Block) :
    InStep r (define g definition) (define (g.relabel r) (definition.relabel r)) := by
  have below : SameBelow r (renderBranches (g.tree definition).branches)
      (renderBranches ((g.relabel r).tree (definition.relabel r)).branches) := by
    rw [Graph.tree, Graph.tree, Graph.relabel_size]
    cases g.size with
    | zero => exact .nil
    | succ depth => exact branches_inStep (tree_inStep r g depth) definition
  rw [define_eq, define_eq]
  generalize renderBranches (g.tree definition).branches = children at below
  generalize renderBranches ((g.relabel r).tree (definition.relabel r)).branches = children' at below
  unfold defineWith
  rw [Block.relabel_procedureIn?]
  cases definition.procedureIn? "NAME" with
  | none => exact .pure ()
  | some id =>
    simp only [Option.map_some, Option.bind_some, Graph.relabel_procedureWith?]
    cases g.procedureWith? id with
    | none => exact .pure ()
    | some procedure =>
      refine .reading fun s t mirrors => ?_
      have name := mirrors.procedureName? procedure.id
      have params : (procedure.relabel r).params.map (fun p => (t.names.variableName? p).getD noTarget)
          = procedure.params.map fun p => (s.names.variableName? p).getD noTarget := by
        rw [Procedure.relabel, List.map_map]
        exact List.map_congr_left fun p _ => congrArg (·.getD noTarget) (mirrors.variableName? p)
      rw [params, show (procedure.relabel r).id = r.procedure procedure.id from rfl, name]
      refine (below.chainAt _ false).bind fun body => ?_
      by_cases returns : definition.kind = .definition true
      · have returns' : (definition.relabel r).kind = .definition true := returns
        rw [if_pos returns, if_pos returns']
        exact (below.value? _).bind fun _ => .addFunction (.procedure procedure.id) _
      · have returns' : ¬(definition.relabel r).kind = .definition true := returns
        rw [if_neg returns, if_neg returns']
        exact (InStep.pure none).bind fun _ => .addFunction (.procedure procedure.id) _

theorem defineAll_inStep (r : Relabeling) (g : Graph) (listed : List Procedure) :
    InStep r (defineAll g listed) (defineAll (g.relabel r) (listed.map (·.relabel r))) := by
  induction listed with
  | nil => exact .pure ()
  | cons procedure rest ih =>
    simp only [List.map_cons, defineAll, Procedure.relabel, Graph.relabel_block?]
    cases g.block? procedure.definition with
    | none => exact ih
    | some definition => exact (define_inStep r g definition).bind fun _ => ih

theorem programPass_inStep (r : Relabeling) (g : Graph) :
    InStep r (programPass g) (programPass (g.relabel r)) :=
  (forest_inStep r g).bind fun _ => (defineAll_inStep r g g.procedures).finish _

-- Both passes start with the same names given.
section

variable {preamble preamble' : Preamble (List Line)} {names names' : NameTable}

theorem Mirrors.addVariables (vars : List Variable)
    (mirrors : Mirrors r ⟨names, preamble⟩ ⟨names', preamble'⟩) :
    Mirrors r ⟨vars.foldl .addVariable names, preamble⟩
      ⟨(vars.map (·.relabel r)).foldl .addVariable names', preamble'⟩ := by
  induction vars generalizing names names' with
  | nil => exact mirrors
  | cons v rest ih =>
    obtain ⟨name, claimed⟩ := mirrors.claim v.name
    apply ih
    refine { claimed with vars := ?_ }
    show (r.variableId v.id, (names'.claim v.name).1) :: names'.vars = _
    rw [name]
    exact congrArg _ mirrors.vars

theorem Mirrors.addProcedures (procedures : List Procedure)
    (mirrors : Mirrors r ⟨names, preamble⟩ ⟨names', preamble'⟩) :
    Mirrors r ⟨procedures.foldl .addProcedure names, preamble⟩
      ⟨(procedures.map (·.relabel r)).foldl .addProcedure names', preamble'⟩ := by
  induction procedures generalizing names names' with
  | nil => exact mirrors
  | cons p rest ih =>
    obtain ⟨name, claimed⟩ := mirrors.claim p.name
    apply ih
    refine { claimed with procedures := ?_ }
    show (r.procedure p.id, (names'.claim p.name).1) :: names'.procedures = _
    rw [name]
    exact congrArg _ mirrors.procedures

end

theorem mirrors_start (g : Graph) {reserved reserved' : List String} (perm : reserved'.Perm reserved) :
    Mirrors r (.start g reserved) (.start (g.relabel r) reserved') := by
  have named : Mirrors r ⟨.build g reserved, .empty⟩ ⟨.build (g.relabel r) reserved', .empty⟩ := by
    refine .addProcedures g.procedures (.addVariables g.vars ?_)
    exact ⟨perm.append_left keywords, rfl, rfl, rfl, rfl, .nil⟩
  have lines : declarations (g.relabel r) (.build (g.relabel r) reserved') = declarations g (.build g reserved) := by
    have each (v : Variable) : (NameTable.build (g.relabel r) reserved').variableName? (v.relabel r).id
        = (NameTable.build g reserved).variableName? v.id := named.variableName? v.id
    simp only [declarations, Graph.relabel, List.filterMap_map, Function.comp_def]
    exact congrArg _ (List.filterMap_congr fun v _ => each v)
  dsimp only [PassState.start]
  rw [lines]
  split
  · exact named
  · exact { named with definitions := .cons ⟨.declarations, rfl, rfl⟩ .nil }

theorem relabel_reservedNames (block : Block) : reservedNames (block.relabel r) = reservedNames block := by
  unfold reservedNames
  rw [Block.relabel_kind, Block.relabel_choiceIn?, Block.relabel_field]
  cases block.fields.get? "NUM" with
  | none => rfl
  | some value => cases value <;> rfl

-- The program with the reserved names collected from the blocks in some order.
def programFrom (order : List Block) (g : Graph) : Program :=
  let (chains, final) := (programPass g).run (.start g (order.flatMap reservedNames).eraseDups)
  ⟨final.preamble.imports, final.preamble.functions, chains⟩

def compileFrom (order : List Block) (g : Graph) (options : Options) : String :=
  (programFrom order g).text options

theorem compileFrom_values (g : Graph) (options : Options) :
    compileFrom g.blocks.values g options = compile g options := rfl

theorem eraseDups_nodup (names : List String) : names.eraseDups.Nodup := by
  induction size : names.length using Nat.strong_induction_on generalizing names with
  | _ n ih =>
    cases names with
    | nil => simp
    | cons name rest =>
      have shorter : (rest.filter (!· == name)).length < n :=
        size ▸ Nat.lt_succ_of_le (List.length_filter_le _ rest)
      rw [List.eraseDups_cons, List.nodup_cons]
      exact ⟨by simp, ih _ shorter _ rfl⟩

theorem reserved_perm {order : List Block} {g : Graph}
    (perm : order.Perm (g.relabel r).blocks.values) :
    (order.flatMap reservedNames).eraseDups.Perm (reservedIn g) := by
  have members : order.Perm (g.blocks.values.map (·.relabel r)) := perm.trans (g.relabel_values r)
  have names : (order.flatMap reservedNames).Perm (g.blocks.values.flatMap reservedNames) := by
    refine (members.flatMap_right _).trans ?_
    rw [List.flatMap_map]
    simp only [relabel_reservedNames]
    exact .refl _
  refine (List.perm_ext_iff_of_nodup (eraseDups_nodup _) (eraseDups_nodup _)).mpr fun name => ?_
  rw [List.mem_eraseDups, List.mem_eraseDups, names.mem_iff]

theorem programFrom_relabel (g : Graph) (r : Relabeling) {order : List Block}
    (perm : order.Perm (g.relabel r).blocks.values) : programFrom order (g.relabel r) = program g := by
  have inStep := programPass_inStep r g _ _ (mirrors_start g (reserved_perm perm))
  unfold programFrom program
  generalize (programPass (g.relabel r)).run _ = second at inStep ⊢
  generalize (programPass g).run _ = first at inStep ⊢
  obtain ⟨chains, s⟩ := first
  obtain ⟨chains', t⟩ := second
  obtain ⟨same, mirrors⟩ : chains' = chains ∧ Mirrors r s t := inStep
  simp only [same, mirrors.imports, mirrors.functions]

theorem compile_relabel (g : Graph) (r : Relabeling) (options : Options) :
    compile (g.relabel r) options = compile g options := by
  rw [← compileFrom_values (g.relabel r)]
  exact congrArg (·.text options) (programFrom_relabel g r (.refl _))

theorem source_independent_of_identity (g : Graph) (r : Relabeling) (options : Options)
    {order : List Block} (perm : order.Perm (g.relabel r).blocks.values) :
    compileFrom order (g.relabel r) options = compile g options ∧
      compile (g.relabel r) options = compile g options :=
  ⟨congrArg (·.text options) (programFrom_relabel g r perm), compile_relabel g r options⟩

-- Two blocks change their ids, and with them the order in which the graph keeps its blocks.
theorem swapped_blocks_same_source :
    let g := (Editing.Session.runAll {} false [.edit (.createVariable "sum"),
      .edit (.createProcedure "f" [⟨"v1"⟩] false), .edit (.addBlock .print), .edit (.addBlock .aggregate),
      .edit (.attach ⟨"b4"⟩ (.input "TEXT") ⟨"b5"⟩)]).1.graph
    let r : Relabeling := ⟨(Equiv.swap ⟨"b3"⟩ ⟨"b5"⟩).toEmbedding, (Equiv.swap ⟨"v1"⟩ ⟨"z"⟩).toEmbedding,
      (Equiv.swap ⟨"p2"⟩ ⟨""⟩).toEmbedding, fun _ => some ⟨.zero, .nan⟩⟩
    let order := (g.relabel r).blocks.values.reverse
    (g.relabel r ≠ g ∧ order ≠ (g.relabel r).blocks.values ∧ order.Perm (g.relabel r).blocks.values) ∧
      compileFrom order (g.relabel r) {} = compile g {} ∧ compile (g.relabel r) {} = compile g {} :=
  ⟨⟨by decide +kernel, by decide +kernel, List.reverse_perm _⟩,
    source_independent_of_identity _ _ {} (List.reverse_perm _)⟩

end Generation
end Blockwork
