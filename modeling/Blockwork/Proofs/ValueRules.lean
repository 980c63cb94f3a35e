import Mathlib
import Blockwork.Proofs.Meaning
import Blockwork.Proofs.Phrases
import Blockwork.Proofs.Reachability

-- The rule of a block that yields a value gives back its expression, and the
-- text of that expression is read as the expression again.
namespace Blockwork.Generation

open Python

variable {g : Graph}

def Supplies (g : Graph) (below : Below) (inputs : NameTable → String → Option Expr) : Prop :=
  ∀ slot, Yields g (below.value? slot) fun names => inputs names slot

section
variable {below : Below} {inputs : NameTable → String → Option Expr}

theorem Supplies.valueOr (supplies : Supplies g below inputs) (slot : String) (standIn : Expr) :
    Yields g (below.valueOr slot standIn) fun names => (inputs names slot).getD standIn :=
  (supplies slot).bind fun e => .pure (e.getD standIn)

theorem Supplies.valuesOr (supplies : Supplies g below inputs) (slots : List String) (standIn : Expr) :
    Yields g (below.valuesOr slots standIn)
      fun names => slots.map fun slot => (inputs names slot).getD standIn := by
  induction slots with
  | nil => exact .pure []
  | cons slot rest ih =>
    exact (supplies.valueOr slot standIn).bind fun first => ih.bind fun others => .pure (first :: others)

theorem Supplies.numbered (supplies : Supplies g below inputs) (count : Nat) (slot : Nat → String)
    (standIn : Expr) : Yields g (below.valuesOr ((List.range count).map slot) standIn)
      fun names => (List.range count).map fun n => (inputs names (slot n)).getD standIn := by
  refine (supplies.valuesOr _ standIn).congr fun names => ?_
  rw [List.map_map]
  rfl

-- Rules with several inputs, or with something to do besides.
theorem operands_yield (supplies : Supplies g below inputs) (operator : Operator) (left right : String) :
    Yields g (do return Expr.binary operator (← below.valueOr left zeroExpr) (← below.valueOr right zeroExpr))
      fun names => .binary operator ((inputs names left).getD zeroExpr) ((inputs names right).getD zeroExpr) :=
  .congr ((supplies.valueOr left zeroExpr).bind fun _ => (supplies.valueOr right zeroExpr).bind
    fun _ => .pure _) fun _ => rfl

theorem logicalValue_yields (supplies : Supplies g below inputs) (block : Block) :
    Yields g (logicalValue block below) fun names =>
      if block.choiceIn? "OP" = some "OR" then
        .binary .either ((inputs names "A").getD falseExpr) ((inputs names "B").getD falseExpr)
      else if (inputs names "A").isNone && (inputs names "B").isNone then .binary .both falseExpr falseExpr
      else .binary .both ((inputs names "A").getD trueExpr) ((inputs names "B").getD trueExpr) := by
  refine .congr ((supplies "A").bind fun _ => (supplies "B").bind fun _ => .pure _) fun names => ?_
  by_cases either : block.choiceIn? "OP" = some "OR"
  · simp [either]
  · rcases inputs names "A" with _ | a <;> rcases inputs names "B" with _ | b <;> simp [either]

theorem ternaryValue_yields (supplies : Supplies g below inputs) :
    Yields g (ternaryValue below) fun names => .conditional ((inputs names "THEN").getD noneExpr)
      ((inputs names "IF").getD falseExpr) ((inputs names "ELSE").getD noneExpr) :=
  .congr ((supplies.valueOr "IF" falseExpr).bind fun _ => (supplies.valueOr "THEN" noneExpr).bind
    fun _ => (supplies.valueOr "ELSE" noneExpr).bind fun _ => .pure _) fun _ => rfl

theorem unaryValue_yields (supplies : Supplies g below inputs) (block : Block) :
    Yields g (unaryValue block below)
      fun names => unaryMeaning (block.choiceIn? "OP") ((inputs names "NUM").getD zeroExpr) := by
  unfold unaryValue
  refine .congr ((supplies.valueOr "NUM" zeroExpr).bind
    fun value => (?_ : Yields g _ fun _ => unaryMeaning (block.choiceIn? "OP") value)) fun _ => rfl
  split
  · next same =>
    rw [same]
    exact .pure _
  · next same =>
    rw [same]
    exact .pure _
  · refine .congr ((addImport_yields (by decide)).bind fun _ => .pure _) fun _ => ?_
    unfold unaryMeaning
    split <;> simp_all

theorem constantValue_yields (block : Block) :
    Yields g (constantValue block) fun _ => constantMeaning (block.choiceIn? "CONSTANT") := by
  unfold constantValue
  split
  · next same =>
    rw [same]
    exact .pure _
  · refine .congr ((addImport_yields (by decide)).bind fun _ => .pure _) fun _ => ?_
    unfold constantMeaning
    split <;> simp_all

theorem roundValue_yields (supplies : Supplies g below inputs) (block : Block) :
    Yields g (roundValue block below)
      fun names => roundMeaning (block.choiceIn? "OP") ((inputs names "NUM").getD zeroExpr) := by
  unfold roundValue
  refine .congr ((supplies.valueOr "NUM" zeroExpr).bind
    fun value => (?_ : Yields g _ fun _ => roundMeaning (block.choiceIn? "OP") value)) fun _ => rfl
  split
  · next same =>
    rw [same]
    exact (addImport_yields (by decide)).bind fun _ => .pure _
  · next same =>
    rw [same]
    exact (addImport_yields (by decide)).bind fun _ => .pure _
  · refine .congr (.pure _) fun _ => ?_
    unfold roundMeaning
    split <;> simp_all

theorem randomIntegerValue_yields (supplies : Supplies g below inputs) :
    Yields g (randomIntegerValue below) fun names => .send (.name "random") "randint"
      [(inputs names "FROM").getD zeroExpr, (inputs names "TO").getD zeroExpr] :=
  .congr ((addImport_yields (by decide)).bind fun _ => (supplies.valueOr "FROM" zeroExpr).bind
    fun _ => (supplies.valueOr "TO" zeroExpr).bind fun _ => .pure _) fun _ => rfl

theorem meanLines_blocked {name : String} (proper : isIdentifier name = true) :
    Blocked false (meanLines name) := by
  have head : "def " ++ name ++ "(myList):" = "def " ++ (name ++ "(myList)") ++ ":" := by
    rw [String.append_assoc, String.append_assoc, String.append_assoc]
    rfl
  have single : Single (name ++ "(myList)") := (Phrase.of_identifier proper).single.append (by decide)
  have first : Phrase "localList = [e for e in myList if isinstance(e, Number)]" :=
    ⟨by decide, by decide, by decide⟩
  have second : Phrase "if not localList: return" := ⟨by decide, by decide, by decide⟩
  have third : Phrase "return float(sum(localList)) / len(localList)" := ⟨by decide, by decide, by decide⟩
  have inner := first.suite.append (second.suite.append third.suite.blocked).blocked
  rw [meanLines, head]
  exact (Suite.compound (by decide) single inner).blocked

theorem aggregateValue_yields (supplies : Supplies g below inputs) (block : Block) :
    Yields g (aggregateValue block below) fun names =>
      aggregateMeaning names (block.choiceIn? "OP") ((inputs names "LIST").getD emptyListExpr) := by
  have mean : Yields g (helperFunction "math_mean" meanLines)
      fun names => (names.helperName? "math_mean").getD "math_mean" :=
    helperFunction_yields "math_mean" (by simp [meanLines]) fun _ => meanLines_blocked
  unfold aggregateValue
  refine .congr ((supplies.valueOr "LIST" emptyListExpr).bind
    fun list => (?_ : Yields g _ fun names => aggregateMeaning names (block.choiceIn? "OP") list))
    fun _ => rfl
  split
  · next same =>
    rw [same]
    exact .pure _
  · next same =>
    rw [same]
    exact .pure _
  · next same =>
    rw [same]
    exact .congr ((addImport_yields (by decide)).bind fun _ => mean.bind fun _ => .pure _) fun _ => rfl
  · next same =>
    rw [same]
    exact (addImport_yields (by decide)).bind fun _ => .pure _
  · refine .congr (.pure _) fun names => ?_
    unfold aggregateMeaning
    split <;> simp_all

theorem joinValue_yields (supplies : Supplies g below inputs) (block : Block) :
    Yields g (joinValue block below) fun names => joinMeaning
      ((List.range block.extent.items).map fun n => (inputs names (Kind.itemName n)).getD emptyTextExpr) := by
  refine .congr ((supplies.numbered block.extent.items Kind.itemName emptyTextExpr).bind
    fun _ => .pure _) fun names => ?_
  generalize (List.range block.extent.items).map _ = parts
  rcases parts with _ | ⟨a, _ | ⟨b, _ | ⟨c, rest⟩⟩⟩ <;> rfl

theorem listGetValue_yields (supplies : Supplies g below inputs) (block : Block) :
    Yields g (listGetValue block below) fun names =>
      let list := (inputs names "VALUE").getD emptyListExpr
      if block.choiceIn? "WHERE" ≠ some "FROM_START" then .item list zeroExpr
      else if block.choiceIn? "MODE" = some "GET_REMOVE" ∨ block.choiceIn? "MODE" = some "REMOVE" then
        .send list "pop" [(inputs names "AT").getD zeroExpr]
      else .item list ((inputs names "AT").getD zeroExpr) := by
  unfold listGetValue
  by_cases start : block.choiceIn? "WHERE" = some "FROM_START"
  · simp only [start, ne_eq, not_true_eq_false, if_false]
    refine .congr ((supplies.valueOr "VALUE" emptyListExpr).bind fun _ =>
      (supplies.valueOr "AT" zeroExpr).bind fun _ => .pure _) fun names => ?_
    split <;> simp_all
  · simp only [start, ne_eq, not_false_eq_true, if_true]
    exact .congr ((supplies.valueOr "VALUE" emptyListExpr).bind fun _ => .pure _) fun _ => rfl

theorem callValue?_yields (supplies : Supplies g below inputs) (block : Block) :
    Yields g (callValue? block below) fun names =>
      ((block.procedureIn? "NAME").bind names.procedureName?).map fun name => .apply name
        ((List.range block.extent.items).map fun n => (inputs names (Kind.argumentName n)).getD noneExpr) := by
  unfold callValue?
  refine .congr ((procedureName?_yields block "NAME").bind fun found =>
    (?_ : Yields g _ fun names => found.map fun name => .apply name
      ((List.range block.extent.items).map fun n => (inputs names (Kind.argumentName n)).getD noneExpr)))
    fun _ => rfl
  cases found with
  | none => exact .pure _
  | some name =>
    exact .congr ((supplies.numbered block.extent.items Kind.argumentName noneExpr).bind
      fun _ => .pure _) fun _ => rfl

theorem rule_yields (supplies : Supplies g below inputs) {block : Block}
    (valued : block.kind.connection = .expression) (inLoop : Bool) :
    Yields g (rule block below inLoop) fun names => .expression (blockMeaning names block (inputs names)) := by
  have wrapped : ∀ {action : Pass Expr} {value : NameTable → Expr}, Yields g action value →
      Yields g (do return Code.expression (← action)) fun names => .expression (value names) :=
    fun yields => yields.bind fun _ => .pure _
  have input : ∀ slot standIn, ∀ make : Expr → Expr,
      Yields g (do return Code.expression (make (← below.valueOr slot standIn)))
        fun names => .expression (make ((inputs names slot).getD standIn)) :=
    fun slot standIn make => (supplies.valueOr slot standIn).bind fun _ => .pure _
  unfold rule blockMeaning
  dsimp only
  cases kind : block.kind with
  | compare | arithmetic => exact wrapped (operands_yield supplies _ "A" "B")
  | modulo => exact wrapped (operands_yield supplies _ "DIVIDEND" "DIVISOR")
  | logical => exact wrapped (logicalValue_yields supplies block)
  | negation => exact input "BOOL" trueExpr .negation
  | boolean | null | number | text => exact .pure _
  | ternary => exact wrapped (ternaryValue_yields supplies)
  | unary => exact wrapped (unaryValue_yields supplies block)
  | constant => exact wrapped (constantValue_yields block)
  | round => exact wrapped (roundValue_yields supplies block)
  | randomInteger => exact wrapped (randomIntegerValue_yields supplies)
  | randomFraction => exact wrapped ((addImport_yields (by decide)).bind fun _ => .pure _)
  | aggregate => exact wrapped (aggregateValue_yields supplies block)
  | textJoin => exact wrapped (joinValue_yields supplies block)
  | textLength => exact input "VALUE" emptyTextExpr fun e => .apply "len" [e]
  | listOf =>
    exact .congr (wrapped ((supplies.numbered block.extent.items Kind.itemName noneExpr).bind
      fun _ => .pure _)) fun _ => rfl
  | listLength => exact input "VALUE" emptyListExpr fun e => .apply "len" [e]
  | listIsEmpty => exact input "VALUE" emptyListExpr fun e => .negation (.apply "len" [e])
  | listGet => exact wrapped (listGetValue_yields supplies block)
  | variableGet => exact .congr ((variableName?_yields block "VAR").bind fun _ => .pure _) fun _ => rfl
  | call returns =>
    cases returns with
    | false =>
      rw [kind] at valued
      cases valued
    | true =>
      refine .congr ((callValue?_yields supplies block).bind fun _ => .pure _) fun names => ?_
      dsimp only
      cases (block.procedureIn? "NAME").bind names.procedureName? with
      | none => rfl
      | some name => rfl
  | _ =>
    rw [kind] at valued
    cases valued

end

-- Trees. What hangs at a place of a full tree is a full tree that the place admits.
theorem lookup_renderBranches (branches : List (Place × Tree)) (place : Place) :
    (renderBranches branches).lookup place = (branches.lookup place).map renderTree := by
  induction branches with
  | nil => rfl
  | cons head rest ih =>
    obtain ⟨other, tree⟩ := head
    rw [renderBranches, List.lookup_cons, List.lookup_cons, ih]
    split <;> rfl

theorem full_child (wf : g.WellFormed) {block : Block} {branches : List (Place × Tree)}
    (full : g.Full (.node block branches)) {place : Place} {tree : Tree}
    (hangs : branches.lookup place = some tree) :
    (place, tree) ∈ branches ∧ g.Full tree ∧ Graph.Asks block place tree.block.kind := by
  obtain ⟨before, after, rfl, _⟩ := List.lookup_eq_some_iff.mp hangs
  have branch : (place, tree) ∈ before ++ (place, tree) :: after := by simp
  have holds := full.branch branch
  cases full with
  | node found whole below =>
    have inner := below _ branch
    obtain ⟨c, known, _, asks⟩ := wf.lawful.children _ _ _ _ found holds
    cases known.symm.trans inner.found
    exact ⟨branch, inner, asks⟩

theorem children_supply (wf : g.WellFormed) {block : Block} {branches : List (Place × Tree)}
    (full : g.Full (.node block branches)) (each : ∀ p ∈ branches, p.2.block.kind.connection = .expression →
      Yields g ((renderTree p.2).code false) fun names => .expression (treeMeaning names p.2)) :
    Supplies g (renderBranches branches) fun names => inputMeaning names branches := by
  intro slot
  simp only [inputMeaning_eq]
  unfold Below.value?
  rw [lookup_renderBranches]
  cases hangs : branches.lookup (.input slot) with
  | none => exact .pure _
  | some tree =>
    obtain ⟨branch, _, asks⟩ := full_child wf full hangs
    exact (each _ branch asks.1).finish fun _ => rfl

theorem code_yields (wf : g.WellFormed) {tree : Tree} (full : g.Full tree)
    (valued : tree.block.kind.connection = .expression) (inLoop : Bool) :
    Yields g ((renderTree tree).code inLoop) fun names => .expression (treeMeaning names tree) := by
  induction full generalizing inLoop with
  | node found whole below ih =>
    have supplies := children_supply wf (.node found whole below) fun p branch valued => ih p branch valued false
    exact rule_yields supplies valued inLoop

theorem branches_supply (wf : g.WellFormed) {block : Block} {branches : List (Place × Tree)}
    (full : g.Full (.node block branches)) :
    Supplies g (renderBranches branches) fun names => inputMeaning names branches := by
  refine children_supply wf full fun p branch valued => ?_
  cases full with
  | node _ _ below => exact code_yields wf (below p branch) valued false

-- No number where a list is asked for.
theorem inputMeaning_solid (wf : g.WellFormed) {block : Block} {branches : List (Place × Tree)}
    (full : g.Full (.node block branches)) {slot : String}
    (list : block.kind.slot? block.extent slot = some (.input (some .array))) (names : NameTable)
    (digits : String) : inputMeaning names branches slot ≠ some (.numeral digits) := by
  intro given
  rw [inputMeaning_eq] at given
  obtain ⟨tree, hangs, same⟩ := Option.map_eq_some_iff.mp given
  obtain ⟨_, _, _, check, sort, typed⟩ := full_child wf full hangs
  cases sort.symm.trans list
  obtain ⟨child, inner⟩ := tree
  refine blockMeaning_solid names _ (fun number => ?_) digits same
  exact absurd (typed _ _ rfl number) (by decide)

theorem treeMeaning_legible (wf : g.WellFormed) {tree : Tree} (full : g.Full tree) {names : NameTable}
    (proper : names.Legible) : (treeMeaning names tree).Legible := by
  induction full with
  | @node block branches found whole below ih =>
    have full := Graph.Full.node found whole below
    refine blockMeaning_legible proper (fun slot e given => ?_) (fun kind => ?_)
    · rw [inputMeaning_eq] at given
      obtain ⟨tree, hangs, rfl⟩ := Option.map_eq_some_iff.mp given
      exact ih _ (full_child wf full hangs).1
    · exact inputMeaning_solid wf full (by rw [kind]; rfl) names

end Blockwork.Generation
