import Mathlib
import Blockwork.Proofs.Passes

-- The expression that a block with its inputs stands for. Nothing is rendered
-- here: names are looked up, and an empty input is what its rule puts there.
namespace Blockwork.Generation

open Python

def unaryMeaning (operation : Option String) (value : Expr) : Expr :=
  match operation with
  | some "NEG" => .opposite value
  | some "ABS" => .apply "abs" [value]
  | some "LN" => .call (mathMember "log") [value]
  | some "LOG10" => .call (mathMember "log10") [value]
  | some "EXP" => .call (mathMember "exp") [value]
  | some "POW10" => .call (mathMember "pow") [.numeral "10", value]
  | _ => .call (mathMember "sqrt") [value]

def constantMeaning (constant : Option String) : Expr :=
  let root (value : Expr) := Expr.call (mathMember "sqrt") [value]
  match constant with
  | some "INFINITY" => .apply "float" [.text "inf"]
  | some "E" => mathMember "e"
  | some "GOLDEN_RATIO" =>
    .binary .divide (.binary .add (.numeral "1") (root (.numeral "5"))) (.numeral "2")
  | some "SQRT2" => root (.numeral "2")
  | some "SQRT1_2" => root (.binary .divide (.numeral "1.0") (.numeral "2"))
  | _ => mathMember "pi"

def roundMeaning (operation : Option String) (value : Expr) : Expr :=
  match operation with
  | some "ROUNDUP" => .call (mathMember "ceil") [value]
  | some "ROUNDDOWN" => .call (mathMember "floor") [value]
  | _ => .apply "round" [value]

def aggregateMeaning (names : NameTable) (operation : Option String) (list : Expr) : Expr :=
  match operation with
  | some "MIN" => .apply "min" [list]
  | some "MAX" => .apply "max" [list]
  | some "AVERAGE" => .apply ((names.helperName? "math_mean").getD "math_mean") [list]
  | some "RANDOM" => .send (.name "random") "choice" [list]
  | _ => .apply "sum" [list]

def joinMeaning : List Expr → Expr
  | [] => emptyTextExpr
  | [a] => .apply "str" [a]
  | [a, b] => .binary .add (.apply "str" [a]) (.apply "str" [b])
  | parts => .send emptyTextExpr "join" [.apply "map" [.name "str", .list parts]]

-- The expression of a block whose inputs hold the given ones. Blocks that yield no
-- value have none.
def blockMeaning (names : NameTable) (block : Block) (inputs : String → Option Expr) : Expr :=
  let operation := block.choiceIn? "OP"
  let input (slot : String) (standIn : Expr) := (inputs slot).getD standIn
  let inputsFrom (slot : Nat → String) (standIn : Expr) :=
    (List.range block.extent.items).map fun n => input (slot n) standIn
  match block.kind with
  | .compare => .binary (compareOperator operation) (input "A" zeroExpr) (input "B" zeroExpr)
  | .logical =>
    let missing := (inputs "A").isNone && (inputs "B").isNone
    if operation = some "OR" then .binary .either (input "A" falseExpr) (input "B" falseExpr)
    else if missing then .binary .both falseExpr falseExpr
    else .binary .both (input "A" trueExpr) (input "B" trueExpr)
  | .negation => .negation (input "BOOL" trueExpr)
  | .boolean => if block.choiceIn? "BOOL" = some "FALSE" then falseExpr else trueExpr
  | .ternary => .conditional (input "THEN" noneExpr) (input "IF" falseExpr) (input "ELSE" noneExpr)
  | .number => numberValue block
  | .arithmetic => .binary (arithmeticOperator operation) (input "A" zeroExpr) (input "B" zeroExpr)
  | .unary => unaryMeaning operation (input "NUM" zeroExpr)
  | .constant => constantMeaning (block.choiceIn? "CONSTANT")
  | .modulo => .binary .modulo (input "DIVIDEND" zeroExpr) (input "DIVISOR" zeroExpr)
  | .round => roundMeaning operation (input "NUM" zeroExpr)
  | .randomInteger => .send (.name "random") "randint" [input "FROM" zeroExpr, input "TO" zeroExpr]
  | .randomFraction => .send (.name "random") "random" []
  | .aggregate => aggregateMeaning names operation (input "LIST" emptyListExpr)
  | .text => .text (fieldText block)
  | .textJoin => joinMeaning (inputsFrom Kind.itemName emptyTextExpr)
  | .textLength => .apply "len" [input "VALUE" emptyTextExpr]
  | .listOf => .list (inputsFrom Kind.itemName noneExpr)
  | .listLength => .apply "len" [input "VALUE" emptyListExpr]
  | .listIsEmpty => .negation (.apply "len" [input "VALUE" emptyListExpr])
  | .listGet =>
    let list := input "VALUE" emptyListExpr
    if block.choiceIn? "WHERE" ≠ some "FROM_START" then .item list zeroExpr
    else if block.choiceIn? "MODE" = some "GET_REMOVE" ∨ block.choiceIn? "MODE" = some "REMOVE" then
      .send list "pop" [input "AT" zeroExpr]
    else .item list (input "AT" zeroExpr)
  | .variableGet => .name (((block.variableIn? "VAR").bind names.variableName?).getD "None")
  | .call true =>
    match (block.procedureIn? "NAME").bind names.procedureName? with
    | some name => .apply name (inputsFrom Kind.argumentName noneExpr)
    | none => noneExpr
  | _ => noneExpr

mutual

def treeMeaning (names : NameTable) : Tree → Expr
  | .node block branches => blockMeaning names block (inputMeaning names branches)

def inputMeaning (names : NameTable) : List (Place × Tree) → String → Option Expr
  | [], _ => none
  | (place, tree) :: rest, slot =>
    if place = .input slot then some (treeMeaning names tree) else inputMeaning names rest slot

end

theorem inputMeaning_eq (names : NameTable) (branches : List (Place × Tree)) (slot : String) :
    inputMeaning names branches slot = (branches.lookup (.input slot)).map (treeMeaning names) := by
  induction branches with
  | nil => rfl
  | cons head rest ih =>
    obtain ⟨place, tree⟩ := head
    rw [inputMeaning, ih, List.lookup_cons]
    by_cases same : place = .input slot
    · simp [same]
    · have apart : (Place.input slot == place) = false := beq_eq_false_iff_ne.mpr (Ne.symm same)
      simp [same, apart]

-- All of it is legible where the inputs are.
theorem apply_legible {function : String} {args : List Expr} (proper : isIdentifier function = true)
    (each : ∀ e ∈ args, e.Legible) : (Expr.apply function args).Legible :=
  .call (.name (.inl proper)) each

theorem send_legible {object : Expr} {member : String} {args : List Expr} (owner : object.Legible)
    (solid : ∀ digits, object ≠ .numeral digits) (proper : isIdentifier member = true)
    (each : ∀ e ∈ args, e.Legible) : (Expr.send object member args).Legible :=
  .call (.member owner solid proper) each

theorem mathMember_legible {member : String} (proper : isIdentifier member = true) :
    (mathMember member).Legible := .member (.name (.inl (by decide))) (by simp) proper

theorem mathCall_legible {member : String} {args : List Expr} (proper : isIdentifier member = true)
    (each : ∀ e ∈ args, e.Legible) : (Expr.call (mathMember member) args).Legible :=
  .call (mathMember_legible proper) each

theorem one_legible {e : Expr} (legible : e.Legible) : ∀ other ∈ [e], other.Legible := by
  simpa using legible

theorem zeroExpr_legible : zeroExpr.Legible := .numeral (by decide)
theorem noneExpr_legible : noneExpr.Legible := .name (.inr (by decide))
theorem falseExpr_legible : falseExpr.Legible := .name (.inr (by decide))
theorem trueExpr_legible : trueExpr.Legible := .name (.inr (by decide))
theorem emptyListExpr_legible : emptyListExpr.Legible := .list (by simp)
theorem emptyTextExpr_legible : emptyTextExpr.Legible := .text _

theorem ofDouble_legible (value : Double) : (Expr.ofDouble value).Legible := by
  have infinite : (Expr.apply "float" [.text "inf"]).Legible :=
    apply_legible (by decide) (one_legible (.text _))
  unfold Expr.ofDouble
  split
  · exact apply_legible (by decide) (one_legible (.text _))
  · exact infinite
  · exact .opposite infinite
  · next negative rank =>
    have magnitude := Expr.Legible.numeral (isNumeral_magnitude rank.val)
    dsimp only
    split
    · exact .opposite magnitude
    · exact magnitude

theorem unaryMeaning_legible (operation : Option String) {value : Expr} (legible : value.Legible) :
    (unaryMeaning operation value).Legible := by
  unfold unaryMeaning
  split
  · exact .opposite legible
  · exact apply_legible (by decide) (one_legible legible)
  · exact mathCall_legible (by decide) (one_legible legible)
  · exact mathCall_legible (by decide) (one_legible legible)
  · exact mathCall_legible (by decide) (one_legible legible)
  · have ten : (Expr.numeral "10").Legible := .numeral (by decide)
    refine mathCall_legible (by decide) ?_
    simp [ten, legible]
  · exact mathCall_legible (by decide) (one_legible legible)

theorem constantMeaning_legible (constant : Option String) : (constantMeaning constant).Legible := by
  have number : ∀ digits, isNumeral digits.toList = true → (Expr.numeral digits).Legible :=
    fun _ proper => .numeral proper
  have root : ∀ {value : Expr}, value.Legible → (Expr.call (mathMember "sqrt") [value]).Legible :=
    fun legible => mathCall_legible (by decide) (one_legible legible)
  unfold constantMeaning
  dsimp only
  split
  · exact apply_legible (by decide) (one_legible (.text _))
  · exact mathMember_legible (by decide)
  · exact .binary (.binary (number _ (by decide)) (root (number _ (by decide)))) (number _ (by decide))
  · exact root (number _ (by decide))
  · exact root (.binary (number _ (by decide)) (number _ (by decide)))
  · exact mathMember_legible (by decide)

theorem roundMeaning_legible (operation : Option String) {value : Expr} (legible : value.Legible) :
    (roundMeaning operation value).Legible := by
  unfold roundMeaning
  split
  · exact mathCall_legible (by decide) (one_legible legible)
  · exact mathCall_legible (by decide) (one_legible legible)
  · exact apply_legible (by decide) (one_legible legible)

theorem aggregateMeaning_legible {names : NameTable} (proper : names.Legible) (operation : Option String)
    {list : Expr} (legible : list.Legible) : (aggregateMeaning names operation list).Legible := by
  unfold aggregateMeaning
  split
  · exact apply_legible (by decide) (one_legible legible)
  · exact apply_legible (by decide) (one_legible legible)
  · exact apply_legible (NameTable.lookup_getD_identifier proper.helpers "math_mean" (by decide))
      (one_legible legible)
  · exact send_legible (.name (.inl (by decide))) (by simp) (by decide) (one_legible legible)
  · exact apply_legible (by decide) (one_legible legible)

theorem joinMeaning_legible {parts : List Expr} (each : ∀ e ∈ parts, e.Legible) :
    (joinMeaning parts).Legible := by
  have text : ∀ {part : Expr}, part.Legible → (Expr.apply "str" [part]).Legible :=
    fun legible => apply_legible (by decide) (one_legible legible)
  unfold joinMeaning
  split
  · exact emptyTextExpr_legible
  · exact text (each _ (by simp))
  · exact .binary (text (each _ (by simp))) (text (each _ (by simp)))
  · have str : (Expr.name "str").Legible := .name (.inl (by decide))
    have all := Expr.Legible.list each
    have mapped : (Expr.apply "map" [.name "str", .list parts]).Legible := by
      refine apply_legible (by decide) ?_
      simp [str, all]
    exact send_legible emptyTextExpr_legible (by simp [emptyTextExpr]) (by decide) (one_legible mapped)

-- A number has no members, so it must not be where a list is taken from.
theorem blockMeaning_legible {names : NameTable} (proper : names.Legible) {block : Block}
    {inputs : String → Option Expr} (each : ∀ slot e, inputs slot = some e → e.Legible)
    (solid : block.kind = .listGet → ∀ digits, inputs "VALUE" ≠ some (.numeral digits)) :
    (blockMeaning names block inputs).Legible := by
  have input : ∀ {standIn : Expr}, standIn.Legible → ∀ slot, ((inputs slot).getD standIn).Legible := by
    intro standIn legible slot
    cases given : inputs slot with
    | none => exact legible
    | some e => exact each slot e given
  have several : ∀ {standIn : Expr}, standIn.Legible → ∀ slot : Nat → String,
      ∀ e ∈ (List.range block.extent.items).map fun n => (inputs (slot n)).getD standIn, e.Legible := by
    intro standIn legible slot e listed
    obtain ⟨n, _, rfl⟩ := List.mem_map.mp listed
    exact input legible _
  have zero := input zeroExpr_legible
  have none := input noneExpr_legible
  have no := input falseExpr_legible
  have yes := input trueExpr_legible
  have list := input emptyListExpr_legible
  have text := input emptyTextExpr_legible
  have random : (Expr.name "random").Legible := .name (.inl (by decide))
  unfold blockMeaning
  dsimp only
  cases kind : block.kind with
  | compare | arithmetic | modulo => exact .binary (zero _) (zero _)
  | logical =>
    dsimp only
    split
    · exact .binary (no _) (no _)
    split
    · exact .binary falseExpr_legible falseExpr_legible
    · exact .binary (yes _) (yes _)
  | negation => exact .negation (yes _)
  | boolean =>
    dsimp only
    split
    · exact falseExpr_legible
    · exact trueExpr_legible
  | ternary => exact .conditional (none _) (no _) (none _)
  | number =>
    unfold numberValue
    dsimp only
    split
    · exact ofDouble_legible _
    · exact zeroExpr_legible
  | unary => exact unaryMeaning_legible _ (zero _)
  | constant => exact constantMeaning_legible _
  | round => exact roundMeaning_legible _ (zero _)
  | randomInteger =>
    refine send_legible random (by simp) (by decide) ?_
    simp [zero]
  | randomFraction => exact send_legible random (by simp) (by decide) (by simp)
  | aggregate => exact aggregateMeaning_legible proper _ (list _)
  | text => exact .text _
  | textJoin => exact joinMeaning_legible (several emptyTextExpr_legible _)
  | textLength => exact apply_legible (by decide) (one_legible (text _))
  | listOf => exact .list (several noneExpr_legible _)
  | listLength => exact apply_legible (by decide) (one_legible (list _))
  | listIsEmpty => exact .negation (apply_legible (by decide) (one_legible (list _)))
  | listGet =>
    have owner : ∀ digits, (inputs "VALUE").getD emptyListExpr ≠ .numeral digits := by
      intro digits same
      cases given : inputs "VALUE" with
      | none =>
        rw [given] at same
        cases same
      | some e =>
        rw [given] at same
        exact solid kind digits (given.trans (congrArg some same))
    dsimp only
    split
    · exact .item (list _) zeroExpr_legible
    split
    · exact send_legible (list _) owner (by decide) (one_legible (zero _))
    · exact .item (list _) (zero _)
  | variableGet =>
    refine .name ?_
    cases found : (block.variableIn? "VAR").bind names.variableName? with
    | none => exact .inr (by decide)
    | some name =>
      obtain ⟨v, _, named⟩ := Option.bind_eq_some_iff.mp found
      exact .inl (NameTable.lookup_identifier proper.vars named)
  | call returns =>
    cases returns with
    | false => exact noneExpr_legible
    | true =>
      dsimp only
      cases found : (block.procedureIn? "NAME").bind names.procedureName? with
      | none => exact noneExpr_legible
      | some name =>
        obtain ⟨p, _, named⟩ := Option.bind_eq_some_iff.mp found
        exact apply_legible (NameTable.lookup_identifier proper.procedures named)
          (several noneExpr_legible _)
  | _ => exact noneExpr_legible

theorem blockMeaning_solid (names : NameTable) {block : Block} (inputs : String → Option Expr)
    (other : block.kind.output ≠ some .number) (digits : String) :
    blockMeaning names block inputs ≠ .numeral digits := by
  unfold blockMeaning
  dsimp only
  cases kind : block.kind with
  | number | arithmetic | unary | constant | modulo | round | randomInteger | randomFraction | aggregate
  | textLength | listLength =>
    rw [kind] at other
    exact absurd rfl other
  | logical | listGet =>
    dsimp only
    split
    · simp
    split
    · simp [Expr.send]
    · simp
  | boolean =>
    dsimp only
    split
    · simp [falseExpr]
    · simp [trueExpr]
  | textJoin =>
    dsimp only
    unfold joinMeaning
    split <;> simp [emptyTextExpr, Expr.apply, Expr.send]
  | call returns =>
    cases returns with
    | false => simp [noneExpr]
    | true =>
      dsimp only
      split
      · simp [Expr.apply]
      · simp [noneExpr]
  | _ => simp [noneExpr]

end Blockwork.Generation
