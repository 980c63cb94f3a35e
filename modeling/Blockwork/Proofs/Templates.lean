import Mathlib
import Blockwork.Proofs.GivenNames
import Blockwork.Proofs.NumberText

-- What the blocks that yield a value stand for, written down as text of the
-- target language with the names of the inputs as holes. The grammar reads these
-- texts; nothing here is taken from the rules that render blocks. The last
-- results say that whatever the rules render is what the texts say.
namespace Blockwork.Python.Expr

mutual

-- The expression with other expressions in place of some of its names.
def fill (holes : String → Option Expr) : Expr → Expr
  | .name id => (holes id).getD (.name id)
  | .numeral digits => .numeral digits
  | .text value => .text value
  | .list items => .list (fillAll holes items)
  | .call function args => .call (function.fill holes) (fillAll holes args)
  | .attribute object member => .attribute (object.fill holes) member
  | .item object position => .item (object.fill holes) (position.fill holes)
  | .opposite operand => .opposite (operand.fill holes)
  | .negation operand => .negation (operand.fill holes)
  | .binary operator left right => .binary operator (left.fill holes) (right.fill holes)
  | .conditional value condition otherwise =>
    .conditional (value.fill holes) (condition.fill holes) (otherwise.fill holes)

def fillAll (holes : String → Option Expr) : List Expr → List Expr
  | [] => []
  | e :: rest => e.fill holes :: fillAll holes rest

end

end Blockwork.Python.Expr

namespace Blockwork.Generation

open Python

-- A text, and the options that the block has to have chosen for it.
structure Template where
  choices : List (String × String)
  text : String
  deriving DecidableEq

def templates : Kind → List Template
  | .compare =>
    [⟨[("OP", "EQ")], "A == B"⟩, ⟨[("OP", "NEQ")], "A != B"⟩, ⟨[("OP", "LT")], "A < B"⟩,
      ⟨[("OP", "LTE")], "A <= B"⟩, ⟨[("OP", "GT")], "A > B"⟩, ⟨[("OP", "GTE")], "A >= B"⟩]
  | .logical => [⟨[("OP", "AND")], "A and B"⟩, ⟨[("OP", "OR")], "A or B"⟩]
  | .negation => [⟨[], "not BOOL"⟩]
  | .boolean => [⟨[("BOOL", "TRUE")], "True"⟩, ⟨[("BOOL", "FALSE")], "False"⟩]
  | .null => [⟨[], "None"⟩]
  | .ternary => [⟨[], "THEN if IF else ELSE"⟩]
  | .arithmetic =>
    [⟨[("OP", "ADD")], "A + B"⟩, ⟨[("OP", "MINUS")], "A - B"⟩, ⟨[("OP", "MULTIPLY")], "A * B"⟩,
      ⟨[("OP", "DIVIDE")], "A / B"⟩, ⟨[("OP", "POWER")], "A ** B"⟩]
  | .unary =>
    [⟨[("OP", "ROOT")], "math.sqrt(NUM)"⟩, ⟨[("OP", "ABS")], "abs(NUM)"⟩, ⟨[("OP", "NEG")], "-NUM"⟩,
      ⟨[("OP", "LN")], "math.log(NUM)"⟩, ⟨[("OP", "LOG10")], "math.log10(NUM)"⟩,
      ⟨[("OP", "EXP")], "math.exp(NUM)"⟩, ⟨[("OP", "POW10")], "math.pow(10, NUM)"⟩]
  | .constant =>
    [⟨[("CONSTANT", "PI")], "math.pi"⟩, ⟨[("CONSTANT", "E")], "math.e"⟩,
      ⟨[("CONSTANT", "GOLDEN_RATIO")], "(1 + math.sqrt(5)) / 2"⟩, ⟨[("CONSTANT", "SQRT2")], "math.sqrt(2)"⟩,
      ⟨[("CONSTANT", "SQRT1_2")], "math.sqrt(1.0 / 2)"⟩, ⟨[("CONSTANT", "INFINITY")], "float('inf')"⟩]
  | .modulo => [⟨[], "DIVIDEND % DIVISOR"⟩]
  | .round =>
    [⟨[("OP", "ROUND")], "round(NUM)"⟩, ⟨[("OP", "ROUNDUP")], "math.ceil(NUM)"⟩,
      ⟨[("OP", "ROUNDDOWN")], "math.floor(NUM)"⟩]
  | .randomInteger => [⟨[], "random.randint(FROM, TO)"⟩]
  | .randomFraction => [⟨[], "random.random()"⟩]
  | .aggregate =>
    [⟨[("OP", "SUM")], "sum(LIST)"⟩, ⟨[("OP", "MIN")], "min(LIST)"⟩, ⟨[("OP", "MAX")], "max(LIST)"⟩,
      ⟨[("OP", "RANDOM")], "random.choice(LIST)"⟩]
  | .textLength | .listLength => [⟨[], "len(VALUE)"⟩]
  | .listIsEmpty => [⟨[], "not len(VALUE)"⟩]
  | .listGet =>
    [⟨[("WHERE", "FROM_START"), ("MODE", "GET")], "VALUE[AT]"⟩,
      ⟨[("WHERE", "FROM_START"), ("MODE", "GET_REMOVE")], "VALUE.pop(AT)"⟩,
      ⟨[("WHERE", "FROM_START"), ("MODE", "REMOVE")], "VALUE.pop(AT)"⟩,
      ⟨[("WHERE", "FROM_END")], "VALUE[0]"⟩, ⟨[("WHERE", "FIRST")], "VALUE[0]"⟩,
      ⟨[("WHERE", "LAST")], "VALUE[0]"⟩, ⟨[("WHERE", "RANDOM")], "VALUE[0]"⟩]
  | _ => []

-- No block fits two rows.
theorem templates_unambiguous {block : Block} {a b : Template} (first : a ∈ templates block.kind)
    (second : b ∈ templates block.kind) (one : ∀ choice ∈ a.choices, block.choiceIn? choice.1 = some choice.2)
    (other : ∀ choice ∈ b.choices, block.choiceIn? choice.1 = some choice.2) : a = b := by
  have apart : ∀ a ∈ templates block.kind, ∀ b ∈ templates block.kind, a ≠ b →
      ∃ c ∈ a.choices, ∃ d ∈ b.choices, c.1 = d.1 ∧ c.2 ≠ d.2 := by
    cases block.kind with
    | definition returns | call returns => simp [templates]
    | _ => decide
  by_contra different
  obtain ⟨c, inFirst, d, inSecond, same, conflict⟩ := apart a first b second different
  have chosen := (one c inFirst).symm.trans (same ▸ other d inSecond)
  exact conflict (Option.some.inj chosen)

-- What an empty input stands for. An operand of a logical block that is alone keeps its value.
def standIns (kind : Kind) (neutral : String) : List (String × String) :=
  match kind with
  | .compare | .arithmetic => [("A", "0"), ("B", "0")]
  | .logical => [("A", neutral), ("B", neutral)]
  | .negation => [("BOOL", "True")]
  | .ternary => [("IF", "False"), ("THEN", "None"), ("ELSE", "None")]
  | .unary | .round => [("NUM", "0")]
  | .modulo => [("DIVIDEND", "0"), ("DIVISOR", "0")]
  | .randomInteger => [("FROM", "0"), ("TO", "0")]
  | .aggregate => [("LIST", "[]")]
  | .textLength => [("VALUE", "''")]
  | .listLength | .listIsEmpty => [("VALUE", "[]")]
  | .listGet => [("VALUE", "[]"), ("AT", "0")]
  | _ => []

section
variable (block : Block) (inputs : String → Option Expr)

def neutral : String :=
  if (inputs "A").isNone && (inputs "B").isNone then "False"
  else if block.choiceIn? "OP" = some "AND" then "True" else "False"

def holes (slot : String) : Option Expr :=
  ((standIns block.kind (neutral block inputs)).lookup slot).bind fun text => (inputs slot).or (readExpr text)

-- The inputs of a block that can grow, under the names of its slots.
def grown (slot : String) (standIn : Expr) : List Expr :=
  (List.range block.extent.items).map fun n => (inputs (slot ++ toString n)).getD standIn

end

-- An expression that is read as a number, which is this number.
inductive Denotes : Double → Expr → Prop where
  | numeral {value read : Double} {digits : String} (reads : Double.read? digits = some read)
      (same : read.equals value = true) : Denotes value (.numeral digits)
  | opposite {rank : Fin rankLimit} {digits : String} (reads : Double.read? digits = some (.finite false rank)) :
      Denotes (.finite true rank) (.opposite (.numeral digits))
  | infinite {e : Expr} (spells : readExpr "float('inf')" = some e) : Denotes (.infinite false) e
  | oppositeInfinite {e : Expr} (spells : readExpr "-float('inf')" = some e) : Denotes (.infinite true) e
  | nan {e : Expr} (spells : readExpr "float('nan')" = some e) : Denotes .nan e

-- A block stands for an expression, given what its inputs stand for.
inductive BlockStands (names : NameTable) (block : Block) (inputs : String → Option Expr) : Expr → Prop where
  | template {row : Template} {shape : Expr} (listed : row ∈ templates block.kind)
      (chosen : ∀ choice ∈ row.choices, block.choiceIn? choice.1 = some choice.2)
      (spells : readExpr row.text = some shape) : BlockStands names block inputs (shape.fill (holes block inputs))
  | number {value : Double} {e : Expr} (kind : block.kind = .number)
      (holds : block.fields.get? "NUM" = some (.number value)) (denotes : Denotes value e) :
      BlockStands names block inputs e
  | text {value : String} (kind : block.kind = .text) (holds : block.fields.get? "TEXT" = some (.text value)) :
      BlockStands names block inputs (.text value)
  | average {list : Expr} (kind : block.kind = .aggregate) (chosen : block.choiceIn? "OP" = some "AVERAGE")
      (given : holes block inputs "LIST" = some list) :
      BlockStands names block inputs (.call (.name ((names.helperName? "math_mean").getD "math_mean")) [list])
  | list (kind : block.kind = .listOf) :
      BlockStands names block inputs (.list (grown block inputs "ADD" (.name "None")))
  | noText (kind : block.kind = .textJoin) (parts : grown block inputs "ADD" (.text "") = []) :
      BlockStands names block inputs (.text "")
  | oneText {a : Expr} (kind : block.kind = .textJoin) (parts : grown block inputs "ADD" (.text "") = [a]) :
      BlockStands names block inputs (.call (.name "str") [a])
  | twoTexts {a b : Expr} (kind : block.kind = .textJoin) (parts : grown block inputs "ADD" (.text "") = [a, b]) :
      BlockStands names block inputs (.binary .add (.call (.name "str") [a]) (.call (.name "str") [b]))
  | moreTexts {parts : List Expr} {shape : Expr} (kind : block.kind = .textJoin)
      (given : grown block inputs "ADD" (.text "") = parts) (more : 3 ≤ parts.length)
      (spells : readExpr "''.join(map(str, PARTS))" = some shape) :
      BlockStands names block inputs (shape.fill fun hole => if hole = "PARTS" then some (.list parts) else none)
  | variable {id : VariableId} {name : String} (kind : block.kind = .variableGet)
      (holds : block.fields.get? "VAR" = some (.variableRef id)) (named : names.variableName? id = some name) :
      BlockStands names block inputs (.name name)
  | noVariable (kind : block.kind = .variableGet) (holds : block.fields.get? "VAR" = some .empty) :
      BlockStands names block inputs (.name "None")
  | call {id : ProcedureId} {name : String} (kind : block.kind = .call true)
      (holds : block.fields.get? "NAME" = some (.procedureRef id)) (named : names.procedureName? id = some name) :
      BlockStands names block inputs (.call (.name name) (grown block inputs "ARG" (.name "None")))
  | noCall (kind : block.kind = .call true) (holds : block.fields.get? "NAME" = some .empty) :
      BlockStands names block inputs (.name "None")

inductive Stands (names : NameTable) : Tree → Expr → Prop where
  | node {block : Block} {branches : List (Place × Tree)} {e : Expr} (child : String → Expr)
      (given : ∀ slot tree, branches.lookup (.input slot) = some tree → Stands names tree (child slot))
      (own : BlockStands names block (fun slot => (branches.lookup (.input slot)).map fun _ => child slot) e) :
      Stands names (.node block branches) e

theorem readExpr_of_render {shape : Expr} {text : String} (legible : shape.Legible) (written : shape.render = text)
    (flat : shape.regroup = shape) : readExpr text = some shape := by
  rw [← written, legible.readExpr_render, flat]

theorem hole_legible {slot : String} (proper : isIdentifier slot = true) : (Expr.name slot).Legible :=
  .name (.inl proper)

section
variable {names : NameTable} {block : Block} {inputs : String → Option Expr}

theorem filled {kind : Kind} (is : block.kind = kind) (slot : String) {text : String} {e : Expr}
    (standIn : ∀ neutral, (standIns kind neutral).lookup slot = some text) (reads : readExpr text = some e) :
    holes block inputs slot = some ((inputs slot).getD e) := by
  rw [holes, is, standIn, Option.bind_some, reads]
  cases inputs slot <;> rfl

theorem unfilled {kind : Kind} (is : block.kind = kind) (name : String)
    (free : ∀ neutral, (standIns kind neutral).lookup name = none) : holes block inputs name = none := by
  rw [holes, is, free, Option.bind_none]

-- The block stands for a shape that is spelled in a row of the table, for the choices it has made.
theorem template_stands {kind : Kind} (is : block.kind = kind) {made : List (String × String)}
    (chosen : ∀ choice ∈ made, block.choiceIn? choice.1 = some choice.2) (shape : Expr)
    (table : ∃ row ∈ templates kind, row.choices ⊆ made ∧ shape.render = row.text)
    (legible : shape.Legible) (flat : shape.regroup = shape) :
    BlockStands names block inputs (shape.fill (holes block inputs)) := by
  obtain ⟨row, listed, among, written⟩ := table
  exact .template (is ▸ listed) (fun choice member => chosen choice (among member))
    (readExpr_of_render legible written flat)

theorem plain_stands {kind : Kind} (is : block.kind = kind) (shape : Expr)
    (table : ∃ row ∈ templates kind, row.choices ⊆ [] ∧ shape.render = row.text) (legible : shape.Legible)
    (flat : shape.regroup = shape) : BlockStands names block inputs (shape.fill (holes block inputs)) :=
  template_stands is (by simp) shape table legible flat

theorem field_holds (proper : block.Proper) {kind : Kind} (is : block.kind = kind) (field : String)
    {shape : FieldShape} (sort : kind.slot? block.extent field = some (.field shape)) :
    ∃ value, block.fields.get? field = some value ∧ value.Fits shape := by
  subst is
  obtain ⟨value, holds⟩ := Option.isSome_iff_exists.mp ((proper.shaped.fields field).mpr ⟨shape, sort⟩)
  exact ⟨value, holds, proper.fitting field value shape holds sort⟩

theorem option_chosen (proper : block.Proper) {kind : Kind} (is : block.kind = kind) (field : String)
    {options : List String} (sort : kind.slot? block.extent field = some (.field (.dropdown options))) :
    ∃ option ∈ options, block.choiceIn? field = some option := by
  obtain ⟨value, holds, fits⟩ := field_holds proper is field sort
  cases value with
  | choice option => exact ⟨option, fits, by rw [Block.choiceIn?, holds]⟩
  | _ => cases fits

theorem zero_reads : readExpr "0" = some zeroExpr := readExpr_of_render zeroExpr_legible rfl rfl
theorem none_reads : readExpr "None" = some noneExpr := readExpr_of_render noneExpr_legible rfl rfl
theorem false_reads : readExpr "False" = some falseExpr := readExpr_of_render falseExpr_legible rfl rfl
theorem true_reads : readExpr "True" = some trueExpr := readExpr_of_render trueExpr_legible rfl rfl
theorem emptyList_reads : readExpr "[]" = some emptyListExpr := readExpr_of_render emptyListExpr_legible rfl rfl
theorem emptyText_reads : readExpr "''" = some emptyTextExpr := readExpr_of_render emptyTextExpr_legible rfl rfl

-- Blocks with one choice, where the meaning of the block is its text with the holes filled.
theorem choice_stands (proper : block.Proper) {kind : Kind} (is : block.kind = kind) (field : String)
    {options : List String} (sort : kind.slot? block.extent field = some (.field (.dropdown options)))
    (shape meaning : Option String → Expr)
    (table : ∀ option ∈ options, ∃ row ∈ templates kind, row.choices ⊆ [(field, option)] ∧
      (shape (some option)).render = row.text)
    (legible : ∀ option, (shape option).Legible)
    (flat : ∀ option ∈ options, (shape (some option)).regroup = shape (some option))
    (filled : ∀ option ∈ options, (shape (some option)).fill (holes block inputs) = meaning (some option)) :
    BlockStands names block inputs (meaning (block.choiceIn? field)) := by
  obtain ⟨option, listed, chosen⟩ := option_chosen proper is field sort
  rw [chosen, ← filled option listed]
  exact template_stands is (List.forall_mem_singleton.mpr chosen) _ (table option listed) (legible _)
    (flat option listed)

theorem operands_stand (proper : block.Proper) {kind : Kind} (is : block.kind = kind) {options : List String}
    (sort : kind.slot? block.extent "OP" = some (.field (.dropdown options))) (operator : Option String → Operator)
    (table : ∀ option ∈ options, ∃ row ∈ templates kind, row.choices ⊆ [("OP", option)] ∧
      (Expr.binary (operator (some option)) (.name "A") (.name "B")).render = row.text) {a b : Expr}
    (first : holes block inputs "A" = some a) (second : holes block inputs "B" = some b) :
    BlockStands names block inputs (.binary (operator (block.choiceIn? "OP")) a b) :=
  choice_stands proper is "OP" sort (fun option => .binary (operator option) (.name "A") (.name "B"))
    (fun option => .binary (operator option) a b) table
    (fun _ => .binary (hole_legible (by decide)) (hole_legible (by decide))) (fun _ _ => rfl)
    (fun _ _ => by simp [Expr.fill, first, second])

theorem logical_stands (proper : block.Proper) (is : block.kind = .logical) :
    BlockStands names block inputs (blockMeaning names block inputs) := by
  obtain ⟨option, listed, chosen⟩ := option_chosen proper is "OP" rfl
  have given {text : String} {e : Expr} (fills : neutral block inputs = text) (reads : readExpr text = some e)
      {slot : String} (operand : slot = "A" ∨ slot = "B") : holes block inputs slot = some ((inputs slot).getD e) := by
    have standIn : (standIns .logical text).lookup slot = some text := by
      rcases operand with rfl | rfl <;> rfl
    rw [holes, is, fills, standIn, Option.bind_some, reads]
    cases inputs slot <;> rfl
  have stand (operator : Operator) (table : ∃ row ∈ templates .logical, row.choices ⊆ [("OP", option)] ∧
      (Expr.binary operator (.name "A") (.name "B")).render = row.text) {text : String} {e : Expr}
      (fills : neutral block inputs = text) (reads : readExpr text = some e) :
      BlockStands names block inputs (.binary operator ((inputs "A").getD e) ((inputs "B").getD e)) := by
    have legible : (Expr.binary operator (.name "A") (.name "B")).Legible :=
      .binary (hole_legible (by decide)) (hole_legible (by decide))
    have stands : BlockStands names block inputs _ :=
      template_stands is (List.forall_mem_singleton.mpr chosen) _ table legible rfl
    simpa [Expr.fill, given fills reads (.inl rfl), given fills reads (.inr rfl)] using stands
  simp only [List.mem_cons, List.not_mem_nil, or_false] at listed
  rw [blockMeaning, is]
  rcases listed with rfl | rfl
  · by_cases missing : ((inputs "A").isNone && (inputs "B").isNone) = true
    · have none : inputs "A" = none ∧ inputs "B" = none := by simpa using missing
      simpa [chosen, missing, none] using stand .both (by decide) (by simp [neutral, missing]) false_reads
    · simpa [chosen, missing] using stand .both (by decide) (by simp [neutral, missing, chosen]) true_reads
  · simpa [chosen] using stand .either (by decide) (by simp [neutral, chosen]) false_reads

theorem unary_stands (proper : block.Proper) (is : block.kind = .unary) :
    BlockStands names block inputs (unaryMeaning (block.choiceIn? "OP") ((inputs "NUM").getD zeroExpr)) := by
  have given : holes block inputs "NUM" = some ((inputs "NUM").getD zeroExpr) :=
    filled is "NUM" (fun _ => rfl) zero_reads
  have math : holes block inputs "math" = none := unfilled is "math" fun _ => rfl
  have abs : holes block inputs "abs" = none := unfilled is "abs" fun _ => rfl
  refine choice_stands proper is "OP" rfl (fun option => unaryMeaning option (.name "NUM"))
    (fun option => unaryMeaning option ((inputs "NUM").getD zeroExpr)) (by decide)
    (fun _ => unaryMeaning_legible _ (hole_legible (by decide))) ?_ ?_
  · simp [unaryMeaning, mathMember, Expr.apply, Expr.regroup, Expr.regroupAll]
  · simp [unaryMeaning, mathMember, Expr.apply, Expr.fill, Expr.fillAll, given, math, abs]

theorem constant_stands (proper : block.Proper) (is : block.kind = .constant) :
    BlockStands names block inputs (constantMeaning (block.choiceIn? "CONSTANT")) := by
  have math : holes block inputs "math" = none := unfilled is "math" fun _ => rfl
  have float : holes block inputs "float" = none := unfilled is "float" fun _ => rfl
  refine choice_stands proper is "CONSTANT" rfl constantMeaning _ (by decide) constantMeaning_legible ?_ ?_
  · simp [constantMeaning, mathMember, Expr.apply, Expr.regroup, Expr.regroupAll, Expr.graft]
  · simp [constantMeaning, mathMember, Expr.apply, Expr.fill, Expr.fillAll, math, float]

theorem round_stands (proper : block.Proper) (is : block.kind = .round) :
    BlockStands names block inputs (roundMeaning (block.choiceIn? "OP") ((inputs "NUM").getD zeroExpr)) := by
  have given : holes block inputs "NUM" = some ((inputs "NUM").getD zeroExpr) :=
    filled is "NUM" (fun _ => rfl) zero_reads
  have math : holes block inputs "math" = none := unfilled is "math" fun _ => rfl
  have round : holes block inputs "round" = none := unfilled is "round" fun _ => rfl
  refine choice_stands proper is "OP" rfl (fun option => roundMeaning option (.name "NUM"))
    (fun option => roundMeaning option ((inputs "NUM").getD zeroExpr)) (by decide)
    (fun _ => roundMeaning_legible _ (hole_legible (by decide))) ?_ ?_
  · simp [roundMeaning, mathMember, Expr.apply, Expr.regroup, Expr.regroupAll]
  · simp [roundMeaning, mathMember, Expr.apply, Expr.fill, Expr.fillAll, given, math, round]

theorem boolean_stands (proper : block.Proper) (is : block.kind = .boolean) : BlockStands names block inputs
    (if block.choiceIn? "BOOL" = some "FALSE" then falseExpr else trueExpr) := by
  have yes : holes block inputs "True" = none := unfilled is "True" fun _ => rfl
  have no : holes block inputs "False" = none := unfilled is "False" fun _ => rfl
  refine choice_stands proper is "BOOL" rfl (fun option => if option = some "FALSE" then falseExpr else trueExpr)
    (fun option => if option = some "FALSE" then falseExpr else trueExpr) (by decide) (fun option => ?_) ?_ ?_
  · split
    · exact falseExpr_legible
    · exact trueExpr_legible
  · simp [falseExpr, trueExpr, Expr.regroup]
  · simp [falseExpr, trueExpr, Expr.fill, yes, no]

theorem aggregate_stands (proper : block.Proper) (is : block.kind = .aggregate) : BlockStands names block inputs
    (aggregateMeaning names (block.choiceIn? "OP") ((inputs "LIST").getD emptyListExpr)) := by
  have given : holes block inputs "LIST" = some ((inputs "LIST").getD emptyListExpr) :=
    filled is "LIST" (fun _ => rfl) emptyList_reads
  obtain ⟨option, listed, chosen⟩ := option_chosen proper is "OP" rfl
  by_cases average : option = "AVERAGE"
  · subst average
    rw [chosen]
    exact .average is chosen given
  · have others : option ∈ ["SUM", "MIN", "MAX", "RANDOM"] := by simpa [average] using listed
    have builtin (name : String) (other : name ≠ "LIST") : holes block inputs name = none :=
      unfilled is name fun _ => by simp [standIns, other]
    have table : ∀ option ∈ ["SUM", "MIN", "MAX", "RANDOM"], ∃ row ∈ templates .aggregate,
        row.choices ⊆ [("OP", option)] ∧
        (aggregateMeaning ⟨keywords, [], [], []⟩ (some option) (.name "LIST")).render = row.text := by decide
    have unnamed : NameTable.Legible ⟨keywords, [], [], []⟩ := ⟨by simp, by simp, by simp, by simp⟩
    have hole : (Expr.name "LIST").Legible := hole_legible (by decide)
    have legible := aggregateMeaning_legible unnamed (some option) hole
    have stands : BlockStands names block inputs _ :=
      template_stands is (List.forall_mem_singleton.mpr chosen) _ (table option others) legible ?_
    · rw [chosen]
      simp only [List.mem_cons, List.not_mem_nil, or_false] at others
      rcases others with rfl | rfl | rfl | rfl <;>
        simpa [aggregateMeaning, Expr.apply, Expr.send, Expr.fill, Expr.fillAll, given, builtin] using stands
    · simp only [List.mem_cons, List.not_mem_nil, or_false] at others
      rcases others with rfl | rfl | rfl | rfl <;> rfl

theorem listGet_stands (proper : block.Proper) (is : block.kind = .listGet) :
    BlockStands names block inputs (blockMeaning names block inputs) := by
  have list : holes block inputs "VALUE" = some ((inputs "VALUE").getD emptyListExpr) :=
    filled is "VALUE" (fun _ => rfl) emptyList_reads
  have position : holes block inputs "AT" = some ((inputs "AT").getD zeroExpr) :=
    filled is "AT" (fun _ => rfl) zero_reads
  have value : (Expr.name "VALUE").Legible := hole_legible (by decide)
  have index : (Expr.name "AT").Legible := hole_legible (by decide)
  obtain ⟨place, places, chosen⟩ := option_chosen proper is "WHERE" rfl
  obtain ⟨mode, modes, moded⟩ := option_chosen proper is "MODE" rfl
  have made : ∀ choice ∈ [("WHERE", place), ("MODE", mode)], block.choiceIn? choice.1 = some choice.2 := by
    simp [chosen, moded]
  have taken {shape : Expr} (table : ∃ row ∈ templates .listGet, row.choices ⊆ [("WHERE", place), ("MODE", mode)] ∧
      shape.render = row.text) (legible : shape.Legible) (flat : shape.regroup = shape) :
      BlockStands names block inputs (shape.fill (holes block inputs)) :=
    template_stands is made shape table legible flat
  have first : ∀ place ∈ ["FROM_END", "FIRST", "LAST", "RANDOM"], ∃ row ∈ templates .listGet,
      row.choices ⊆ [("WHERE", place)] ∧ (Expr.item (.name "VALUE") zeroExpr).render = row.text := by decide
  have item : (Expr.item (.name "VALUE") (.name "AT")).Legible := .item value index
  have pop : (Expr.send (.name "VALUE") "pop" [.name "AT"]).Legible :=
    send_legible value (by simp) (by decide) (one_legible index)
  rw [blockMeaning, is]
  simp only [chosen, moded]
  by_cases start : place = "FROM_START"
  · subst start
    simp only [List.mem_cons, List.not_mem_nil, or_false] at modes
    rcases modes with rfl | rfl | rfl
    · simpa [Expr.fill, list, position] using taken (by decide) item rfl
    · simpa [Expr.send, Expr.fill, Expr.fillAll, list, position] using taken (by decide) pop rfl
    · simpa [Expr.send, Expr.fill, Expr.fillAll, list, position] using taken (by decide) pop rfl
  · have others : place ∈ ["FROM_END", "FIRST", "LAST", "RANDOM"] := by
      simpa [Kind.whereOptions, start] using places
    obtain ⟨row, listed, among, written⟩ := first place others
    have stands := taken ⟨row, listed, List.Subset.trans among (by simp), written⟩ (.item value zeroExpr_legible) rfl
    simpa [start, Expr.fill, zeroExpr, list] using stands

theorem Denotes.ofDouble (value : Double) : Denotes value (.ofDouble value) := by
  have float (word : String) : (Expr.apply "float" [.text word]).Legible :=
    apply_legible (by decide) (one_legible (.text word))
  cases value with
  | nan => exact .nan (readExpr_of_render (float "nan") rfl rfl)
  | infinite negative =>
    cases negative with
    | false => exact .infinite (readExpr_of_render (float "inf") rfl rfl)
    | true => exact .oppositeInfinite (readExpr_of_render (.opposite (float "inf")) rfl rfl)
  | finite negative rank =>
    unfold Expr.ofDouble
    dsimp only
    split
    · next below =>
      obtain ⟨rfl, _⟩ := below
      exact .opposite (read_magnitude rank)
    · next other =>
      refine .numeral (read_magnitude rank) ?_
      cases negative with
      | false => simp [Double.equals]
      | true =>
        have zero : rank.val = 0 := by simpa using other
        simp [Double.equals, zero]

theorem number_stands (proper : block.Proper) (is : block.kind = .number) :
    BlockStands names block inputs (numberValue block) := by
  obtain ⟨value, holds, fits⟩ := field_holds proper is "NUM" rfl
  cases value with
  | number value =>
    rw [numberValue, holds]
    exact .number is holds (.ofDouble value)
  | _ => cases fits

theorem text_stands (proper : block.Proper) (is : block.kind = .text) :
    BlockStands names block inputs (.text (fieldText block)) := by
  obtain ⟨value, holds, fits⟩ := field_holds proper is "TEXT" rfl
  cases value with
  | text value =>
    rw [fieldText, holds]
    exact .text is holds
  | _ => cases fits

theorem join_stands (is : block.kind = .textJoin) :
    BlockStands names block inputs (joinMeaning (grown block inputs "ADD" emptyTextExpr)) := by
  generalize given : grown block inputs "ADD" emptyTextExpr = parts
  match parts with
  | [] => exact .noText is given
  | [a] => exact .oneText is given
  | [a, b] => exact .twoTexts is given
  | a :: b :: c :: rest =>
    have mapped : (Expr.apply "map" [.name "str", .name "PARTS"]).Legible := by
      refine apply_legible (by decide) ?_
      have str : (Expr.name "str").Legible := hole_legible (by decide)
      have hole : (Expr.name "PARTS").Legible := hole_legible (by decide)
      simp [str, hole]
    have legible : (Expr.send emptyTextExpr "join" [.apply "map" [.name "str", .name "PARTS"]]).Legible :=
      send_legible emptyTextExpr_legible (by simp [emptyTextExpr]) (by decide) (one_legible mapped)
    have stands : BlockStands names block inputs _ :=
      .moreTexts is given (by simp) (readExpr_of_render legible rfl rfl)
    simpa [joinMeaning, Expr.send, Expr.apply, Expr.fill, Expr.fillAll, emptyTextExpr] using stands

theorem variable_stands (proper : block.Proper) (is : block.kind = .variableGet)
    (known : ∀ id, block.fields.get? "VAR" = some (.variableRef id) → (names.variableName? id).isSome = true) :
    BlockStands names block inputs (.name (((block.variableIn? "VAR").bind names.variableName?).getD "None")) := by
  obtain ⟨value, holds, fits⟩ := field_holds proper is "VAR" rfl
  cases value with
  | variableRef id =>
    obtain ⟨name, named⟩ := Option.isSome_iff_exists.mp (known id holds)
    have stands : BlockStands names block inputs _ := .variable is holds named
    simpa [Block.variableIn?, holds, named] using stands
  | empty =>
    have stands : BlockStands names block inputs _ := .noVariable is holds
    simpa [Block.variableIn?, holds] using stands
  | _ => cases fits

theorem call_stands (proper : block.Proper) (is : block.kind = .call true)
    (known : ∀ id, block.fields.get? "NAME" = some (.procedureRef id) → (names.procedureName? id).isSome = true) :
    BlockStands names block inputs (blockMeaning names block inputs) := by
  obtain ⟨value, holds, fits⟩ := field_holds proper is "NAME" rfl
  rw [blockMeaning, is]
  cases value with
  | procedureRef id =>
    obtain ⟨name, named⟩ := Option.isSome_iff_exists.mp (known id holds)
    simp only [Block.procedureIn?, holds, Option.bind_some, named]
    exact .call is holds named
  | empty =>
    simp only [Block.procedureIn?, holds, Option.bind_none]
    exact .noCall is holds
  | _ => cases fits

theorem measured_stands {kind : Kind} (is : block.kind = kind) {standIn : String} {e : Expr}
    (table : ∃ row ∈ templates kind, row.choices ⊆ [] ∧ (Expr.apply "len" [.name "VALUE"]).render = row.text)
    (inside : ∀ neutral, standIns kind neutral = [("VALUE", standIn)]) (reads : readExpr standIn = some e) :
    BlockStands names block inputs (.apply "len" [(inputs "VALUE").getD e]) := by
  have given : holes block inputs "VALUE" = some ((inputs "VALUE").getD e) :=
    filled is "VALUE" (fun neutral => by rw [inside]; rfl) reads
  have len : holes block inputs "len" = none := unfilled is "len" fun neutral => by rw [inside]; rfl
  have stands : BlockStands names block inputs _ :=
    plain_stands is _ table (apply_legible (by decide) (one_legible (hole_legible (by decide)))) rfl
  simpa [Expr.apply, Expr.fill, Expr.fillAll, given, len] using stands

theorem emptiness_stands (is : block.kind = .listIsEmpty) :
    BlockStands names block inputs (.negation (.apply "len" [(inputs "VALUE").getD emptyListExpr])) := by
  have given : holes block inputs "VALUE" = some ((inputs "VALUE").getD emptyListExpr) :=
    filled is "VALUE" (fun _ => rfl) emptyList_reads
  have len : holes block inputs "len" = none := unfilled is "len" fun _ => rfl
  have legible : (Expr.negation (.apply "len" [.name "VALUE"])).Legible :=
    .negation (apply_legible (by decide) (one_legible (hole_legible (by decide))))
  have stands : BlockStands names block inputs _ := plain_stands is _ (by decide) legible rfl
  simpa [Expr.apply, Expr.fill, Expr.fillAll, given, len] using stands

theorem negation_stands (is : block.kind = .negation) :
    BlockStands names block inputs (.negation ((inputs "BOOL").getD trueExpr)) := by
  have given : holes block inputs "BOOL" = some ((inputs "BOOL").getD trueExpr) :=
    filled is "BOOL" (fun _ => rfl) true_reads
  have stands : BlockStands names block inputs _ :=
    plain_stands is (.negation (.name "BOOL")) (by decide) (.negation (hole_legible (by decide))) rfl
  simpa [Expr.fill, given] using stands

theorem null_stands (is : block.kind = .null) : BlockStands names block inputs noneExpr := by
  have none : holes block inputs "None" = none := unfilled is "None" fun _ => rfl
  have stands : BlockStands names block inputs _ := plain_stands is noneExpr (by decide) noneExpr_legible rfl
  simpa [noneExpr, Expr.fill, none] using stands

theorem ternary_stands (is : block.kind = .ternary) : BlockStands names block inputs
    (.conditional ((inputs "THEN").getD noneExpr) ((inputs "IF").getD falseExpr) ((inputs "ELSE").getD noneExpr)) := by
  have first : holes block inputs "THEN" = some ((inputs "THEN").getD noneExpr) :=
    filled is "THEN" (fun _ => rfl) none_reads
  have second : holes block inputs "IF" = some ((inputs "IF").getD falseExpr) :=
    filled is "IF" (fun _ => rfl) false_reads
  have third : holes block inputs "ELSE" = some ((inputs "ELSE").getD noneExpr) :=
    filled is "ELSE" (fun _ => rfl) none_reads
  have legible : (Expr.conditional (.name "THEN") (.name "IF") (.name "ELSE")).Legible :=
    .conditional (hole_legible (by decide)) (hole_legible (by decide)) (hole_legible (by decide))
  have stands : BlockStands names block inputs _ := plain_stands is _ (by decide) legible rfl
  simpa [Expr.fill, first, second, third] using stands

theorem modulo_stands (is : block.kind = .modulo) : BlockStands names block inputs
    (.binary .modulo ((inputs "DIVIDEND").getD zeroExpr) ((inputs "DIVISOR").getD zeroExpr)) := by
  have first : holes block inputs "DIVIDEND" = some ((inputs "DIVIDEND").getD zeroExpr) :=
    filled is "DIVIDEND" (fun _ => rfl) zero_reads
  have second : holes block inputs "DIVISOR" = some ((inputs "DIVISOR").getD zeroExpr) :=
    filled is "DIVISOR" (fun _ => rfl) zero_reads
  have legible : (Expr.binary .modulo (.name "DIVIDEND") (.name "DIVISOR")).Legible :=
    .binary (hole_legible (by decide)) (hole_legible (by decide))
  have stands : BlockStands names block inputs _ := plain_stands is _ (by decide) legible rfl
  simpa [Expr.fill, first, second] using stands

theorem randomInteger_stands (is : block.kind = .randomInteger) : BlockStands names block inputs
    (.send (.name "random") "randint" [(inputs "FROM").getD zeroExpr, (inputs "TO").getD zeroExpr]) := by
  have first : holes block inputs "FROM" = some ((inputs "FROM").getD zeroExpr) :=
    filled is "FROM" (fun _ => rfl) zero_reads
  have second : holes block inputs "TO" = some ((inputs "TO").getD zeroExpr) :=
    filled is "TO" (fun _ => rfl) zero_reads
  have random : holes block inputs "random" = none := unfilled is "random" fun _ => rfl
  have legible : (Expr.send (.name "random") "randint" [.name "FROM", .name "TO"]).Legible := by
    refine send_legible (hole_legible (by decide)) (by simp) (by decide) ?_
    simpa using ⟨hole_legible (by decide), hole_legible (by decide)⟩
  have stands : BlockStands names block inputs _ := plain_stands is _ (by decide) legible rfl
  simpa [Expr.send, Expr.fill, Expr.fillAll, first, second, random] using stands

theorem randomFraction_stands (is : block.kind = .randomFraction) :
    BlockStands names block inputs (.send (.name "random") "random" []) := by
  have random : holes block inputs "random" = none := unfilled is "random" fun _ => rfl
  have legible : (Expr.send (.name "random") "random" []).Legible :=
    send_legible (hole_legible (by decide)) (by simp) (by decide) (by simp)
  have stands : BlockStands names block inputs _ := plain_stands is _ (by decide) legible rfl
  simpa [Expr.send, Expr.fill, Expr.fillAll, random] using stands

theorem blockMeaning_stands (proper : block.Proper) (valued : block.kind.connection = .expression)
    (named : ∀ id, block.fields.get? "VAR" = some (.variableRef id) → (names.variableName? id).isSome = true)
    (called : ∀ id, block.fields.get? "NAME" = some (.procedureRef id) → (names.procedureName? id).isSome = true) :
    BlockStands names block inputs (blockMeaning names block inputs) := by
  cases is : block.kind with
  | logical => exact logical_stands proper is
  | listGet => exact listGet_stands proper is
  | call returns =>
    cases returns with
    | true => exact call_stands proper is called
    | false =>
      rw [is] at valued
      cases valued
  | compare | arithmetic =>
    rw [blockMeaning, is]
    exact operands_stand proper is rfl _ (by decide) (filled is "A" (fun _ => rfl) zero_reads)
      (filled is "B" (fun _ => rfl) zero_reads)
  | negation => rw [blockMeaning, is]; exact negation_stands is
  | boolean => rw [blockMeaning, is]; exact boolean_stands proper is
  | null => rw [blockMeaning, is]; exact null_stands is
  | ternary => rw [blockMeaning, is]; exact ternary_stands is
  | number => rw [blockMeaning, is]; exact number_stands proper is
  | unary => rw [blockMeaning, is]; exact unary_stands proper is
  | constant => rw [blockMeaning, is]; exact constant_stands proper is
  | modulo => rw [blockMeaning, is]; exact modulo_stands is
  | round => rw [blockMeaning, is]; exact round_stands proper is
  | randomInteger => rw [blockMeaning, is]; exact randomInteger_stands is
  | randomFraction => rw [blockMeaning, is]; exact randomFraction_stands is
  | aggregate => rw [blockMeaning, is]; exact aggregate_stands proper is
  | text => rw [blockMeaning, is]; exact text_stands proper is
  | textJoin => rw [blockMeaning, is]; exact join_stands is
  | textLength => rw [blockMeaning, is]; exact measured_stands is (by decide) (fun _ => rfl) emptyText_reads
  | listOf => rw [blockMeaning, is]; exact .list is
  | listLength => rw [blockMeaning, is]; exact measured_stands is (by decide) (fun _ => rfl) emptyList_reads
  | listIsEmpty => rw [blockMeaning, is]; exact emptiness_stands is
  | variableGet => rw [blockMeaning, is]; exact variable_stands proper is named
  | _ =>
    rw [is] at valued
    cases valued

end

section
variable {g : Graph} {names : NameTable}

theorem treeMeaning_stands (wf : g.WellFormed) (keeps : Keeps (.build g (reservedIn g)) names) {tree : Tree}
    (full : g.Full tree) (valued : tree.block.kind.connection = .expression) :
    Stands names tree (treeMeaning names tree) := by
  induction full with
  | @node block branches found whole below ih =>
    have full := Graph.Full.node found whole below
    refine .node (fun slot => (inputMeaning names branches slot).getD noneExpr) (fun slot tree hangs => ?_) ?_
    · obtain ⟨branch, _, asks⟩ := full_child wf full hangs
      rw [inputMeaning_eq, hangs]
      exact ih _ branch asks.1
    · have same : (fun slot => (branches.lookup (.input slot)).map fun _ =>
          (inputMeaning names branches slot).getD noneExpr) = inputMeaning names branches := by
        funext slot
        rw [inputMeaning_eq]
        cases branches.lookup (.input slot) <;> rfl
      have sound := wf.bound.blocks block.id block.content (by rw [Graph.contents, found]; rfl)
      rw [same, treeMeaning]
      refine blockMeaning_stands (wf.built _ block found).2 valued (fun id holds => ?_) (fun id holds => ?_)
      · exact variable_named keeps (sound.reads _ id holds)
      · obtain ⟨p, listed, rfl, _⟩ := sound.serves _ id holds
        exact procedure_named keeps listed

-- The name of the helper is settled once it is used: a table that still lacked it could go on
-- to give it one name or another.
theorem helper_settled {names : NameTable} {block : Block} {branches : List (Place × Tree)} {e : Expr}
    (settled : ∀ later, Keeps names later → e = treeMeaning later (.node block branches))
    (is : block.kind = .aggregate) (chosen : block.choiceIn? "OP" = some "AVERAGE") :
    ∃ mean, names.helperName? "math_mean" = some mean := by
  cases known : names.helperName? "math_mean" with
  | some mean => exact ⟨mean, rfl⟩
  | none =>
    have called (name : String) : ∃ args, e = .apply name args := by
      have later := settled _ (.remembered known name)
      simp only [treeMeaning, blockMeaning, is, chosen, aggregateMeaning, helperName?_remember,
        Option.getD_some] at later
      exact ⟨_, later⟩
    obtain ⟨_, first⟩ := called "a"
    obtain ⟨_, second⟩ := called "b"
    simp [first, Expr.apply] at second

end

-- Whenever a pass renders a block that yields a value, what it renders is what the block stands
-- for, with the names given so far and with all later ones, and its text is read as that, alone and
-- at any place that may put it in parentheses. Sums and logical chains come back grouped to the left.
theorem rendered_expression_reads_back {w : Workspace} (reached : w.Reachable) {s : PassState}
    (visits : Visits w.graph s) {tree : Tree} (full : w.graph.Full tree)
    (valued : tree.block.kind.connection = .expression) (inLoop : Bool) :
    ∃ e t read, ((renderTree tree).code inLoop).run s = (.expression e, t) ∧
      Visits w.graph t ∧ (∀ names, Keeps t.names names → Stands names tree e) ∧
      (tree.block.kind = .aggregate → tree.block.choiceIn? "OP" = some "AVERAGE" →
        ∃ mean, t.names.helperName? "math_mean" = some mean) ∧
      readExpr e.render = some read ∧ e.Regroups read ∧
      ∀ context binding, readExpr (e.within context binding) = some read := by
  have wf := reached.wellFormed
  obtain ⟨t, last, _, runs⟩ := code_yields wf full valued inLoop s visits
  have legible := treeMeaning_legible wf full last.names
  have settled (later : NameTable) (keeps : Keeps t.names later) :
      treeMeaning t.names tree = treeMeaning later tree :=
    Code.expression.inj (Prod.mk.inj ((runs t.names (.refl _)).symm.trans (runs later keeps))).1
  refine ⟨_, t, _, runs t.names (.refl _), last, fun later keeps => ?_, ?_, legible.readExpr_render,
    Expr.regroups_regroup _, legible.readExpr_within⟩
  · rw [settled later keeps]
    exact treeMeaning_stands wf (last.keeps.trans keeps) full valued
  obtain ⟨block, branches⟩ := tree
  exact helper_settled settled

theorem nested_power_reads_back :
    let w := (Editing.Session.runAll {} false
      [.edit (.addBlock .arithmetic), .edit (.addBlock .number), .edit (.addBlock .arithmetic),
        .edit (.setField ⟨"b1"⟩ "OP" (.choice "POWER")),
        .edit (.setField ⟨"b2"⟩ "NUM" (.number (.infinite true))),
        .edit (.setField ⟨"b3"⟩ "OP" (.choice "MINUS")),
        .edit (.attach ⟨"b1"⟩ (.input "A") ⟨"b2"⟩),
        .edit (.attach ⟨"b1"⟩ (.input "B") ⟨"b3"⟩)]).1.workspace
    ∃ block e t read, w.graph.block? ⟨"b1"⟩ = some block ∧ block.children = [⟨"b2"⟩, ⟨"b3"⟩] ∧
      ((renderTree (w.graph.tree block)).code false).run (.start w.graph (reservedIn w.graph))
        = (.expression e, t) ∧ e.render = "(-float('inf')) ** (0 - 0)" ∧ Stands t.names (w.graph.tree block) e ∧
      readExpr e.render = some read ∧ e.Regroups read := by
  intro w
  have reached : w.Reachable := Editing.Session.runAll_reachable false _
  have present : (w.graph.block? ⟨"b1"⟩).isSome = true := by decide +kernel
  obtain ⟨block, found⟩ := Option.isSome_iff_exists.mp present
  have facts : (w.graph.block? ⟨"b1"⟩).all (fun block => decide (block.id = ⟨"b1"⟩ ∧
      block.kind.connection = .expression ∧ block.children = [⟨"b2"⟩, ⟨"b3"⟩])) = true := by decide +kernel
  have texts : (w.graph.block? ⟨"b1"⟩).all (fun block => decide
      (((((renderTree (w.graph.tree block)).code false).run (.start w.graph (reservedIn w.graph))).1.toChain
        block.kind).lines = [.flat "(-float('inf')) ** (0 - 0)"])) = true := by decide +kernel
  rw [found, Option.all_some, decide_eq_true_eq] at facts
  rw [found, Option.all_some, decide_eq_true_eq] at texts
  have full := reached.wellFormed.linked.tree_full reached.wellFormed.built (facts.1.symm ▸ found)
  have valued : (w.graph.tree block).block.kind.connection = .expression := by
    rw [Graph.tree, Graph.treeTo_block]
    exact facts.2.1
  obtain ⟨e, t, read, runs, _, stands, _, reads, regroups, _⟩ :=
    rendered_expression_reads_back reached .start full valued false
  have text : e.render = "(-float('inf')) ** (0 - 0)" := by
    simpa [runs, Code.toChain, Line.flat] using texts
  exact ⟨block, e, t, read, found, facts.2.2, runs, text, stands _ (.refl _), reads, regroups⟩

end Blockwork.Generation
