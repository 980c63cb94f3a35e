import Mathlib
import Blockwork.Proofs.GivenNames

-- The rules of the blocks, and the words they put into a program. A rule uses no builtin but
-- those that are reserved for its block.
namespace Blockwork.Generation

open Python

variable {g : Graph} {books : Books}

-- An expression whose names are known.
def Spelled (g : Graph) (books : Books) (e : Expr) : Prop := ∀ id ∈ e.ids, Known g books id

section

variable {e first second third : Expr} {items : List Expr}

theorem spelled_all : (∀ id ∈ Expr.idsAll items, Known g books id) ↔ ∀ e ∈ items, Spelled g books e := by
  rw [Expr.idsAll_eq, List.forall_mem_flatMap]
  rfl

@[simp] theorem spelled_name {id : String} : Spelled g books (.name id) ↔ Known g books id := by
  simp [Spelled, Expr.ids]

@[simp] theorem spelled_numeral (digits : String) : Spelled g books (.numeral digits) := by
  simp [Spelled, Expr.ids]

@[simp] theorem spelled_text (value : String) : Spelled g books (.text value) := by
  simp [Spelled, Expr.ids]

@[simp] theorem spelled_list : Spelled g books (.list items) ↔ ∀ e ∈ items, Spelled g books e := by
  rw [← spelled_all]
  rfl

@[simp] theorem spelled_call :
    Spelled g books (.call e items) ↔ Spelled g books e ∧ ∀ e ∈ items, Spelled g books e := by
  rw [← spelled_all, Spelled, Expr.ids, List.forall_mem_append]
  rfl

@[simp] theorem spelled_attribute {member : String} :
    Spelled g books (.attribute e member) ↔ Spelled g books e := Iff.rfl

@[simp] theorem spelled_item :
    Spelled g books (.item first second) ↔ Spelled g books first ∧ Spelled g books second := by
  rw [Spelled, Expr.ids, List.forall_mem_append]
  rfl

@[simp] theorem spelled_opposite : Spelled g books (.opposite e) ↔ Spelled g books e := Iff.rfl

@[simp] theorem spelled_negation : Spelled g books (.negation e) ↔ Spelled g books e := Iff.rfl

@[simp] theorem spelled_binary {operator : Operator} :
    Spelled g books (.binary operator first second) ↔ Spelled g books first ∧ Spelled g books second := by
  rw [Spelled, Expr.ids, List.forall_mem_append]
  rfl

@[simp] theorem spelled_conditional : Spelled g books (.conditional first second third) ↔
    Spelled g books first ∧ Spelled g books second ∧ Spelled g books third := by
  rw [Spelled, Expr.ids, List.forall_mem_append, List.forall_mem_append]
  rfl

@[simp] theorem spelled_apply {name : String} : Spelled g books (.apply name items) ↔
    Known g books name ∧ ∀ e ∈ items, Spelled g books e := by
  rw [Expr.apply, spelled_call, spelled_name]

@[simp] theorem spelled_send {member : String} : Spelled g books (.send e member items) ↔
    Spelled g books e ∧ ∀ e ∈ items, Spelled g books e := by
  rw [Expr.send, spelled_call, spelled_attribute]

@[simp] theorem spelled_mathMember {member : String} :
    Spelled g books (mathMember member) ↔ Known g books "math" := by
  rw [mathMember, spelled_attribute, spelled_name]

end

@[simp] theorem spelled_none : Spelled g books noneExpr := spelled_name.mpr (.keyword _ (by decide))
@[simp] theorem spelled_false : Spelled g books falseExpr := spelled_name.mpr (.keyword _ (by decide))
@[simp] theorem spelled_true : Spelled g books trueExpr := spelled_name.mpr (.keyword _ (by decide))
@[simp] theorem spelled_zero : Spelled g books zeroExpr := spelled_numeral _
@[simp] theorem spelled_emptyText : Spelled g books emptyTextExpr := spelled_text _
@[simp] theorem spelled_emptyList : Spelled g books emptyListExpr := spelled_list.mpr (by simp)

-- What the blocks below a block of the graph bring along.
structure Attests (g : Graph) (block : Block) (below : Below) : Prop where
  own : block ∈ g.blocks.values
  furnishes : Furnishes g block below
  value : ∀ slot, Accounts g (fun _ => True) (below.value? slot) fun books found =>
    ∀ e ∈ found, Spelled g books e
  chain : ∀ place inLoop, Accounts g (fun _ => True) (below.chainAt place inLoop) fun books chain =>
    AllPlain g books chain.lines

section

variable {block : Block} {below : Below} {given : Books → Prop}

namespace Attests

theorem reserved (attests : Attests g block below) {name : String} (listed : name ∈ reservedNames block) :
    Reserved g name := ⟨block, attests.own, listed⟩

theorem known (attests : Attests g block below) {name : String} (listed : name ∈ reservedNames block)
    (builtin : modules.lookup name = none) : Known g books name :=
  .reserved (attests.reserved listed) (books.backs_builtin builtin)

theorem imported (attests : Attests g block below) {name line : String} (listed : name ∈ reservedNames block)
    (there : line ∈ books.imports) (found : modules.lookup name = some line) : Known g books name :=
  .reserved (attests.reserved listed) (books.backs_module found there)

theorem valueOr (attests : Attests g block below) (slot : String) {standIn : Expr}
    (spelled : ∀ books, Spelled g books standIn) : Accounts g given (below.valueOr slot standIn) (Spelled g) := by
  refine (attests.value slot).framed.bind fun found => .pure fun books facts => ?_
  cases found with
  | none => exact spelled books
  | some e => exact facts.2 e rfl

theorem valuesOr (attests : Attests g block below) (slots : List String) {standIn : Expr}
    (spelled : ∀ books, Spelled g books standIn) :
    Accounts g given (below.valuesOr slots standIn) fun books items => ∀ e ∈ items, Spelled g books e := by
  induction slots generalizing given with
  | nil => exact .pure (by simp)
  | cons slot rest ih =>
    refine (attests.valueOr slot spelled).bind fun first => ih.bind fun others => .pure fun books facts => ?_
    exact List.forall_mem_cons.mpr ⟨facts.1.2, facts.2⟩

end Attests

-- Imports. The module of the third one is not reserved, and need not be.
theorem module_group {name line : String} (reserved : Reserved g name) (found : modules.lookup name = some line)
    (check : (lexemes? line).any (·.all (·.isAmong ["import", name])) = true) (books : Books)
    (imported : line ∈ books.imports) : Group g books [.flat line] := by
  have words : ∀ word ∈ ["import", name], Known g books word := by
    rw [List.forall_mem_cons, List.forall_mem_singleton]
    exact ⟨.keyword _ (by decide), .reserved reserved (books.backs_module found imported)⟩
  refine .plain ?_
  rw [AllPlain, List.forall_mem_singleton]
  exact .code (.of_fixed words check)

theorem importMath (reserved : Reserved g "math") :
    Accounts g given (addImport "import math") fun books _ => "import math" ∈ books.imports :=
  addImport_accounts (by decide) (module_group reserved rfl (by decide))

theorem importRandom (reserved : Reserved g "random") :
    Accounts g given (addImport "import random") fun books _ => "import random" ∈ books.imports :=
  addImport_accounts (by decide) (module_group reserved rfl (by decide))

-- Rules for values.
theorem operands_account (attests : Attests g block below) (operator : Operator) (left right : String) :
    Accounts g given
      (do return Expr.binary operator (← below.valueOr left zeroExpr) (← below.valueOr right zeroExpr))
      (Spelled g) := by
  refine (attests.valueOr left (by simp)).bind fun a => (attests.valueOr right (by simp)).bind fun b =>
    .pure fun books facts => ?_
  exact spelled_binary.mpr ⟨facts.1.2, facts.2⟩

theorem logicalValue_accounts (attests : Attests g block below) :
    Accounts g given (logicalValue block below) (Spelled g) := by
  refine (attests.value "A").framed.bind fun a => (attests.value "B").framed.bind fun b =>
    .pure fun books facts => ?_
  have operand : ∀ {found : Option Expr} {standIn : Expr}, (∀ e ∈ found, Spelled g books e) →
      Spelled g books standIn → Spelled g books (found.getD standIn) := by
    intro found standIn each other
    cases found with
    | none => exact other
    | some e => exact each e rfl
  have neutral : ∀ p q : Prop, [Decidable p] → [Decidable q] →
      Spelled g books (if p then falseExpr else if q then falseExpr else trueExpr) := by
    intro p q _ _
    split
    · simp
    · split <;> simp
  exact spelled_binary.mpr ⟨operand facts.1.2 (neutral _ _), operand facts.2 (neutral _ _)⟩

theorem ternaryValue_accounts (attests : Attests g block below) :
    Accounts g given (ternaryValue below) (Spelled g) := by
  refine (attests.valueOr "IF" (by simp)).bind fun condition => (attests.valueOr "THEN" (by simp)).bind
    fun value => (attests.valueOr "ELSE" (by simp)).bind fun otherwise => .pure fun books facts => ?_
  exact spelled_conditional.mpr ⟨facts.1.2, facts.1.1.2, facts.2⟩

theorem numberValue_spelled (attests : Attests g block below) (kind : block.kind = .number) :
    Spelled g books (numberValue block) := by
  unfold numberValue
  split
  · next value entered =>
    have float : value.isFinite = false → Known g books "float" := by
      intro infinite
      refine attests.known ?_ rfl
      simp [reservedNames, kind, entered, infinite]
    cases value with
    | nan => simpa [Expr.ofDouble] using float rfl
    | infinite negative => cases negative <;> simpa [Expr.ofDouble] using float rfl
    | finite negative rank =>
      unfold Expr.ofDouble
      dsimp only
      split <;> simp
  · simp

theorem unaryValue_accounts (attests : Attests g block below) (kind : block.kind = .unary) :
    Accounts g given (unaryValue block below) (Spelled g) := by
  have math : "math" ∈ reservedNames block := by simp [reservedNames, kind]
  have abs : "abs" ∈ reservedNames block := by simp [reservedNames, kind]
  refine (attests.valueOr "NUM" (by simp)).bind fun value => ?_
  split
  · exact .pure fun books facts => spelled_opposite.mpr facts.2
  · refine .pure fun books facts => ?_
    simpa using ⟨attests.known abs rfl, facts.2⟩
  · refine (importMath (attests.reserved math)).bind fun _ => .pure fun books facts => ?_
    have known : Known g books "math" := attests.imported math facts.2 rfl
    split <;> simpa [known] using facts.1.2

theorem constantValue_accounts (attests : Attests g block below) (kind : block.kind = .constant) :
    Accounts g given (constantValue block) (Spelled g) := by
  have math : "math" ∈ reservedNames block := by simp [reservedNames, kind]
  have float : "float" ∈ reservedNames block := by simp [reservedNames, kind]
  unfold constantValue
  split
  · refine .pure fun books _ => ?_
    simpa using attests.known float rfl
  · refine (importMath (attests.reserved math)).bind fun _ => .pure fun books facts => ?_
    have known : Known g books "math" := attests.imported math facts.2 rfl
    split <;> simp [known]

theorem roundValue_accounts (attests : Attests g block below) (kind : block.kind = .round) :
    Accounts g given (roundValue block below) (Spelled g) := by
  have math : "math" ∈ reservedNames block := by simp [reservedNames, kind]
  have round : "round" ∈ reservedNames block := by simp [reservedNames, kind]
  refine (attests.valueOr "NUM" (by simp)).bind fun value => ?_
  split
  · refine (importMath (attests.reserved math)).bind fun _ => .pure fun books facts => ?_
    simpa using ⟨attests.imported math facts.2 rfl, facts.1.2⟩
  · refine (importMath (attests.reserved math)).bind fun _ => .pure fun books facts => ?_
    simpa using ⟨attests.imported math facts.2 rfl, facts.1.2⟩
  · refine .pure fun books facts => ?_
    simpa using ⟨attests.known round rfl, facts.2⟩

theorem randomIntegerValue_accounts (attests : Attests g block below) (kind : block.kind = .randomInteger) :
    Accounts g given (randomIntegerValue below) (Spelled g) := by
  have random : "random" ∈ reservedNames block := by simp [reservedNames, kind]
  refine (importRandom (attests.reserved random)).bind fun _ => (attests.valueOr "FROM" (by simp)).bind
    fun low => (attests.valueOr "TO" (by simp)).bind fun high => .pure fun books facts => ?_
  simpa using ⟨attests.imported random facts.1.1.2 rfl, facts.1.2, facts.2⟩

theorem randomFractionValue_accounts (attests : Attests g block below) (kind : block.kind = .randomFraction) :
    Accounts g given randomFractionValue (Spelled g) := by
  have random : "random" ∈ reservedNames block := by simp [reservedNames, kind]
  refine (importRandom (attests.reserved random)).bind fun _ => .pure fun books facts => ?_
  simpa using attests.imported random facts.2 rfl

theorem aggregateValue_accounts (attests : Attests g block below) (kind : block.kind = .aggregate) :
    Accounts g given (aggregateValue block below) (Spelled g) := by
  refine (attests.valueOr "LIST" (by simp)).bind fun list => ?_
  have called : ∀ {name : String}, name ∈ reservedNames block → modules.lookup name = none →
      ∀ books, Spelled g books list → Spelled g books (.apply name [list]) := by
    intro name listed builtin books spelled
    simpa using ⟨attests.known listed builtin, spelled⟩
  split
  · next chosen => exact .pure fun books facts => called (by simp [reservedNames, kind, chosen]) rfl books facts.2
  · next chosen => exact .pure fun books facts => called (by simp [reservedNames, kind, chosen]) rfl books facts.2
  · next chosen =>
    have reserved : ∀ word ∈ meanBuiltins, Reserved g word := by
      intro word listed
      refine attests.reserved ?_
      simpa [reservedNames, kind, chosen, meanBuiltins] using listed
    refine (addImport_accounts (by decide) fun books => .numbers (reserved _ (by decide))).bind fun _ =>
      (meanName_accounts reserved fun books facts => facts.2).bind fun mean => .pure fun books facts => ?_
    simpa using ⟨.name facts.2, facts.1.1.2⟩
  · next chosen =>
    have random : "random" ∈ reservedNames block := by simp [reservedNames, kind, chosen]
    refine (importRandom (attests.reserved random)).bind fun _ => .pure fun books facts => ?_
    simpa using ⟨attests.imported random facts.2 rfl, facts.1.2⟩
  · next min max average random =>
    refine .pure fun books facts => called ?_ rfl books facts.2
    unfold reservedNames
    rw [kind]
    dsimp only
    split <;> simp_all

theorem joinValue_accounts (attests : Attests g block below) (kind : block.kind = .textJoin) :
    Accounts g given (joinValue block below) (Spelled g) := by
  refine (attests.valuesOr _ (by simp)).bind fun parts => .pure fun books facts => ?_
  have str : Known g books "str" := attests.known (by simp [reservedNames, kind]) rfl
  have map : Known g books "map" := attests.known (by simp [reservedNames, kind]) rfl
  have each := facts.2
  split
  · simp
  · simpa [str] using each
  · simpa [str] using each
  · simpa [str, map] using each

theorem listGetValue_accounts (attests : Attests g block below) :
    Accounts g given (listGetValue block below) (Spelled g) := by
  refine (attests.valueOr "VALUE" (by simp)).bind fun list => ?_
  split
  · exact .pure fun books facts => by simpa using facts.2
  · refine (attests.valueOr "AT" (by simp)).bind fun position => .pure fun books facts => ?_
    split <;> simpa using ⟨facts.1.2, facts.2⟩

theorem callValue?_accounts (attests : Attests g block below) :
    Accounts g given (callValue? block below) fun books found => ∀ e ∈ found, Spelled g books e := by
  refine (procedureName?_accounts block "NAME").bind fun found => ?_
  cases found with
  | none => exact .pure (by simp)
  | some name =>
    refine (attests.valuesOr _ (by simp)).bind fun args => .pure fun books facts e same => ?_
    cases same
    exact spelled_apply.mpr ⟨.name (facts.1.2 name rfl), facts.2⟩

-- Lines.
theorem AllPlain.append {first second : List Line} (one : AllPlain g books first)
    (two : AllPlain g books second) : AllPlain g books (first ++ second) :=
  List.forall_mem_append.mpr ⟨one, two⟩

theorem AllPlain.deeper {lines : List Line} (each : AllPlain g books lines) :
    AllPlain g books (deeper lines) := by
  intro line listed
  obtain ⟨inner, member, rfl⟩ := List.mem_map.mp listed
  exact each inner member

theorem AllPlain.flat {content : String} {lines : List Line} (reads : Reads (Known g books) content)
    (each : AllPlain g books lines) : AllPlain g books (.flat content :: lines) :=
  List.forall_mem_cons.mpr ⟨.code reads, each⟩

theorem AllPlain.none : AllPlain g books [] := by simp [AllPlain]

theorem reads_pass : Reads (Known g books) "pass" := .of_fixed Known.keyword (by decide)

theorem reads_name {name : String} (proper : isIdentifier name = true) (known : Known g books name) :
    Reads (Known g books) name := .of_word (.of_identifier proper) known

theorem reads_expression {e : Expr} (spelled : Spelled g books e) (legible : e.Legible) :
    Reads (Known g books) e.render := legible.reads Known.keyword spelled

namespace Attests

theorem suite (attests : Attests g block below) (slot : String) (inLoop : Bool) :
    Accounts g given (below.suite slot inLoop) (AllPlain g) := by
  refine (attests.chain (.body slot) inLoop).framed.bind fun chain => .pure fun books facts => ?_
  refine (facts.2.append ?_).deeper
  split
  · exact .none
  · exact .flat reads_pass .none

-- A value of which the text is of use too.
theorem legibleOr (attests : Attests g block below) (slot : String) {standIn : Expr}
    (spelled : ∀ books, Spelled g books standIn) (legible : standIn.Legible) :
    Accounts g given (below.valueOr slot standIn) fun books e => Spelled g books e ∧ e.Legible :=
  (attests.valueOr slot spelled).ensured (attests.furnishes.valueOr slot legible)

end Attests

theorem target_accounts (block : Block) (field : String) :
    Accounts g given (variableName? block field) fun books found =>
      Reads (Known g books) (found.getD noTarget) := by
  have accounts : Accounts g given (variableName? block field) _ :=
    (variableName?_accounts block field).ensured (target_ensures block field)
  refine accounts.weaken fun books found facts => reads_name facts.2 ?_
  cases found with
  | none => exact .target
  | some name => exact .name (facts.1 name rfl)

-- Conditionals.
theorem branchLines_accounts (attests : Attests g block below) (inLoop : Bool) (count n : Nat) :
    Accounts g given (branchLines below inLoop count n) (AllPlain g) := by
  induction count generalizing n given with
  | zero => exact .pure fun books _ => .none
  | succ count ih =>
    refine (attests.legibleOr (Kind.conditionName n) (by simp) falseExpr_legible).bind fun condition =>
      (attests.suite (Kind.branchName n) inLoop).bind fun body => (ih (n + 1)).bind fun rest =>
      .pure fun books facts => ?_
    have text := reads_expression facts.1.1.2.1 facts.1.1.2.2
    refine .append (.flat ?_ facts.1.2) facts.2
    split
    · exact (text.opened Known.keyword (by decide)).ended Known.keyword (by decide)
    · exact (text.opened Known.keyword (by decide)).ended Known.keyword (by decide)

theorem ifLines_accounts (attests : Attests g block below) (inLoop : Bool) :
    Accounts g given (ifLines block below inLoop) (AllPlain g) := by
  refine (branchLines_accounts attests inLoop _ 0).bind fun branches => ?_
  split
  · refine (attests.suite "ELSE" inLoop).bind fun body => .pure fun books facts => ?_
    exact facts.1.2.append (.flat (.of_fixed Known.keyword (by decide)) facts.2)
  · exact .pure fun books facts => facts.2

-- Loops.
theorem for_reads {target text : String} (first : Reads (Known g books) target)
    (second : Reads (Known g books) text) : Reads (Known g books) ("for " ++ target ++ " in " ++ text ++ ":") :=
  ((first.opened Known.keyword (by decide)).between Known.keyword (by decide) second).ended
    Known.keyword (by decide)

theorem repeatCount_spelled {times : Option Expr} (spelled : ∀ e ∈ times, Spelled g books e)
    (int : Known g books "int") : Spelled g books (repeatCount times) := by
  cases times with
  | none => simp [repeatCount]
  | some e =>
    have cut : Spelled g books (.apply "int" [e]) := by simpa using ⟨int, spelled e rfl⟩
    unfold repeatCount
    dsimp only
    split
    · split
      · unfold Expr.ofInt
        split <;> simp
      · exact cut
    · exact cut

theorem repeatLines_accounts (attests : Attests g block below) (kind : block.kind = .repeatTimes) :
    Accounts g given (repeatLines below) (AllPlain g) := by
  have times : Accounts g given (below.value? "TIMES") _ :=
    (attests.value "TIMES").framed.ensured (attests.furnishes.value "TIMES")
  have counter : ∀ {given : Books → Prop}, Accounts g given (claimName "count") _ :=
    counterName_accounts.ensured (claimName_ensures "count")
  refine times.bind fun times => counter.bind fun counter => (attests.suite "DO" true).bind fun body =>
    .pure fun books facts => ?_
  obtain ⟨⟨⟨_, spelled, legible⟩, listed, proper⟩, inner⟩ := facts
  have int : Known g books "int" := attests.known (by simp [reservedNames, kind]) rfl
  have range : Known g books "range" := attests.known (by simp [reservedNames, kind]) rfl
  have through : Spelled g books (.apply "range" [repeatCount times]) := by
    simpa using ⟨range, repeatCount_spelled spelled int⟩
  refine .flat (for_reads (reads_name proper (.name (.toCounter listed))) ?_) inner
  exact reads_expression through (apply_legible (by decide) (one_legible (repeatCount_legible legible)))

theorem whileLines_accounts (attests : Attests g block below) :
    Accounts g given (whileLines block below) (AllPlain g) := by
  refine (attests.legibleOr "BOOL" (by simp) falseExpr_legible).bind fun value =>
    (attests.suite "DO" true).bind fun body => .pure fun books facts => ?_
  have text : Reads (Known g books)
      (if block.choiceIn? "MODE" = some "UNTIL" then Expr.negation value else value).render := by
    split
    · exact reads_expression (spelled_negation.mpr facts.1.2.1) (.negation facts.1.2.2)
    · exact reads_expression facts.1.2.1 facts.1.2.2
  exact .flat ((text.opened Known.keyword (by decide)).ended Known.keyword (by decide)) facts.2

theorem countLines_accounts (attests : Attests g block below) (kind : block.kind = .countWith) :
    Accounts g given (countLines block below) (AllPlain g) := by
  have one : (Expr.numeral "1").Legible := .numeral (by decide)
  refine (target_accounts block "VAR").bind fun found =>
    (attests.legibleOr "FROM" (by simp) zeroExpr_legible).bind fun start =>
    (attests.legibleOr "TO" (by simp) zeroExpr_legible).bind fun stop =>
    (attests.legibleOr "BY" (by simp) one).bind fun step =>
    (attests.suite "DO" true).bind fun body => .pure fun books facts => ?_
  obtain ⟨⟨⟨⟨⟨_, target⟩, first⟩, last⟩, each⟩, inner⟩ := facts
  have range : Known g books "range" := attests.known (by simp [reservedNames, kind]) rfl
  have words : ∀ word ∈ "range" :: keywords, Known g books word :=
    List.forall_mem_cons.mpr ⟨range, Known.keyword⟩
  have started := reads_expression first.1 first.2
  have stopped : Reads (Known g books) (stop.within .additive .loose) :=
    last.2.reads_within Known.keyword last.1 _ _
  have arguments : ∀ part ∈ rangeArguments start.render (stop.within .additive .loose) step.render,
      Reads (Known g books) part := by
    unfold rangeArguments
    split
    · split
      · simpa using stopped
      · simpa using ⟨started, stopped⟩
    · simpa using ⟨started, stopped, reads_expression each.1 each.2⟩
  have listed := Reads.intercalate Known.keyword (s := ", ") (by decide) arguments
  refine .flat ?_ inner
  exact ((target.opened Known.keyword (by decide)).between words (by decide) listed).ended
    Known.keyword (by decide)

theorem forEachLines_accounts (attests : Attests g block below) :
    Accounts g given (forEachLines block below) (AllPlain g) := by
  refine (target_accounts block "VAR").bind fun found =>
    (attests.legibleOr "LIST" (by simp) emptyListExpr_legible).bind fun list =>
    (attests.suite "DO" true).bind fun body => .pure fun books facts => ?_
  obtain ⟨⟨⟨_, target⟩, spelled, legible⟩, inner⟩ := facts
  exact .flat (for_reads target (legible.reads_within Known.keyword spelled _ _)) inner

-- Single lines.
theorem flowLines_plain (block : Block) (inLoop : Bool) : AllPlain g books (flowLines block inLoop) := by
  unfold flowLines
  split
  · refine .flat ?_ .none
    split
    · exact .of_fixed Known.keyword (by decide)
    · exact .of_fixed Known.keyword (by decide)
  · exact .none

theorem changeLines_accounts (attests : Attests g block below) :
    Accounts g given (changeLines block below) (AllPlain g) := by
  refine (target_accounts block "VAR").bind fun found =>
    (attests.legibleOr "DELTA" (by simp) zeroExpr_legible).bind fun delta => .pure fun books facts => ?_
  obtain ⟨⟨_, target⟩, spelled, legible⟩ := facts
  have symbol : isJoint keywords (" " ++ (changeSymbol (block.choiceIn? "OP") ++ " ")) = true := by
    unfold changeSymbol
    split <;> decide
  have whole := target.between Known.keyword symbol (legible.reads_within Known.keyword spelled .additive .loose)
  refine .flat ?_ .none
  simpa only [String.append_assoc] using whole

theorem printLines_accounts (attests : Attests g block below) (kind : block.kind = .print) :
    Accounts g given (printLines below) (AllPlain g) := by
  refine (attests.legibleOr "TEXT" (by simp) emptyTextExpr_legible).bind fun value =>
    .pure fun books facts => ?_
  have print : Known g books "print" := attests.known (by simp [reservedNames, kind]) rfl
  have spelled : Spelled g books (.apply "print" [value]) := by simpa using ⟨print, facts.2.1⟩
  exact .flat (reads_expression spelled (apply_legible (by decide) (one_legible facts.2.2))) .none

theorem assignLines_accounts (attests : Attests g block below) :
    Accounts g given (assignLines block below) (AllPlain g) := by
  refine (target_accounts block "VAR").bind fun found =>
    (attests.legibleOr "VALUE" (by simp) noneExpr_legible).bind fun value => .pure fun books facts => ?_
  obtain ⟨⟨_, target⟩, spelled, legible⟩ := facts
  exact .flat (target.between Known.keyword (by decide) (reads_expression spelled legible)) .none

theorem listSetLines_accounts (attests : Attests g block below) (kind : block.kind = .listSet) :
    Accounts g given (listSetLines block below) (AllPlain g) := by
  have owner : Accounts g given (below.valueOr "LIST" (.name "list")) _ :=
    (attests.valueOr "LIST" fun books => spelled_name.mpr (attests.known (by simp [reservedNames, kind]) rfl)).ensured
      (attests.furnishes.listOr kind)
  have assigned : ∀ {books : Books} {list position value : Expr}, Spelled g books list ∧ list.Legible →
      Spelled g books position ∧ position.Legible → Spelled g books value ∧ value.Legible →
      AllPlain g books [.flat ((Expr.item list position).render ++ " = " ++ value.render)] := by
    intro books list position value owner index new
    have item := reads_expression (spelled_item.mpr ⟨owner.1, index.1⟩) (.item owner.2 index.2)
    exact .flat (item.between Known.keyword (by decide) (reads_expression new.1 new.2)) .none
  refine owner.bind fun list => (attests.legibleOr "TO" (by simp) noneExpr_legible).bind fun value => ?_
  split
  · refine .pure fun books facts => ?_
    exact assigned ⟨facts.1.2.1, facts.1.2.2.1⟩ ⟨by simp, zeroExpr_legible⟩ facts.2
  · refine (attests.legibleOr "AT" (by simp) zeroExpr_legible).bind fun position => .pure fun books facts => ?_
    obtain ⟨⟨⟨_, spelled, legible, solid⟩, new⟩, index⟩ := facts
    split
    · refine .flat (reads_expression ?_ (send_legible legible solid (by decide) (by simp [index, new]))) .none
      simpa using ⟨spelled, index.1, new.1⟩
    · exact assigned ⟨spelled, legible⟩ index new

theorem callLines_accounts (attests : Attests g block below) :
    Accounts g given (callLines block below) (AllPlain g) := by
  have call : Accounts g given (callValue? block below) _ :=
    (callValue?_accounts attests).ensured attests.furnishes.call
  refine call.bind fun found => .pure fun books facts => ?_
  cases found with
  | none => exact .none
  | some e => exact .flat (reads_expression (facts.2.1 e rfl) (facts.2.2 e rfl)) .none

theorem commentLines_plain (own : block ∈ g.blocks.values) (kind : block.kind = .comment) :
    AllPlain g books (commentLines (fieldText block)) :=
  fun _ listed => .comment own kind listed rfl

-- What a block contributes, with all its words known.
def Code.Plain (g : Graph) (books : Books) : Code → Prop
  | .expression e => Spelled g books e
  | .statement lines => AllPlain g books lines
  | .nothing => True

theorem rule_accounts (attests : Attests g block below) (inLoop : Bool) :
    Accounts g given (rule block below inLoop) fun books code => code.Plain g books := by
  have value : ∀ {action : Pass Expr}, Accounts g given action (Spelled g) →
      Accounts g given (do return Code.expression (← action)) fun books code => code.Plain g books :=
    fun accounts => accounts.bind fun _ => .pure fun _ facts => facts.2
  have lines : ∀ {action : Pass (List Line)}, Accounts g given action (AllPlain g) →
      Accounts g given (do return Code.statement (← action)) fun books code => code.Plain g books :=
    fun accounts => accounts.bind fun _ => .pure fun _ facts => facts.2
  unfold rule
  cases kind : block.kind with
  | ifElse => exact lines (ifLines_accounts attests inLoop)
  | compare | arithmetic => exact value (operands_account attests _ "A" "B")
  | modulo => exact value (operands_account attests _ "DIVIDEND" "DIVISOR")
  | logical => exact value (logicalValue_accounts attests)
  | negation => exact (attests.valueOr "BOOL" (by simp)).bind fun _ => .pure fun _ facts => facts.2
  | boolean =>
    refine .pure fun books _ => ?_
    show Spelled g books _
    split <;> simp
  | null => exact .pure fun _ _ => spelled_none
  | ternary => exact value (ternaryValue_accounts attests)
  | repeatTimes => exact lines (repeatLines_accounts attests kind)
  | whileUntil => exact lines (whileLines_accounts attests)
  | countWith => exact lines (countLines_accounts attests kind)
  | forEach => exact lines (forEachLines_accounts attests)
  | flow => exact .pure fun _ _ => flowLines_plain block inLoop
  | number => exact .pure fun _ _ => numberValue_spelled attests kind
  | changeBy => exact lines (changeLines_accounts attests)
  | unary => exact value (unaryValue_accounts attests kind)
  | constant => exact value (constantValue_accounts attests kind)
  | round => exact value (roundValue_accounts attests kind)
  | randomInteger => exact value (randomIntegerValue_accounts attests kind)
  | randomFraction => exact value (randomFractionValue_accounts attests kind)
  | aggregate => exact value (aggregateValue_accounts attests kind)
  | comment => exact .pure fun _ _ => commentLines_plain attests.own kind
  | text => exact .pure fun _ _ => spelled_text _
  | textJoin => exact value (joinValue_accounts attests kind)
  | print => exact lines (printLines_accounts attests kind)
  | textLength | listLength | listIsEmpty =>
    refine (attests.valueOr "VALUE" (by simp)).bind fun e => .pure fun books facts => ?_
    have len : Known g books "len" := attests.known (by simp [reservedNames, kind]) rfl
    show Spelled g books _
    simpa using ⟨len, facts.2⟩
  | listOf =>
    refine value ((attests.valuesOr _ (by simp)).bind fun items => .pure fun books facts => ?_)
    exact spelled_list.mpr facts.2
  | listGet => exact value (listGetValue_accounts attests)
  | listSet => exact lines (listSetLines_accounts attests kind)
  | variableGet =>
    refine (variableName?_accounts block "VAR").bind fun found => .pure fun books facts => ?_
    refine spelled_name.mpr ?_
    cases found with
    | none => exact .keyword _ (by decide)
    | some name => exact .name (facts.2 name rfl)
  | variableSet => exact lines (assignLines_accounts attests)
  | definition returns => exact .pure fun _ _ => trivial
  | call returns =>
    cases returns with
    | false => exact lines (callLines_accounts attests)
    | true =>
      refine (callValue?_accounts attests).bind fun found => .pure fun books facts => ?_
      show Spelled g books _
      cases found with
      | none => exact spelled_none
      | some e => exact facts.2 e rfl

end

end Blockwork.Generation
