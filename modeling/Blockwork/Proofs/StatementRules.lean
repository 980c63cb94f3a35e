import Mathlib
import Blockwork.Proofs.ValueRules

-- The rule of a block that does something gives back lines that form blocks. So
-- does a chain of such blocks, and one that claims to do something does.
namespace Blockwork.Generation

open Python

-- Comments. Their text may have any number of lines and any characters in them.
theorem linesFrom_single {line cs : List Char} (single : '\n' ∉ line) :
    ∀ row ∈ Text.linesFrom line cs, '\n' ∉ row := by
  induction cs generalizing line with
  | nil =>
    rw [Text.linesFrom]
    split
    · simp
    · simpa using single
  | cons c cs ih =>
    rw [Text.linesFrom]
    split
    · have shorter : '\n' ∉ Text.dropReturn line := by
        unfold Text.dropReturn
        split
        · exact fun inside => single (List.mem_cons_of_mem _ inside)
        · exact single
      rw [List.forall_mem_cons, List.mem_reverse]
      exact ⟨shorter, ih (by simp)⟩
    · next other => exact ih (by simpa [Ne.symm other] using single)

theorem trimRight_cons {c : Char} (solid : Text.isBlank c = false) (cs : List Char) :
    Text.trimRight (c :: cs) = c :: Text.trimRight cs := by
  unfold Text.trimRight
  rw [List.reverse_cons, List.dropWhile_append]
  split
  · next none => simp [solid, List.isEmpty_iff.mp none]
  · simp

theorem mem_trimRight {c : Char} {cs : List Char} (inside : c ∈ Text.trimRight cs) : c ∈ cs := by
  unfold Text.trimRight at inside
  rw [List.mem_reverse] at inside
  exact List.mem_reverse.mp ((List.dropWhile_suffix _).subset inside)

theorem trimRight_last (cs : List Char) : ∀ c ∈ (Text.trimRight cs).getLast?, Text.isBlank c = false := by
  intro c last
  have kept := List.head?_dropWhile_not Text.isBlank cs.reverse
  rw [Text.trimRight, List.getLast?_reverse] at last
  rw [last] at kept
  exact kept

theorem comment_line {content : String} {rest : List Char} (marked : content.toList = '#' :: rest)
    (single : '\n' ∉ rest) (ended : content.toList.getLast? ≠ some '\r') {more : List Line}
    (after : Blocked false more) : Blocked false (.flat content :: more) := by
  refine .line ⟨?_, ?_, ended⟩ ?_ after
  · have solid : Text.isBlank '#' = false := by decide
    simp [marked, solid]
  · rw [marked]
    simpa using single
  · rw [isHeader, Bool.and_eq_false_iff]
    left
    simp [startsWith, marked, List.isPrefixOf]

theorem comment_marked (row : String) :
    (Text.trimEnd ("# " ++ row)).toList = '#' :: Text.trimRight (' ' :: row.toList) := by
  rw [Text.trimEnd, String.toList_ofList, ← trimRight_cons (by decide)]
  simp

theorem commentLines_blocked (text : String) : Blocked false (commentLines text) := by
  unfold commentLines
  split
  · have marked : "#".toList = '#' :: [] := by simp
    exact comment_line marked (by simp) (by decide) (.done _)
  · unfold Text.lines
    rw [List.map_map]
    have rows : ∀ row ∈ Text.linesFrom [] text.toList, '\n' ∉ row := linesFrom_single (by simp)
    generalize Text.linesFrom [] text.toList = found at rows
    induction found with
    | nil => exact .done _
    | cons row rest ih =>
      rw [List.forall_mem_cons] at rows
      have marked := comment_marked (String.ofList row)
      rw [String.toList_ofList] at marked
      refine comment_line marked (fun inside => ?_) (fun last => ?_) (ih rows.2)
      · simpa [rows.1] using mem_trimRight inside
      · rw [marked, ← trimRight_cons (by decide)] at last
        exact absurd (trimRight_last _ _ last) (by decide)

theorem linesFrom_ne_nil {line cs : List Char} (filled : line ≠ [] ∨ cs ≠ []) : Text.linesFrom line cs ≠ [] := by
  induction cs generalizing line with
  | nil =>
    rw [Text.linesFrom]
    split
    · next empty => simp_all
    · exact List.cons_ne_nil _ _
  | cons c cs ih =>
    rw [Text.linesFrom]
    split
    · exact List.cons_ne_nil _ _
    · exact ih (.inl (List.cons_ne_nil _ _))

variable {g : Graph}

-- A block contributes a legible expression or lines that form blocks; only comments do
-- nothing.
def Code.Fine (kind : Kind) : Code → Prop
  | .expression e => e.Legible
  | .statement lines => Blocked false lines ∧ (kind ≠ .comment → lines = [] ∨ Suite lines)
  | .nothing => True

structure Chain.Fine (chain : Chain) : Prop where
  blocked : Blocked false chain.lines
  acts : chain.acts = true → Suite chain.lines

theorem Code.Fine.toChain {kind : Kind} {code : Code} (fine : code.Fine kind) :
    (code.toChain kind).Fine := by
  cases code with
  | expression e =>
    have legible : e.Legible := fine
    exact ⟨legible.phrase.suite.blocked, fun _ => legible.phrase.suite⟩
  | statement lines =>
    refine ⟨fine.1, fun acts => ?_⟩
    simp only [Code.toChain, Bool.and_eq_true, decide_eq_true_eq] at acts
    rcases fine.2 acts.2 with rfl | suite
    · simp at acts
    · exact suite
  | nothing => exact ⟨.done _, fun acts => by cases acts⟩

theorem Chain.Fine.append {first second : Chain} (before : first.Fine) (after : second.Fine) :
    (first.append second).Fine := by
  refine ⟨before.blocked.append after.blocked, fun acts => ?_⟩
  simp only [Chain.append, Bool.or_eq_true] at acts
  rcases acts with here | there
  · exact (before.acts here).append after.blocked
  · exact (after.acts there).after before.blocked

structure Furnishes (g : Graph) (block : Block) (below : Below) : Prop where
  value : ∀ slot, Ensures g (below.value? slot) fun found => ∀ e ∈ found, e.Legible
  list : block.kind = .listSet → Ensures g (below.value? "LIST")
    fun found => ∀ e ∈ found, e.Legible ∧ ∀ digits, e ≠ .numeral digits
  chain : ∀ place inLoop, Ensures g (below.chainAt place inLoop) Chain.Fine

section
variable {block : Block} {below : Below}

theorem Furnishes.valueOr (furnishes : Furnishes g block below) (slot : String) {standIn : Expr}
    (legible : standIn.Legible) : Ensures g (below.valueOr slot standIn) Expr.Legible := by
  refine (furnishes.value slot).bind fun found proper => .pure ?_
  cases found with
  | none => exact legible
  | some e => exact proper e rfl

theorem Furnishes.suite (furnishes : Furnishes g block below) (slot : String) (inLoop : Bool) :
    Ensures g (below.suite slot inLoop) fun lines => ∃ body, lines = deeper body ∧ Suite body := by
  have pass : Phrase "pass" := ⟨by decide, by decide, by decide⟩
  refine (furnishes.chain (.body slot) inLoop).bind fun chain fine => .pure ⟨_, rfl, ?_⟩
  split
  · next acts =>
    rw [List.append_nil]
    exact fine.acts acts
  · exact pass.suite.after fine.blocked

theorem target_ensures (block : Block) (field : String) :
    Ensures g (variableName? block field) fun found => isIdentifier (found.getD noTarget) = true := by
  refine (variableName?_yields block field).ensures fun names proper => ?_
  cases found : (block.variableIn? field).bind names.variableName? with
  | none => decide
  | some name =>
    obtain ⟨v, _, named⟩ := Option.bind_eq_some_iff.mp found
    exact NameTable.lookup_identifier proper.vars named

-- Conditionals. After the first branch the others go on with it.
theorem branch_blocked {condition : Expr} (legible : condition.Legible) {body rest : List Line}
    (suite : Suite body) (more : Blocked true rest) :
    Blocked true (.flat ("elif " ++ condition.render ++ ":") :: (deeper body ++ rest)) := by
  have known : "elif " ∈ headWords := by decide
  have goesOn : isConditional ("elif " ++ condition.render ++ ":") = true :=
    head_conditional condition.render (by decide)
  refine .branch (head_tidy known legible.phrase.single) (head_isHeader _ known) suite.blocked suite.acts ?_
  rw [goesOn]
  exact more

theorem branchLines_ensures (furnishes : Furnishes g block below) (inLoop : Bool) (count n : Nat) :
    Ensures g (branchLines below inLoop count (n + 1))
      fun lines => ∀ rest, Blocked true rest → Blocked true (lines ++ rest) := by
  induction count generalizing n with
  | zero => exact .pure fun rest more => more
  | succ count ih =>
    refine (furnishes.valueOr (Kind.conditionName (n + 1)) falseExpr_legible).bind fun condition legible => ?_
    refine (furnishes.suite (Kind.branchName (n + 1)) inLoop).bind fun body suited => ?_
    refine (ih (n + 1)).bind fun others goesOn => .pure fun rest more => ?_
    obtain ⟨inner, rfl, suite⟩ := suited
    simp only [Nat.succ_ne_zero, if_false, List.cons_append, List.append_assoc]
    exact branch_blocked legible suite (goesOn rest more)

theorem opening_suite {condition : Expr} (legible : condition.Legible) {body rest : List Line}
    (suite : Suite body) (more : Blocked true rest) :
    Suite (.flat ("if " ++ condition.render ++ ":") :: (deeper body ++ rest)) := by
  have known : "if " ∈ headWords := by decide
  have goesOn : isConditional ("if " ++ condition.render ++ ":") = true :=
    head_conditional condition.render (by decide)
  refine ⟨?_, _, List.mem_cons_self, rfl, head_plain _ known⟩
  refine .opener (head_tidy known legible.phrase.single) (head_isHeader _ known)
    (head_first _ (by decide)) suite.blocked suite.acts ?_
  rw [goesOn]
  exact more

theorem ifLines_ensures (furnishes : Furnishes g block below) (inLoop : Bool) :
    Ensures g (ifLines block below inLoop) Suite := by
  have branches : Ensures g (branchLines below inLoop (block.extent.items + 1) 0)
      fun lines => ∀ rest, Blocked true rest → Suite (lines ++ rest) := by
    refine (furnishes.valueOr (Kind.conditionName 0) falseExpr_legible).bind fun condition legible => ?_
    refine (furnishes.suite (Kind.branchName 0) inLoop).bind fun body suited => ?_
    refine (branchLines_ensures furnishes inLoop block.extent.items 0).bind fun others goesOn =>
      .pure fun rest more => ?_
    obtain ⟨inner, rfl, suite⟩ := suited
    simp only [if_true, List.cons_append, List.append_assoc]
    exact opening_suite legible suite (goesOn rest more)
  refine branches.bind fun lines goesOn => ?_
  split
  · refine (furnishes.suite "ELSE" inLoop).bind fun body suited => .pure ?_
    obtain ⟨inner, rfl, suite⟩ := suited
    refine goesOn _ ?_
    rw [← List.append_nil (deeper inner)]
    exact .branch ⟨by decide, by decide, by decide⟩ (by decide) suite.blocked suite.acts (.done _)
  · have whole := goesOn [] (.done _)
    rw [List.append_nil] at whole
    exact .pure whole

-- Loops.
theorem ofInt_legible (value : Int) : (Expr.ofInt value).Legible := by
  have digits : (Expr.numeral (toString value.natAbs)).Legible := by
    refine .numeral ?_
    rw [Nat.toString_eq_repr, Nat.toList_repr]
    exact isNumeral_natural _
  unfold Expr.ofInt
  split
  · exact .opposite digits
  · exact digits

theorem repeatCount_legible {times : Option Expr} (legible : ∀ e ∈ times, e.Legible) :
    (repeatCount times).Legible := by
  cases times with
  | none => exact zeroExpr_legible
  | some e =>
    have cut : (Expr.apply "int" [e]).Legible := apply_legible (by decide) (one_legible (legible e rfl))
    unfold repeatCount
    dsimp only
    split
    · split
      · exact ofInt_legible _
      · exact cut
    · exact cut

theorem for_suite {target text : String} (first : Single target) (middle : String) (between : Single middle)
    (second : Single text) {body : List Line} (suite : Suite body) :
    Suite (.flat ("for " ++ target ++ middle ++ text ++ ":") :: deeper body) := by
  have known : "for " ∈ ["if ", "for ", "while ", "def "] := by decide
  have whole := Suite.compound known ((first.append between).append second) suite
  simpa only [String.append_assoc] using whole

theorem repeatLines_ensures (furnishes : Furnishes g block below) : Ensures g (repeatLines below) Suite := by
  refine (furnishes.value "TIMES").bind fun times proper => ?_
  refine (claimName_ensures "count").bind fun counter named => ?_
  refine (furnishes.suite "DO" true).bind fun body suited => .pure ?_
  obtain ⟨inner, rfl, suite⟩ := suited
  have range : (Expr.apply "range" [repeatCount times]).Legible :=
    apply_legible (by decide) (one_legible (repeatCount_legible proper))
  exact for_suite (Phrase.of_identifier named).single " in " (by decide) range.phrase.single suite

theorem whileLines_ensures (furnishes : Furnishes g block below) :
    Ensures g (whileLines block below) Suite := by
  refine (furnishes.valueOr "BOOL" falseExpr_legible).bind fun value legible => ?_
  refine (furnishes.suite "DO" true).bind fun body suited => .pure ?_
  obtain ⟨inner, rfl, suite⟩ := suited
  refine Suite.compound (by decide) (Expr.Legible.phrase ?_).single suite
  split
  · exact .negation legible
  · exact legible

theorem countLines_ensures (furnishes : Furnishes g block below) :
    Ensures g (countLines block below) Suite := by
  have one : (Expr.numeral "1").Legible := .numeral (by decide)
  refine (target_ensures block "VAR").bind fun found named => ?_
  refine (furnishes.valueOr "FROM" zeroExpr_legible).bind fun start first => ?_
  refine (furnishes.valueOr "TO" zeroExpr_legible).bind fun stop last => ?_
  refine (furnishes.valueOr "BY" one).bind fun step each => ?_
  refine (furnishes.suite "DO" true).bind fun body suited => .pure ?_
  obtain ⟨inner, rfl, suite⟩ := suited
  have stopped := (last.within_phrase .additive .loose).single
  have arguments : ∀ part ∈ rangeArguments start.render (stop.within .additive .loose) step.render,
      Single part := by
    unfold rangeArguments
    split
    · split
      · simpa using stopped
      · simpa using ⟨first.phrase.single, stopped⟩
    · simpa using ⟨first.phrase.single, stopped, each.phrase.single⟩
  have listed : Single (String.intercalate ", "
      (rangeArguments start.render (stop.within .additive .loose) step.render) ++ ")") :=
    (Single.intercalate (by decide) arguments).append (by decide)
  have closing : "):" = ")" ++ ":" := rfl
  have whole := for_suite (Phrase.of_identifier named).single " in range(" (by decide) listed suite
  simpa only [closing, String.append_assoc] using whole

theorem forEachLines_ensures (furnishes : Furnishes g block below) :
    Ensures g (forEachLines block below) Suite := by
  refine (target_ensures block "VAR").bind fun found named => ?_
  refine (furnishes.valueOr "LIST" emptyListExpr_legible).bind fun list legible => ?_
  refine (furnishes.suite "DO" true).bind fun body suited => .pure ?_
  obtain ⟨inner, rfl, suite⟩ := suited
  exact for_suite (Phrase.of_identifier named).single " in " (by decide)
    (legible.within_phrase .relational .loose).single suite

-- Single lines.
theorem changeLines_ensures (furnishes : Furnishes g block below) :
    Ensures g (changeLines block below) Suite := by
  refine (target_ensures block "VAR").bind fun found named => ?_
  refine (furnishes.valueOr "DELTA" zeroExpr_legible).bind fun delta legible => .pure ?_
  have symbol : Single (" " ++ (changeSymbol (block.choiceIn? "OP") ++ " ")) := by
    unfold changeSymbol
    split <;> decide
  have whole := (Phrase.of_identifier named).join symbol (legible.within_phrase .additive .loose)
  refine Phrase.suite ?_
  simpa only [String.append_assoc] using whole

theorem printLines_ensures (furnishes : Furnishes g block below) : Ensures g (printLines below) Suite := by
  refine (furnishes.valueOr "TEXT" emptyTextExpr_legible).bind fun value legible => .pure ?_
  exact (apply_legible (by decide) (one_legible legible)).phrase.suite

theorem assignLines_ensures (furnishes : Furnishes g block below) :
    Ensures g (assignLines block below) Suite := by
  refine (target_ensures block "VAR").bind fun found named => ?_
  refine (furnishes.valueOr "VALUE" noneExpr_legible).bind fun value legible => .pure ?_
  exact ((Phrase.of_identifier named).join (by decide) legible.phrase).suite

theorem Furnishes.listOr (furnishes : Furnishes g block below) (kind : block.kind = .listSet) :
    Ensures g (below.valueOr "LIST" (.name "list")) fun e => e.Legible ∧ ∀ digits, e ≠ .numeral digits := by
  refine (furnishes.list kind).bind fun found proper => .pure ?_
  cases found with
  | none => exact ⟨.name (.inl (by decide)), by simp⟩
  | some e => exact proper e rfl

theorem listSetLines_ensures (furnishes : Furnishes g block below) (kind : block.kind = .listSet) :
    Ensures g (listSetLines block below) Suite := by
  have assigned : ∀ {list position value : Expr}, list.Legible → position.Legible → value.Legible →
      Suite [.flat ((Expr.item list position).render ++ " = " ++ value.render)] :=
    fun list position value => ((Expr.Legible.item list position).phrase.join (by decide) value.phrase).suite
  refine (furnishes.listOr kind).bind fun list proper => ?_
  refine (furnishes.valueOr "TO" noneExpr_legible).bind fun value legible => ?_
  split
  · exact .pure (assigned proper.1 zeroExpr_legible legible)
  · refine (furnishes.valueOr "AT" zeroExpr_legible).bind fun position index => .pure ?_
    split
    · exact (send_legible proper.1 proper.2 (by decide) (by simp [index, legible])).phrase.suite
    · exact assigned proper.1 index legible

theorem Furnishes.valuesOr (furnishes : Furnishes g block below) (slots : List String) {standIn : Expr}
    (legible : standIn.Legible) : Ensures g (below.valuesOr slots standIn) fun es => ∀ e ∈ es, e.Legible := by
  induction slots with
  | nil => exact .pure (by simp)
  | cons slot rest ih =>
    refine (furnishes.valueOr slot legible).bind fun first proper => ih.bind fun others each => .pure ?_
    exact List.forall_mem_cons.mpr ⟨proper, each⟩

theorem Furnishes.call (furnishes : Furnishes g block below) :
    Ensures g (callValue? block below) fun found => ∀ e ∈ found, e.Legible := by
  have named : Ensures g (procedureName? block "NAME") fun found => ∀ name ∈ found, isIdentifier name = true := by
    refine (procedureName?_yields block "NAME").ensures fun names proper name found => ?_
    obtain ⟨p, _, known⟩ := Option.bind_eq_some_iff.mp found
    exact NameTable.lookup_identifier proper.procedures known
  refine named.bind fun found proper => ?_
  cases found with
  | none => exact .pure (by simp)
  | some name =>
    refine (furnishes.valuesOr _ noneExpr_legible).bind fun args each => .pure ?_
    rintro _ ⟨⟩
    exact apply_legible (proper name rfl) each

theorem callLines_ensures (furnishes : Furnishes g block below) :
    Ensures g (callLines block below) fun lines => lines = [] ∨ Suite lines := by
  refine furnishes.call.bind fun found proper => .pure ?_
  cases found with
  | none => exact .inl rfl
  | some e => exact .inr (proper e rfl).phrase.suite

theorem flowLines_fine (block : Block) (inLoop : Bool) :
    flowLines block inLoop = [] ∨ Suite (flowLines block inLoop) := by
  unfold flowLines
  split
  · refine .inr (Phrase.suite ?_)
    split
    · exact ⟨by decide, by decide, by decide⟩
    · exact ⟨by decide, by decide, by decide⟩
  · exact .inl rfl

theorem rule_ensures (furnishes : Furnishes g block below) (other : block.kind.connection ≠ .expression)
    (inLoop : Bool) : Ensures g (rule block below inLoop) (Code.Fine block.kind) := by
  have optional : ∀ {lines : List Line} {kind : Kind}, lines = [] ∨ Suite lines →
      (Code.statement lines).Fine kind := by
    intro lines kind suited
    refine ⟨?_, fun _ => suited⟩
    rcases suited with rfl | suite
    · exact .done _
    · exact suite.blocked
  have solid : ∀ {action : Pass (List Line)} {kind : Kind}, Ensures g action Suite →
      Ensures g (do return Code.statement (← action)) (Code.Fine kind) :=
    fun ensures => ensures.bind fun lines suite => .pure (optional (.inr suite))
  unfold rule
  cases kind : block.kind with
  | ifElse => exact solid (ifLines_ensures furnishes inLoop)
  | repeatTimes => exact solid (repeatLines_ensures furnishes)
  | whileUntil => exact solid (whileLines_ensures furnishes)
  | countWith => exact solid (countLines_ensures furnishes)
  | forEach => exact solid (forEachLines_ensures furnishes)
  | flow => exact .pure (optional (flowLines_fine block inLoop))
  | changeBy => exact solid (changeLines_ensures furnishes)
  | comment => exact .pure ⟨commentLines_blocked _, fun apart => absurd rfl apart⟩
  | print => exact solid (printLines_ensures furnishes)
  | listSet => exact solid (listSetLines_ensures furnishes kind)
  | variableSet => exact solid (assignLines_ensures furnishes)
  | definition returns => exact .pure trivial
  | call returns =>
    cases returns with
    | true =>
      rw [kind] at other
      exact absurd rfl other
    | false => exact (callLines_ensures furnishes).bind fun lines suited => .pure (optional suited)
  | _ =>
    rw [kind] at other
    exact absurd rfl other

end

-- Trees and chains.
theorem furnishes_of_full (wf : g.WellFormed) {block : Block} {branches : List (Place × Tree)}
    (full : g.Full (.node block branches))
    (chains : ∀ p ∈ branches, ∀ inLoop, Ensures g ((renderTree p.2).chain inLoop) Chain.Fine) :
    Furnishes g block (renderBranches branches) := by
  have legible : ∀ names : NameTable, names.Legible → ∀ slot, ∀ e ∈ inputMeaning names branches slot,
      e.Legible := by
    intro names proper slot e given
    rw [inputMeaning_eq] at given
    obtain ⟨tree, hangs, rfl⟩ := Option.map_eq_some_iff.mp given
    exact treeMeaning_legible wf (full_child wf full hangs).2.1 proper
  refine ⟨fun slot => ?_, fun kind => ?_, fun place inLoop => ?_⟩
  · exact (branches_supply wf full slot).ensures fun names proper => legible names proper slot
  · have list : block.kind.slot? block.extent "LIST" = some (.input (some .array)) := by
      rw [kind]
      rfl
    refine (branches_supply wf full "LIST").ensures fun names proper e given => ?_
    refine ⟨legible names proper "LIST" e given, fun digits same => ?_⟩
    exact inputMeaning_solid wf full list names digits (same ▸ given)
  · unfold Below.chainAt
    rw [lookup_renderBranches]
    cases hangs : branches.lookup place with
    | none => exact .pure ⟨.done _, fun acts => by cases acts⟩
    | some tree => exact chains _ (full_child wf full hangs).1 inLoop

theorem code_ensures (wf : g.WellFormed) {block : Block} {branches : List (Place × Tree)}
    (full : g.Full (.node block branches)) (furnishes : Furnishes g block (renderBranches branches))
    (inLoop : Bool) : Ensures g (rule block (renderBranches branches) inLoop) (Code.Fine block.kind) := by
  by_cases valued : block.kind.connection = .expression
  · refine (rule_yields (branches_supply wf full) valued inLoop).ensures fun names proper => ?_
    exact treeMeaning_legible wf full proper
  · exact rule_ensures furnishes valued inLoop

theorem chain_ensures (wf : g.WellFormed) {tree : Tree} (full : g.Full tree) (inLoop : Bool) :
    Ensures g ((renderTree tree).chain inLoop) Chain.Fine := by
  induction full generalizing inLoop with
  | @node block branches found whole below ih =>
    have full := Graph.Full.node found whole below
    have furnishes := furnishes_of_full wf full ih
    refine (code_ensures wf full furnishes inLoop).bind fun code fine =>
      (furnishes.chain .next inLoop).bind fun rest after => .pure ?_
    exact fine.toChain.append after

theorem mainChains_ensures (wf : g.WellFormed) {trees : List Tree} (full : ∀ tree ∈ trees, g.Full tree) :
    Ensures g (mainChains trees) fun chains => ∀ lines ∈ chains, lines ≠ [] ∧ Blocked false lines := by
  induction trees with
  | nil => exact .pure (by simp)
  | cons tree rest ih =>
    rw [List.forall_mem_cons] at full
    rw [mainChains]
    split
    · exact ih full.2
    · refine (chain_ensures wf full.1 false).bind fun chain fine => (ih full.2).bind fun others each => .pure ?_
      split
      · exact each
      · next filled =>
        refine List.forall_mem_cons.mpr ⟨⟨fun none => filled ?_, fine.blocked⟩, each⟩
        rw [none]
        rfl

end Blockwork.Generation
