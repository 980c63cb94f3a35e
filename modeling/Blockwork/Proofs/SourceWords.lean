import Mathlib
import Blockwork.Proofs.WordRules

-- The words of a whole program, and who answers for each of them. The program is cut into
-- lines and the lines into lexemes; a builtin that a block relies on is nobody's name.
namespace Blockwork.Generation

open Python

variable {g : Graph} {books : Books} {ledger : Ledger}

-- Trees and chains.
theorem attests_of_full (wf : g.WellFormed) {block : Block} {branches : List (Place × Tree)}
    (full : g.Full (.node block branches))
    (each : ∀ p ∈ branches, ∀ inLoop,
      Accounts g (fun _ => True) ((renderTree p.2).code inLoop) (fun books code => code.Plain g books) ∧
      Accounts g (fun _ => True) ((renderTree p.2).chain inLoop) fun books chain =>
        AllPlain g books chain.lines) :
    Attests g block (renderBranches branches) := by
  refine ⟨?_, ?_, fun slot => ?_, fun place inLoop => ?_⟩
  · exact Dict.mem_values.mpr ⟨_, full.found⟩
  · refine furnishes_of_full wf full fun p branch inLoop => ?_
    cases full with
    | node _ _ below => exact chain_ensures wf (below p branch) inLoop
  · unfold Below.value?
    rw [lookup_renderBranches]
    cases hangs : branches.lookup (.input slot) with
    | none => exact .pure (by simp)
    | some tree =>
      refine (each _ (full_child wf full hangs).1 false).1.bind fun code => ?_
      cases code with
      | expression e =>
        refine .pure fun books facts found same => ?_
        cases same
        exact facts.2
      | statement | nothing => exact .pure (by simp)
  · unfold Below.chainAt
    rw [lookup_renderBranches]
    cases hangs : branches.lookup place with
    | none => exact .pure fun _ _ => .none
    | some tree => exact (each _ (full_child wf full hangs).1 inLoop).2

theorem Code.Plain.toChain {code : Code} {kind : Kind} (plain : code.Plain g books) (fine : code.Fine kind) :
    AllPlain g books (code.toChain kind).lines := by
  cases code with
  | expression e => exact .flat (reads_expression plain fine) .none
  | statement lines => exact plain
  | nothing => exact .none

theorem tree_accounts (wf : g.WellFormed) {tree : Tree} (full : g.Full tree) (inLoop : Bool) :
    Accounts g (fun _ => True) ((renderTree tree).code inLoop) (fun books code => code.Plain g books) ∧
    Accounts g (fun _ => True) ((renderTree tree).chain inLoop) fun books chain =>
      AllPlain g books chain.lines := by
  induction full generalizing inLoop with
  | @node block branches found whole below ih =>
    have full := Graph.Full.node found whole below
    have attests := attests_of_full wf full ih
    refine ⟨rule_accounts attests inLoop, ?_⟩
    have code : Accounts g (fun _ => True) (rule block (renderBranches branches) inLoop) _ :=
      (rule_accounts attests inLoop).ensured (code_ensures wf full attests.furnishes inLoop)
    refine code.bind fun code => (attests.chain .next inLoop).framed.bind fun rest => .pure fun books facts => ?_
    exact (facts.1.2.1.toChain facts.1.2.2).append facts.2

theorem full_attests (wf : g.WellFormed) {block : Block} {branches : List (Place × Tree)}
    (full : g.Full (.node block branches)) : Attests g block (renderBranches branches) := by
  refine attests_of_full wf full fun p branch inLoop => ?_
  cases full with
  | node _ _ below => exact tree_accounts wf (below p branch) inLoop

theorem mainChains_accounts (wf : g.WellFormed) {trees : List Tree} (full : ∀ tree ∈ trees, g.Full tree)
    {given : Books → Prop} :
    Accounts g given (mainChains trees) fun books chains => ∀ lines ∈ chains, AllPlain g books lines := by
  induction trees generalizing given with
  | nil => exact .pure (by simp)
  | cons tree rest ih =>
    rw [List.forall_mem_cons] at full
    rw [mainChains]
    split
    · exact ih full.2
    · refine (tree_accounts wf full.1 false).2.framed.bind fun chain => (ih full.2).bind fun others =>
        .pure fun books facts => ?_
      split
      · exact facts.2
      · exact List.forall_mem_cons.mpr ⟨facts.1.2, facts.2⟩

-- Definitions of procedures.
theorem definition_plain {name : String} {params : List String} {body : List Line}
    (named : Reads (Known g books) name) (each : ∀ param ∈ params, Reads (Known g books) param)
    (inner : AllPlain g books body) :
    AllPlain g books
      (.flat ("def " ++ name ++ "(" ++ String.intercalate ", " params ++ "):") :: deeper body) := by
  have listed := Reads.intercalate Known.keyword (s := ", ") (by decide) each
  have head := (named.opened Known.keyword (s := "def ") (by decide)).between Known.keyword (s := "(")
    (by decide) listed
  exact .flat (head.ended Known.keyword (by decide)) inner.deeper

theorem body_plain {body : Chain} (inner : AllPlain g books body.lines) (result : Option Expr) :
    (∀ e ∈ result, Spelled g books e) → (∀ e ∈ result, e.Legible) →
    AllPlain g books (body.lines ++ match result with
      | some value => [.flat ("return " ++ value.render)]
      | none => if body.acts then [] else [.flat "pass"]) := by
  intro spelled legible
  refine inner.append ?_
  cases result with
  | some e =>
    have text := reads_expression (spelled e rfl) (legible e rfl)
    exact .flat (text.opened Known.keyword (by decide)) .none
  | none =>
    dsimp only
    split
    · exact .none
    · exact .flat reads_pass .none

-- Names that are looked up in an earlier table of the same pass.
theorem procedure_reads {s : PassState} {counters : List String} (visits : Visits g s)
    (grants : Grants g ⟨s.names, counters⟩) (keeps : Keeps s.names books.names) {p : Procedure}
    (listed : p ∈ g.procedures) :
    Reads (Known g books) ((s.names.procedureName? p.id).getD "unnamed") := by
  obtain ⟨name, found⟩ := grants.procedure_named listed
  have proper := NameTable.lookup_identifier visits.names.procedures found
  rw [found, Option.getD_some]
  exact reads_name proper (.name (.toProcedure p.id ((keeps.procedureName? p.id).trans found)))

theorem param_reads {s : PassState} (visits : Visits g s) (keeps : Keeps s.names books.names) (v : VariableId) :
    Reads (Known g books) ((s.names.variableName? v).getD noTarget) := by
  refine reads_name (NameTable.lookup_getD_identifier visits.names.vars v (by decide)) ?_
  cases found : s.names.variableName? v with
  | none => exact .target
  | some name => exact .name (.toVariable v ((keeps.variableName? v).trans found))

-- What is known when the function of a procedure is recorded.
structure Defines (g : Graph) (books : Books) (s : PassState) (body : Chain) (result : Option Expr) : Prop where
  keeps : Keeps s.names books.names
  visits : Visits g s
  grants : ∃ counters, Grants g ⟨s.names, counters⟩
  inner : AllPlain g books body.lines
  fine : body.Fine
  spelled : ∀ e ∈ result, Spelled g books e
  legible : ∀ e ∈ result, e.Legible

theorem record_accounts {given : Books → Prop} {s : PassState} {body : Chain} {p : Procedure}
    (listed : p ∈ g.procedures) {key : String} (other : key ≠ "%helper%" ++ "math_mean") (result : Option Expr) :
    (∀ books, given books → Defines g books s body result) → Accounts g given (addFunction key
      (.flat ("def " ++ (s.names.procedureName? p.id).getD "unnamed" ++ "("
          ++ String.intercalate ", " (p.params.map fun v => (s.names.variableName? v).getD noTarget) ++ "):")
        :: deeper (body.lines ++ match result with
          | some value => [.flat ("return " ++ value.render)]
          | none => if body.acts then [] else [.flat "pass"]))) fun _ _ => True := by
  intro defines
  refine addFunction_accounts other (List.cons_ne_nil _ _) (fun books known => ?_) (fun books known => ?_)
  · have facts := defines books known
    refine (definition_suite ?_ ?_ (body_suite facts.fine result facts.legible)).blocked
    · exact NameTable.lookup_getD_identifier facts.visits.names.procedures p.id (by decide)
    · intro param member
      obtain ⟨v, _, rfl⟩ := List.mem_map.mp member
      exact NameTable.lookup_getD_identifier facts.visits.names.vars v (by decide)
  · have facts := defines books known
    obtain ⟨counters, grants⟩ := facts.grants
    refine .plain (definition_plain (procedure_reads facts.visits grants facts.keeps listed) ?_
      (body_plain facts.inner result facts.spelled facts.legible))
    intro param member
    obtain ⟨v, _, rfl⟩ := List.mem_map.mp member
    exact param_reads facts.visits facts.keeps v

theorem define_accounts (wf : g.WellFormed) {definition : Block}
    (found : g.block? definition.id = some definition) {given : Books → Prop} :
    Accounts g given (define g definition) fun _ _ => True := by
  have full := wf.linked.tree_full wf.built found
  unfold define
  split
  · exact .pure fun _ _ => trivial
  · next procedure bound =>
    obtain ⟨id, _, known⟩ := Option.bind_eq_some_iff.mp bound
    have listed : procedure ∈ g.procedures := List.mem_of_find?_eq_some known
    generalize g.tree definition = tree at full
    obtain ⟨block, branches⟩ := tree
    have attests := full_attests wf full
    have stack : ∀ {given : Books → Prop},
        Accounts g given ((renderBranches branches).chainAt (.body "STACK") false) _ :=
      (attests.chain (.body "STACK") false).framed.ensured (attests.furnishes.chain (.body "STACK") false)
    have value : ∀ {given : Books → Prop}, Accounts g given ((renderBranches branches).value? "RETURN") _ :=
      (attests.value "RETURN").framed.ensured (attests.furnishes.value "RETURN")
    refine get_accounts.bind fun s => stack.bind fun body => ?_
    by_cases returns : definition.kind = .definition true
    · rw [if_pos returns]
      refine value.bind fun result => record_accounts listed (helper_ne_procedure _ _).symm result fun books facts => ?_
      obtain ⟨⟨⟨_, keeps, visits, grants⟩, inner, fine⟩, spelled, legible⟩ := facts
      exact ⟨keeps, visits, grants, inner, fine, spelled, legible⟩
    · rw [if_neg returns]
      refine record_accounts listed (helper_ne_procedure _ _).symm none fun books facts => ?_
      obtain ⟨⟨_, keeps, visits, grants⟩, inner, fine⟩ := facts
      exact ⟨keeps, visits, grants, inner, fine, by simp, by simp⟩

theorem defineAll_accounts (wf : g.WellFormed) (procedures : List Procedure) {given : Books → Prop} :
    Accounts g given (defineAll g procedures) fun _ _ => True := by
  induction procedures generalizing given with
  | nil => exact .pure fun _ _ => trivial
  | cons procedure rest ih =>
    rw [defineAll]
    cases found : g.block? procedure.definition with
    | none => exact ih
    | some definition =>
      have same := (wf.built _ _ found).1
      exact (define_accounts wf (same.symm ▸ found)).bind fun _ => ih

-- The table of names at the end of the pass.
def passNames (g : Graph) : NameTable :=
  ((programPass g).run (.start g (reservedIn g))).2.names

-- The parts of a program one after another.
def Program.groups (program : Program) : List (List Line) :=
  program.imports.map (fun line => [.flat line]) ++ program.functions ++ program.chains

theorem program_accounts (wf : g.WellFormed) : Accounts g (fun _ => True) (programPass g) fun books chains =>
    ∀ lines ∈ chains, AllPlain g books lines := by
  have trees : ∀ tree ∈ g.forest, g.Full tree := fun tree member => wf.linked.forest_full wf.built member
  refine (mainChains_accounts wf trees).bind fun chains => ?_
  exact (defineAll_accounts wf g.procedures).bind fun _ => .pure fun books facts => facts.1.2

theorem program_groups (wf : g.WellFormed) :
    ∃ books : Books, Grants g books.toLedger ∧ books.names = passNames g ∧ books.imports = (program g).imports ∧
      ∀ lines ∈ (program g).groups, Group g books lines := by
  obtain ⟨counters, final, _, chains⟩ := program_accounts wf _ _ .start fun _ _ => trivial
  refine ⟨PassState.books _ counters, final.grants, rfl, rfl, ?_⟩
  unfold Program.groups
  rw [List.forall_mem_append, List.forall_mem_append]
  refine ⟨⟨?_, ?_⟩, ?_⟩
  · intro lines member
    obtain ⟨line, listed, rfl⟩ := List.mem_map.mp member
    exact final.imports line listed _ listed
  · exact fun lines listed => final.functions lines listed _ (.refl _)
  · exact fun lines listed => .plain (chains _ (.refl _) lines listed)

def meanLocals : List String := ["myList", "localList", "e"]

theorem meanLines_read {name : String} (named : books.names.helperName? "math_mean" = some name)
    (proper : isIdentifier name = true) (reserved : ∀ word ∈ meanBuiltins, Reserved g word)
    (imported : "from numbers import Number" ∈ books.imports) :
    ∀ line ∈ meanLines name, Reads (fun word => Known g books word ∨ word ∈ meanLocals) line.content := by
  have needed : ∀ word ∈ meanBuiltins, ∀ line ∈ modules.lookup word, line = "from numbers import Number" := by decide
  have words : ∀ word ∈ keywords ++ meanBuiltins ++ meanLocals, Known g books word ∨ word ∈ meanLocals := by
    intro word listed
    rw [List.mem_append, List.mem_append] at listed
    rcases listed with (keyword | builtin) | own
    · exact .inl (.keyword word keyword)
    · exact .inl (.reserved (reserved word builtin) fun line found => needed word builtin line found ▸ imported)
    · exact .inr own
  have called : Reads (fun word => Known g books word ∨ word ∈ meanLocals) name :=
    .of_word (.of_identifier proper) (.inl (.name (.toHelper _ named)))
  simp only [meanLines, List.forall_mem_cons, List.not_mem_nil, false_imp_iff, implies_true, and_true]
  refine ⟨?_, ?_, ?_, ?_⟩
  · exact (called.opened words (s := "def ") (by decide)).ended words (by decide)
  · exact .of_fixed words (by decide)
  · exact .of_fixed words (by decide)
  · exact .of_fixed words (by decide)

-- Who answers for a word, by the lexemes around it and the lines around those.
inductive Accounted (g : Graph) (ledger : Ledger) (before : List (List Lexeme)) (first : List Lexeme)
    (word : String) (rest : List Lexeme) (after : List (List Lexeme)) : Prop where
  | keyword (listed : word ∈ keywords)
  | name (given : ledger.Gives word)
  | placeholder (same : word = noTarget)
  | member (dotted : first.getLast? = some (.mark '.'))
  | module (same : word = "numbers") (opens : first = [.word "from"])
    (goesOn : rest.head? = some (.word "import"))
  | ofHelper {name above below} (listed : word ∈ meanLocals)
    (named : ledger.names.helperName? "math_mean" = some name)
    (lines : (meanLines name).mapM (fun line => rowLexemes? line.content)
      = some (above ++ (first ++ .word word :: rest) :: below))
    (top : above <:+ before) (bottom : below <+: after)
  | builtin (reserved : Reserved g word)

def AllAccounted (g : Graph) (ledger : Ledger) (lines : List (List Lexeme)) : Prop :=
  ∀ before first word rest after, lines = before ++ (first ++ .word word :: rest) :: after →
    Accounted g ledger before first word rest after

section

variable {before after : List (List Lexeme)} {first rest : List Lexeme} {word : String}

theorem Known.accounted (known : Known g books word) : Accounted g books.toLedger before first word rest after := by
  rcases known with keyword | given | placeholder | ⟨reserved, _⟩
  · exact .keyword keyword
  · exact .name given
  · exact .placeholder placeholder
  · exact .builtin reserved

theorem Accounted.around (accounted : Accounted g ledger before first word rest after)
    (front back : List (List Lexeme)) : Accounted g ledger (front ++ before) first word rest (after ++ back) := by
  cases accounted with
  | keyword listed => exact .keyword listed
  | name given => exact .name given
  | placeholder same => exact .placeholder same
  | member dotted => exact .member dotted
  | module same opens goesOn => exact .module same opens goesOn
  | ofHelper listed named lines top bottom =>
    exact .ofHelper listed named lines (top.trans (List.suffix_append _ _)) (bottom.trans (List.prefix_append _ _))
  | builtin reserved => exact .builtin reserved

theorem AllAccounted.append {one two : List (List Lexeme)} (top : AllAccounted g ledger one)
    (bottom : AllAccounted g ledger two) : AllAccounted g ledger (one ++ two) := by
  intro before first word rest after split
  rcases List.append_eq_append_iff.mp split with ⟨inner, rfl, behind⟩ | ⟨inner, rfl, ahead⟩
  · have accounted := (bottom inner first word rest after behind).around one []
    rw [List.append_nil] at accounted
    exact accounted
  · cases inner with
    | nil =>
      have accounted := (bottom [] first word rest after ahead.symm).around before []
      simpa using accounted
    | cons line inner =>
      obtain ⟨rfl, rfl⟩ := List.cons.inj ahead
      have accounted := (top before first word rest inner rfl).around [] two
      exact accounted

end

-- Rows that can all be scanned, with something said about each.
theorem mapM_rows (property : List Lexeme → Prop) {lines : List Line}
    (each : ∀ line ∈ lines, ∃ found, rowLexemes? line.content = some found ∧ property found) :
    ∃ lexed, lines.mapM (fun line => rowLexemes? line.content) = some lexed ∧
      ∀ found ∈ lexed, property found := by
  induction lines with
  | nil => exact ⟨[], rfl, by simp⟩
  | cons line rest ih =>
    rw [List.forall_mem_cons] at each
    obtain ⟨found, read, holds⟩ := each.1
    obtain ⟨lexed, reads, all⟩ := ih each.2
    exact ⟨found :: lexed, by simp [List.mapM_cons, read, reads], List.forall_mem_cons.mpr ⟨holds, all⟩⟩

theorem commentLines_marked {text : String} {line : Line} (listed : line ∈ commentLines text) :
    line.content.toList = ['#'] ∨
      ∃ row ∈ Text.lines text, line.content.toList = '#' :: Text.trimRight (' ' :: row.toList) := by
  unfold commentLines at listed
  split at listed
  · cases List.mem_singleton.mp listed
    exact .inl (by simp [Line.flat])
  · obtain ⟨row, member, rfl⟩ := List.mem_map.mp listed
    exact .inr ⟨row, member, comment_marked row⟩

theorem Plain.lexed {content : String} (plain : Plain g books content) :
    ∃ found, rowLexemes? content = some found ∧ Explained (Known g books) false found := by
  cases plain with
  | comment _ _ listed same =>
    have marked := commentLines_marked listed
    rw [same] at marked
    rcases marked with marked | ⟨row, _, marked⟩
    · exact ⟨[], rowLexemes?_comment marked, trivial⟩
    · exact ⟨[], rowLexemes?_comment marked, trivial⟩
  | code reads => exact reads.row

-- A word of such rows is a member, or it is known.
theorem allAccounted_of_explained {known : String → Prop} {lexed : List (List Lexeme)}
    (all : ∀ found ∈ lexed, Explained known false found)
    (each : ∀ before first word rest after, lexed = before ++ (first ++ .word word :: rest) :: after →
      known word → Accounted g ledger before first word rest after) : AllAccounted g ledger lexed := by
  intro before first word rest after split
  have explained := all (first ++ .word word :: rest) (by simp [split])
  rcases explained.word rfl with here | dotted | ⟨impossible, _⟩
  · exact each before first word rest after split here
  · exact .member dotted
  · cases impossible

theorem numbers_accounted (reserved : Reserved g "Number") :
    AllAccounted g ledger [[.word "from", .word "numbers", .word "import", .word "Number"]] := by
  intro before first word rest after split
  rcases before with _ | ⟨line, before⟩
  · obtain ⟨same, rfl⟩ := List.cons.inj split
    rcases first with _ | ⟨a, _ | ⟨b, _ | ⟨c, _ | ⟨d, first⟩⟩⟩⟩
    · cases same
      exact .keyword (by decide)
    · cases same
      exact .module rfl rfl rfl
    · cases same
      exact .keyword (by decide)
    · cases same
      exact .builtin reserved
    · simp at same
  · simp at split

theorem Group.accounted {lines : List Line} (group : Group g books lines) :
    ∃ lexed, lines.mapM (fun line => rowLexemes? line.content) = some lexed ∧ AllAccounted g books.toLedger lexed := by
  cases group with
  | plain each =>
    obtain ⟨lexed, reads, all⟩ := mapM_rows _ fun line listed => (each line listed).lexed
    exact ⟨lexed, reads, allAccounted_of_explained all fun _ _ _ _ _ _ known => known.accounted⟩
  | numbers reserved _ => exact ⟨_, by decide, numbers_accounted reserved⟩
  | @mean name named proper reserved imported =>
    obtain ⟨lexed, reads, all⟩ := mapM_rows _ fun line listed =>
      (meanLines_read named proper reserved imported line listed).row
    refine ⟨lexed, reads, allAccounted_of_explained all fun before first word rest after split known => ?_⟩
    rcases known with known | own
    · exact known.accounted
    · exact .ofHelper own named (split ▸ reads) (List.suffix_refl _) (List.prefix_refl _)

theorem groups_accounted {groups : List (List Line)} (each : ∀ lines ∈ groups, Group g books lines) :
    ∃ lexed, groups.flatten.mapM (fun line => rowLexemes? line.content) = some lexed ∧
      AllAccounted g books.toLedger lexed := by
  induction groups with
  | nil => exact ⟨[], rfl, by simp [AllAccounted]⟩
  | cons lines rest ih =>
    rw [List.forall_mem_cons] at each
    obtain ⟨top, read, accounted⟩ := each.1.accounted
    obtain ⟨bottom, reads, all⟩ := ih each.2
    refine ⟨top ++ bottom, ?_, accounted.append all⟩
    rw [List.flatten_cons, List.mapM_append, read, reads]
    rfl

-- Carriage returns. Code has none, and comments are the only text that is written as it is.
def CommentsUnbroken (g : Graph) : Prop :=
  ∀ block ∈ g.blocks.values, block.kind = .comment →
    ∀ row ∈ Text.lines (fieldText block), '\r' ∉ (Text.trimEnd row).toList

instance (g : Graph) : Decidable (CommentsUnbroken g) :=
  inferInstanceAs (Decidable (∀ block ∈ g.blocks.values, block.kind = .comment →
    ∀ row ∈ Text.lines (fieldText block), '\r' ∉ (Text.trimEnd row).toList))

theorem mem_trimRight_cons {x c : Char} {cs : List Char} (inside : x ∈ Text.trimRight (c :: cs)) :
    x = c ∨ x ∈ Text.trimRight cs := by
  unfold Text.trimRight at inside ⊢
  rw [List.reverse_cons, List.dropWhile_append] at inside
  split at inside
  · rw [List.mem_reverse] at inside
    exact .inl (List.mem_singleton.mp ((List.dropWhile_suffix _).subset inside))
  · simpa using inside

theorem Plain.unbroken (comments : CommentsUnbroken g) {content : String} (plain : Plain g books content) :
    '\r' ∉ content.toList := by
  cases plain with
  | comment own kind listed same =>
    rcases commentLines_marked listed with marked | ⟨row, member, marked⟩
    · rw [← same, marked]
      decide
    · have clean := comments _ own kind row member
      rw [Text.trimEnd, String.toList_ofList] at clean
      rw [← same, marked, List.mem_cons, not_or]
      refine ⟨by decide, fun inside => ?_⟩
      rcases mem_trimRight_cons inside with blank | inside
      · cases blank
      · exact clean inside
  | code reads => exact reads.unbroken

theorem Group.unbroken (comments : CommentsUnbroken g) {lines : List Line} (group : Group g books lines) :
    ∀ line ∈ lines, '\r' ∉ line.content.toList := by
  cases group with
  | plain each => exact fun line listed => (each line listed).unbroken comments
  | numbers =>
    rw [List.forall_mem_singleton]
    decide
  | mean named proper reserved imported =>
    exact fun line listed => (meanLines_read named proper reserved imported line listed).unbroken

theorem indentation_chars {unit : String} (indents : Indents unit) (depth : Nat) :
    ∀ c ∈ (String.join (List.replicate depth unit)).toList, isIndent c = true := by
  intro c inside
  have inside : c ∈ unit.toList := by
    induction depth with
    | zero => simp at inside
    | succ depth ih =>
      rw [List.replicate_succ, String.join_cons, String.toList_append, List.mem_append] at inside
      exact inside.elim id ih
  rcases indents c inside with rfl | rfl <;> rfl

theorem Program.lines_eq (program : Program) :
    program.lines = if program.groups.flatten.isEmpty then [.flat "pass"] else program.groups.flatten := by
  have flat : (program.imports.map fun line => [Line.flat line]).flatten = program.imports.map .flat := by
    induction program.imports with
    | nil => rfl
    | cons line rest ih => simpa using ih
  simp only [Program.lines, gather, Program.groups, List.flatten_append, flat]

theorem program_lines (wf : g.WellFormed) :
    ∃ books : Books, Grants g books.toLedger ∧ books.names = passNames g ∧
      ∃ groups : List (List Line), (program g).lines = groups.flatten ∧ ∀ lines ∈ groups, Group g books lines := by
  obtain ⟨books, grants, same, _, each⟩ := program_groups wf
  refine ⟨books, grants, same, ?_⟩
  rw [Program.lines_eq]
  split
  · exact ⟨[[.flat "pass"]], rfl, List.forall_mem_singleton.mpr (.plain (.flat reads_pass .none))⟩
  · exact ⟨_, rfl, each⟩

theorem compile_unbroken (wf : g.WellFormed) {options : Options} (indents : Indents options.indent)
    (comments : CommentsUnbroken g) : '\r' ∉ (compile g options).toList := by
  obtain ⟨books, _, _, groups, whole, each⟩ := program_lines wf
  intro inside
  rcases ((program_fine wf).lays indents).mem inside with feed | ⟨row, listed, there⟩
  · cases feed
  · obtain ⟨line, member, rfl⟩ := List.mem_map.mp listed
    rw [whole] at member
    obtain ⟨group, among, member⟩ := List.mem_flatten.mp member
    rw [Line.row, String.toList_append, List.mem_append] at there
    rcases there with front | inside
    · exact absurd (indentation_chars indents line.depth _ front) (by decide)
    · exact (each group among).unbroken comments line member inside

theorem rows_compile (wf : g.WellFormed) {options : Options} (indents : Indents options.indent) :
    (rows (compile g options).toList).mapM rowLexemes?
      = (program g).lines.mapM fun line => rowLexemes? line.content := by
  have cut : rows (compile g options).toList = (program g).lines.map (·.row options.indent) :=
    ((program_fine wf).lays indents).split
  have indented : (rowLexemes? ∘ fun line : Line => line.row options.indent)
      = fun line => rowLexemes? line.content :=
    funext fun line => rowLexemes?_indent (indentation_chars indents line.depth) line.content
  rw [cut, List.mapM_map, indented]

-- Every word is accounted for. Where the source is read with its carriage returns as line ends
-- too, it has the same lines, if no comment has one inside.
theorem source_words_accounted {w : Workspace} (reached : w.Reachable) {options : Options}
    (indents : Indents options.indent) :
    let source := (compile w.graph options).toList
    ∃ ledger lines, Grants w.graph ledger ∧ ledger.names = passNames w.graph ∧
      (rows source).mapM rowLexemes? = some lines ∧ AllAccounted w.graph ledger lines ∧
      (CommentsUnbroken w.graph → rows (universal source) = rows source) ∧
      ∀ block ∈ w.graph.blocks.values, ∀ name ∈ reservedNames block, ¬ledger.Gives name := by
  intro source
  have wf := reached.wellFormed
  obtain ⟨books, grants, same, groups, whole, each⟩ := program_lines wf
  obtain ⟨lines, reads, accounted⟩ := groups_accounted each
  refine ⟨books.toLedger, lines, grants, same, ?_, accounted, fun comments => ?_, ?_⟩
  · rw [rows_compile wf indents, whole]
    exact reads
  · exact congrArg rows (universal_eq (compile_unbroken wf indents comments))
  · intro block own name listed given
    refine grants.apart.given name given (List.mem_append_right _ ?_)
    exact reserved_iff.mpr ⟨block, own, listed⟩

-- A variable that is called like a builtin, beside a block that relies on it.
theorem variable_beside_builtin_accounted :
    let w := (Editing.Session.runAll {} false
      [.edit (.createVariable "sum"), .edit (.addBlock .variableSet), .edit (.addBlock .aggregate),
        .edit (.setField ⟨"b2"⟩ "VAR" (.variableRef ⟨"v1"⟩)),
        .edit (.setField ⟨"b3"⟩ "OP" (.choice "AVERAGE")),
        .edit (.attach ⟨"b2"⟩ (.input "VALUE") ⟨"b3"⟩),
        .edit (.addBlock .comment), .edit (.setField ⟨"b4"⟩ "TEXT" (.text "sum is\r\nthe mean"))]).1.workspace
    let source := (compile w.graph {}).toList
    Indents ({} : Options).indent ∧ CommentsUnbroken w.graph ∧
      (program w.graph).lines = [.flat "from numbers import Number", .flat "def math_mean(myList):",
        ⟨1, "localList = [e for e in myList if isinstance(e, Number)]"⟩, ⟨1, "if not localList: return"⟩,
        ⟨1, "return float(sum(localList)) / len(localList)"⟩, .flat "sum2 = math_mean([])",
        .flat "# sum is", .flat "# the mean"] ∧
      ∃ ledger lines, Grants w.graph ledger ∧ ledger.names = passNames w.graph ∧
        (rows (universal source)).mapM rowLexemes? = some lines ∧ AllAccounted w.graph ledger lines ∧
        ledger.Gives "sum2" ∧ ¬ledger.Gives "sum" := by
  intro w source
  have reached : w.Reachable := Editing.Session.runAll_reachable false _
  have indents : Indents ({} : Options).indent := by simp [Indents]
  have comments : CommentsUnbroken w.graph := by decide +kernel
  obtain ⟨ledger, lines, grants, same, reads, all, unbroken, free⟩ := source_words_accounted reached indents
  refine ⟨indents, comments, by decide +kernel, ledger, lines, grants, same, ?_, all, ?_, ?_⟩
  · rw [unbroken comments]
    exact reads
  · refine .toVariable ⟨"v1"⟩ ?_
    rw [same]
    decide +kernel
  · have uses : ∃ block ∈ w.graph.blocks.values, "sum" ∈ reservedNames block := by decide +kernel
    obtain ⟨block, own, listed⟩ := uses
    exact free block own "sum" listed

-- A carriage return in a comment ends it where the source is read.
theorem word_behind_comment_unaccounted :
    let w := (Editing.Session.runAll {} false
      [.edit (.addBlock .comment), .edit (.setField ⟨"b1"⟩ "TEXT" (.text "a\rzzz"))]).1.workspace
    compile w.graph {} = "# a\rzzz\n" ∧ ¬CommentsUnbroken w.graph ∧
      (rows (universal (compile w.graph {}).toList)).mapM rowLexemes? = some [[], [.word "zzz"]] ∧
      ∀ ledger, Grants w.graph ledger → ledger.names = passNames w.graph →
        ¬AllAccounted w.graph ledger [[], [.word "zzz"]] := by
  intro w
  refine ⟨by decide +kernel, by decide +kernel, by decide +kernel, fun ledger grants same all => ?_⟩
  have taken : "zzz" ∉ (passNames w.graph).taken := by decide +kernel
  have reserved : "zzz" ∉ reservedIn w.graph := by decide +kernel
  cases all [[]] [] "zzz" [] [] rfl with
  | keyword listed => exact absurd listed (by decide)
  | name given => exact taken (same ▸ grants.apart.taken "zzz" given)
  | placeholder same => exact absurd same (by decide)
  | member dotted => cases dotted
  | module same => exact absurd same (by decide)
  | ofHelper listed => exact absurd listed (by decide)
  | builtin known => exact reserved (reserved_iff.mpr known)

end Blockwork.Generation
