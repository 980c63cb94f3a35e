import Mathlib
import Blockwork.Proofs.StatementRules
import Blockwork.Proofs.TextLayout

-- The source text of a graph is one list of lines, laid out with the unit of
-- indentation and with empty lines between its parts.
namespace Blockwork.Generation

open Python

variable {g : Graph}

-- Definitions of procedures, and with them the whole pass.
theorem get_ensures : Ensures g get (Visits g) := fun _ visits => ⟨visits, visits⟩

theorem definition_suite {name : String} {params : List String} (proper : isIdentifier name = true)
    (each : ∀ param ∈ params, isIdentifier param = true) {body : List Line} (suite : Suite body) :
    Suite (.flat ("def " ++ name ++ "(" ++ String.intercalate ", " params ++ "):") :: deeper body) := by
  have known : "def " ∈ ["if ", "for ", "while ", "def "] := by decide
  have list : Single (String.intercalate ", " params) :=
    .intercalate (by decide) fun param listed => (Phrase.of_identifier (each param listed)).single
  have head : Single (name ++ "(" ++ String.intercalate ", " params ++ ")") :=
    (((Phrase.of_identifier proper).single.append (by decide)).append list).append (by decide)
  have closing : "):" = ")" ++ ":" := rfl
  simpa only [closing, String.append_assoc] using Suite.compound known head suite

theorem body_suite {body : Chain} (fine : body.Fine) (result : Option Expr) :
    (∀ e ∈ result, e.Legible) → Suite (body.lines ++ match result with
      | some value => [.flat ("return " ++ value.render)]
      | none => if body.acts then [] else [.flat "pass"]) := by
  intro legible
  have pass : Phrase "pass" := ⟨by decide, by decide, by decide⟩
  cases result with
  | some e => exact ((legible e rfl).phrase.after (by decide) (by decide)).suite.after fine.blocked
  | none =>
    dsimp only
    split
    · next acts =>
      rw [List.append_nil]
      exact fine.acts acts
    · exact pass.suite.after fine.blocked

theorem define_ensures (wf : g.WellFormed) {definition : Block}
    (found : g.block? definition.id = some definition) :
    Ensures g (define g definition) fun _ => True := by
  have full := wf.linked.tree_full wf.built found
  unfold define
  split
  · exact .pure trivial
  · next procedure _ =>
    generalize g.tree definition = tree at full
    obtain ⟨block, branches⟩ := tree
    have furnishes : Furnishes g block (renderBranches branches) := by
      refine furnishes_of_full wf full fun p branch inLoop => ?_
      cases full with
      | node _ _ below => exact chain_ensures wf (below p branch) inLoop
    refine get_ensures.bind fun s visits => ?_
    have named : isIdentifier ((s.names.procedureName? procedure.id).getD "unnamed") = true :=
      NameTable.lookup_getD_identifier visits.names.procedures procedure.id (by decide)
    have params : ∀ param ∈ procedure.params.map fun v => (s.names.variableName? v).getD noTarget,
        isIdentifier param = true := by
      intro param listed
      obtain ⟨v, _, rfl⟩ := List.mem_map.mp listed
      exact NameTable.lookup_getD_identifier visits.names.vars v (by decide)
    refine (furnishes.chain (.body "STACK") false).bind fun body fine => ?_
    have recorded := fun (result : Option Expr) (legible : ∀ e ∈ result, e.Legible) =>
      (definition_suite named params (body_suite fine result legible)).blocked
    by_cases returns : definition.kind = .definition true
    · rw [if_pos returns]
      exact (furnishes.value "RETURN").bind fun result legible =>
        addFunction_ensures _ (List.cons_ne_nil _ _) (recorded result legible)
    · rw [if_neg returns]
      exact addFunction_ensures _ (List.cons_ne_nil _ _) (recorded none (by simp))

theorem defineAll_ensures (wf : g.WellFormed) (procedures : List Procedure) :
    Ensures g (defineAll g procedures) fun _ => True := by
  induction procedures with
  | nil => exact .pure trivial
  | cons procedure rest ih =>
    rw [defineAll]
    cases found : g.block? procedure.definition with
    | none => exact ih
    | some definition =>
      have same := (wf.built _ _ found).1
      exact (define_ensures wf (same.symm ▸ found)).bind fun _ _ => ih

structure Program.Fine (program : Program) : Prop where
  imports : ∀ line ∈ program.imports, line ∈ importLines
  functions : ∀ lines ∈ program.functions, lines ≠ [] ∧ Blocked false lines
  chains : ∀ lines ∈ program.chains, lines ≠ [] ∧ Blocked false lines

theorem program_fine (wf : g.WellFormed) : (program g).Fine := by
  have pass : Ensures g (programPass g)
      fun chains => ∀ lines ∈ chains, lines ≠ [] ∧ Blocked false lines := by
    have trees : ∀ tree ∈ g.forest, g.Full tree := fun tree member => wf.linked.forest_full wf.built member
    refine (mainChains_ensures wf trees).bind fun chains each => ?_
    exact (defineAll_ensures wf g.procedures).bind fun _ _ => .pure each
  obtain ⟨visits, chains⟩ := pass _ .start
  exact ⟨visits.imports, visits.functions, chains⟩

def Program.lines (program : Program) : List Line := gather program.imports program.functions program.chains

theorem blocked_flatten {parts : List (List Line)} (each : ∀ lines ∈ parts, Blocked false lines) :
    Blocked false parts.flatten := by
  induction parts with
  | nil => exact .done _
  | cons lines rest ih =>
    rw [List.forall_mem_cons] at each
    exact each.1.append (ih each.2)

theorem importLines_phrase {line : String} (known : line ∈ importLines) : Phrase line := by
  simp only [importLines, List.mem_cons, List.not_mem_nil, or_false] at known
  rcases known with rfl | rfl | rfl <;> exact ⟨by decide, by decide, by decide⟩

theorem Program.Fine.blocked {program : Program} (fine : program.Fine) : Blocked false program.lines := by
  have pass : Phrase "pass" := ⟨by decide, by decide, by decide⟩
  have imports : Blocked false (program.imports.map Line.flat) := by
    have each := fine.imports
    generalize program.imports = lines at each
    induction lines with
    | nil => exact .done _
    | cons line rest ih =>
      rw [List.forall_mem_cons] at each
      exact (importLines_phrase each.1).suite.blocked.append (ih each.2)
  unfold Program.lines gather
  dsimp only
  split
  · exact pass.suite.blocked
  · exact (imports.append (blocked_flatten fun lines listed => (fine.functions lines listed).2)).append
      (blocked_flatten fun lines listed => (fine.chains lines listed).2)

theorem Program.Fine.lays {program : Program} (fine : program.Fine) {options : Options}
    (indents : Indents options.indent) :
    Lays (program.text options) (program.lines.map (·.row options.indent)) := by
  have written : ∀ {lines : List Line}, lines ≠ [] ∧ Blocked false lines → Written lines :=
    fun proper => ⟨proper.1, proper.2.tidy⟩
  exact assemble_lays indents (fun line listed => (importLines_phrase (fine.imports line listed)).tidy)
    (fun lines listed => written (fine.functions lines listed))
    (fun lines listed => written (fine.chains lines listed))

-- Whatever the unit of indentation is, the text has the same lines, and they form blocks.
theorem compiled_lines_structured {w : Workspace} (reached : w.Reachable) :
    ∃ lines : List Line, Structured lines ∧ ∀ options : Options, Indents options.indent →
      (((compile w.graph options).toList.splitOn '\n').map String.ofList).filter (· ≠ "")
        = lines.map (·.row options.indent) ∧
      ∃ front c, (compile w.graph options).toList = front ++ [c, '\n'] ∧ c ≠ '\n' := by
  have fine := program_fine reached.wellFormed
  refine ⟨(program w.graph).lines, fine.blocked.structured, fun options indents => ?_⟩
  have lays := fine.lays indents
  exact ⟨lays.split, lays.ends⟩

theorem noted_loop_structured :
    let w := (Editing.Session.runAll {} false
      [.edit (.addBlock .repeatTimes), .edit (.addBlock .comment),
        .edit (.attach ⟨"b1"⟩ (.body "DO") ⟨"b2"⟩)]).1.workspace
    compile w.graph ⟨"\t"⟩ = "for count in range(0):\n\t# write note here\n\tpass\n" ∧
      ∃ lines : List Line, Structured lines ∧
        (((compile w.graph ⟨"\t"⟩).toList.splitOn '\n').map String.ofList).filter (· ≠ "")
          = lines.map (·.row "\t") := by
  intro w
  have reached : w.Reachable := Editing.Session.runAll_reachable false _
  have tab : Indents "\t" := by simp [Indents]
  obtain ⟨lines, structured, rows⟩ := compiled_lines_structured reached
  exact ⟨by decide +kernel, lines, structured, (rows ⟨"\t"⟩ tab).1⟩

end Blockwork.Generation
