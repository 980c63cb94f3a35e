import Mathlib
import Blockwork.Proofs.NestedText
import Blockwork.Proofs.SourceIdentity

-- The functions before the main text. Every procedure has its function there once, in the order of
-- the procedures, and all others are helpers. None is lost for being recorded already, since no two
-- of them have the same name.
namespace Blockwork.Generation

open Python

variable {g : Graph}

-- How a procedure is called, and the line that its function starts with.
def calledAs (g : Graph) (p : Procedure) : String :=
  ((NameTable.build g (reservedIn g)).procedureName? p.id).getD "unnamed"

def headerOf (g : Graph) (p : Procedure) : String :=
  "def " ++ calledAs g p ++ "(" ++ String.intercalate ", " (p.params.map fun param =>
    ((NameTable.build g (reservedIn g)).variableName? param).getD noTarget) ++ "):"

-- The lines of a function: a header, the body of the definition, and what is given back.
def FunctionText (header : String) : Tree → List Line → Prop
  | .node _ branches, lines => ∃ body last, lines = .flat header :: deeper (body ++ last) ∧
    textAt (branchTexts branches) (.body "STACK") false body ∧
    (last = [] ∨ ∃ content, last = [.flat content] ∧ content ∉ leaving)

def ProcedureText (g : Graph) (p : Procedure) (lines : List Line) : Prop :=
  ∃ tree, g.tree? p.definition = some tree ∧ FunctionText (headerOf g p) tree lines

-- Functions of procedures, with helpers between them.
inductive Hoisted (g : Graph) : List Procedure → List (List Line) → Prop where
  | none : Hoisted g [] []
  | helper {ps functions} (before : Hoisted g ps functions) (name) : Hoisted g ps (functions ++ [meanLines name])
  | procedure {ps functions p lines} (before : Hoisted g ps functions) (text : ProcedureText g p lines) :
      Hoisted g (ps ++ [p]) (functions ++ [lines])

-- A name can be told from the first line of its function, and from its text.
def Headed (name : String) (lines : List Line) : Prop :=
  ∃ rest more, lines = .flat ("def " ++ name ++ "(" ++ rest) :: more

def definedIn (text : String) : String := String.ofList ((text.toList.drop 4).takeWhile isNameChar)

theorem Headed.definedIn {name : String} {lines : List Line} (headed : Headed name lines)
    (chars : name.toList.all isNameChar = true) (unit : String) : definedIn (linesText unit lines) = name := by
  obtain ⟨rest, more, rfl⟩ := headed
  have text : (linesText unit (.flat ("def " ++ name ++ "(" ++ rest) :: more)).toList.drop 4
      = name.toList ++ '(' :: (rest ++ "\n" ++ linesText unit more).toList := by
    simp [linesText, Line.text, Line.flat, indentTo]
  have scan : (name.toList ++ '(' :: (rest ++ "\n" ++ linesText unit more).toList).takeWhile isNameChar = name.toList :=
    (span_all (List.all_eq_true.mp chars) (by simp; decide)).1
  rw [Generation.definedIn, text, scan, String.ofList_toList]

theorem Headed.unique {a b : String} {lines : List Line} (first : Headed a lines) (second : Headed b lines)
    (chars : a.toList.all isNameChar = true) (chars' : b.toList.all isNameChar = true) : a = b :=
  (first.definedIn chars "").symm.trans (second.definedIn chars' "")

theorem meanLines_headed (name : String) : Headed name (meanLines name) := by
  have parts : "(myList):" = "(" ++ "myList):" := rfl
  exact ⟨"myList):", _, by rw [meanLines, parts, ← String.append_assoc]⟩

theorem ProcedureText.headed {p : Procedure} {lines : List Line} (text : ProcedureText g p lines) :
    Headed (calledAs g p) lines := by
  obtain ⟨⟨block, branches⟩, _, body, last, rfl, _⟩ := text
  exact ⟨_, _, by rw [headerOf, String.append_assoc]⟩

theorem ProcedureText.header {p : Procedure} {lines : List Line} (text : ProcedureText g p lines) :
    ∃ front more, lines = .flat (front ++ ":") :: more := by
  obtain ⟨⟨block, branches⟩, _, body, last, rfl, _⟩ := text
  have parts : "):" = ")" ++ ":" := rfl
  exact ⟨_, _, by rw [headerOf, parts, ← String.append_assoc]⟩

-- Names of procedures are taken from the start, and no two procedures share one.
theorem calledAs_chars (g : Graph) (p : Procedure) : (calledAs g p).toList.all isNameChar = true := by
  have proper : isIdentifier (calledAs g p) = true :=
    NameTable.lookup_getD_identifier (NameTable.build_legible g _).procedures p.id (by decide)
  exact (Word.of_identifier proper).chars

theorem called_some {p : Procedure} (listed : p ∈ g.procedures) :
    (NameTable.build g (reservedIn g)).procedureName? p.id = some (calledAs g p) := by
  obtain ⟨name, named⟩ := Option.isSome_iff_exists.mp (procedure_named (.refl _) listed)
  rw [calledAs, named]
  rfl

theorem calledAs_taken {p : Procedure} (listed : p ∈ g.procedures) :
    calledAs g p ∈ (NameTable.build g (reservedIn g)).taken :=
  Ledger.Apart.start.taken _ (.toProcedure p.id (called_some listed))

theorem build_names_nodup (wf : g.WellFormed) :
    (g.vars.map (fun v => (NameTable.build g (reservedIn g)).variableName? v.id)
      ++ g.procedures.map fun p => (NameTable.build g (reservedIn g)).procedureName? p.id).Nodup := by
  obtain ⟨ofVariables, ofProcedures, long, long', vars, procedures, run⟩ := NameTable.build_run g (reservedIn g) []
  have first := lookup_zip wf.variableNames.ids (long.trans (List.length_map _).symm)
  have second := lookup_zip wf.procedureNames.ids (long'.trans (List.length_map _).symm)
  rw [← vars, List.map_map] at first
  rw [← procedures, List.map_map] at second
  have once : (ofVariables ++ ofProcedures ++ _).Nodup := run ▸ issued_nodup
  have distinct := once.of_append_left.map (Option.some_injective String)
  rw [List.map_append, ← first, ← second] at distinct
  exact distinct

theorem calledAs_injective (wf : g.WellFormed) {p q : Procedure} (listed : p ∈ g.procedures)
    (listed' : q ∈ g.procedures) (same : calledAs g p = calledAs g q) : p = q := by
  refine List.inj_on_of_nodup_map (build_names_nodup wf).of_append_right listed listed' ?_
  exact (called_some listed).trans ((congrArg some same).trans (called_some listed').symm)

-- What has been recorded when some procedures have their functions.
inductive Registry (g : Graph) : List Procedure → List (Definition (List Line)) → Prop where
  | start : Registry g [] []
  | declared {d} (declares : Declares d) : Registry g [] [d]
  | helper {done definitions d} (before : Registry g done definitions)
      (helping : Helping (NameTable.build g (reservedIn g)).taken d) : Registry g done (definitions ++ [d])
  | procedure {done definitions p lines} (before : Registry g done definitions) (text : ProcedureText g p lines) :
      Registry g (done ++ [p]) (definitions ++ [⟨"%procedure%" ++ p.id.text, true, lines⟩])

namespace Registry

variable {done : List Procedure} {definitions : List (Definition (List Line))}

theorem helpers (registry : Registry g done definitions) {new : List (Definition (List Line))}
    (helping : ∀ d ∈ new, Helping (NameTable.build g (reservedIn g)).taken d) :
    Registry g done (definitions ++ new) := by
  induction new generalizing definitions with
  | nil => rwa [List.append_nil]
  | cons d rest ih =>
    obtain ⟨here, later⟩ := List.forall_mem_cons.mp helping
    rw [List.append_cons]
    exact ih (registry.helper here) later

theorem ofStart (g : Graph) : Registry g [] (PassState.start g (reservedIn g)).preamble.definitions := by
  obtain none | ⟨d, only, declares⟩ := start_definitions g (reservedIn g)
  · rw [none]
    exact .start
  · rw [only]
    exact .declared declares

theorem hoisted (registry : Registry g done definitions) :
    Hoisted g done ((definitions.filter (·.isFunction)).map (·.body)) := by
  induction registry with
  | start => exact .none
  | declared declares =>
    simp only [List.filter_singleton, declares.isFunction]
    exact .none
  | helper _ helping ih =>
    obtain ⟨name, rfl, _⟩ := helping
    rw [List.filter_append, List.map_append]
    exact ih.helper name
  | procedure _ text ih =>
    rw [List.filter_append, List.map_append]
    exact ih.procedure text

theorem member (registry : Registry g done definitions) {d : Definition (List Line)} (listed : d ∈ definitions) :
    Declares d ∨ Helping (NameTable.build g (reservedIn g)).taken d ∨
      ∃ p ∈ done, d.key = "%procedure%" ++ p.id.text ∧ ProcedureText g p d.body := by
  induction registry with
  | start => cases listed
  | declared declares => exact .inl (List.mem_singleton.mp listed ▸ declares)
  | helper _ helping ih =>
    rcases List.mem_append.mp listed with old | new
    · exact ih old
    · exact .inr (.inl (List.mem_singleton.mp new ▸ helping))
  | @procedure done _ p lines _ text ih =>
    rcases List.mem_append.mp listed with old | new
    · obtain declares | helping | ⟨q, among, found⟩ := ih old
      · exact .inl declares
      · exact .inr (.inl helping)
      · exact .inr (.inr ⟨q, List.mem_append_left _ among, found⟩)
    · obtain rfl := List.mem_singleton.mp new
      exact .inr (.inr ⟨p, List.mem_append_right _ (List.mem_singleton_self p), rfl, text⟩)

-- The function of one more procedure is recorded neither by its key nor by its text.
theorem fresh (registry : Registry g done definitions) (wf : g.WellFormed) (known : ∀ q ∈ done, q ∈ g.procedures)
    {p : Procedure} (listed : p ∈ g.procedures) (new : p ∉ done) {lines : List Line}
    (text : ProcedureText g p lines) {d : Definition (List Line)} (recorded : d ∈ definitions) :
    d.key ≠ "%procedure%" ++ p.id.text ∧ d.body ≠ lines := by
  rcases registry.member recorded with declares | ⟨name, rfl, free, chars⟩ | ⟨q, among, key, written⟩
  · obtain ⟨front, more, rfl⟩ := text.header
    exact ⟨declares.key_ne rfl _, declares.ne_function front more⟩
  · refine ⟨helper_ne_procedure _ p.id.text, fun same => free ?_⟩
    have headed : Headed name lines := same ▸ meanLines_headed name
    rw [headed.unique text.headed chars (calledAs_chars g p)]
    exact calledAs_taken listed
  · have apart : q ≠ p := fun same => new (same ▸ among)
    refine ⟨fun same => apart ?_, fun same => apart ?_⟩
    · rw [key, String.append_right_inj] at same
      exact wf.procedureNames.unique (known q among) listed (ProcedureId.text_injective same)
    · have headed : Headed (calledAs g q) lines := same ▸ written.headed
      exact calledAs_injective wf (known q among) listed
        (headed.unique text.headed (calledAs_chars g q) (calledAs_chars g p))

end Registry

-- Definitions by themselves.
theorem functionLines_written (wf : g.WellFormed) {block : Block} {branches : List (Place × Tree)}
    (full : g.Full (.node block branches)) (p : Procedure) :
    Ensures g (functionLines p block (renderBranches branches))
      (FunctionText (headerOf g p) (.node block branches)) := by
  have below : ∀ p ∈ branches, g.Full p.2 := by
    cases full with
    | node _ _ below => exact below
  have writes := writes_of_full wf full fun p branch plain => tree_written wf (below p branch) plain
  have furnishes := furnishes_of_full wf full fun p branch => chain_ensures wf (below p branch)
  have result : Ensures g (returnValue block (renderBranches branches)) fun found => ∀ e ∈ found, e.Legible := by
    unfold returnValue
    split
    · exact furnishes.value "RETURN"
    · exact .pure (by simp)
  refine get_ensures.bind fun s visits => (writes (.body "STACK") false).bind fun body told => ?_
  have header : headerOf g p = "def " ++ (s.names.procedureName? p.id).getD "unnamed" ++ "("
      ++ String.intercalate ", " (p.params.map fun param => (s.names.variableName? param).getD noTarget) ++ "):" := by
    rw [headerOf, calledAs, visits.keeps.procedureName?]
    simp only [visits.keeps.variableName?]
  rw [header]
  refine result.bind fun found legible => .pure ⟨body.lines, _, rfl, told, ?_⟩
  cases found with
  | some e => exact .inr ⟨_, rfl, not_leaving_of_mem (c := ' ') (by simp) (by decide)⟩
  | none =>
    dsimp only
    split
    · exact .inl rfl
    · exact .inr ⟨_, rfl, by decide⟩

theorem Visits.taken {s : PassState} (visits : Visits g s) :
    (NameTable.build g (reservedIn g)).taken ⊆ s.names.taken := by
  induction visits with
  | start => exact fun _ listed => listed
  | addImport _ _ ih | addFunction _ _ _ _ ih | remember _ _ _ ih => exact ih
  | claim _ base ih => exact fun _ listed => List.mem_cons_of_mem _ (ih listed)

theorem addDefinition_new {preamble : Preamble (List Line)} {new : Definition (List Line)}
    (fresh : ∀ d ∈ preamble.definitions, d.key ≠ new.key ∧ d.body ≠ new.body) :
    (preamble.addDefinition new).definitions = preamble.definitions ++ [new] := by
  have absent : preamble.records new.key new.body = false := by
    rw [Preamble.records, List.any_eq_false]
    intro d listed
    simp [fresh d listed]
  rw [Preamble.addDefinition, absent]
  rfl

theorem define_registers (wf : g.WellFormed) {done : List Procedure} (known : ∀ q ∈ done, q ∈ g.procedures)
    {p : Procedure} (listed : p ∈ g.procedures) (new : p ∉ done) {block : Block}
    (found : g.block? p.definition = some block) {s : PassState} (visits : Visits g s)
    (registry : Registry g done s.preamble.definitions) :
    Registry g (done ++ [p]) ((define g block).run s).2.preamble.definitions := by
  obtain ⟨_, found', planted, own, _, named⟩ := definition_planted wf listed
  cases found.symm.trans found'
  have known' : g.block? block.id = some block := (wf.built _ block found).1.symm ▸ found
  have full := wf.linked.tree_full wf.built known'
  have bound : (block.procedureIn? "NAME").bind g.procedureWith? = some p := by
    rw [Block.procedureIn?_eq_some.mpr named, Option.bind_some]
    exact wf.procedureWith?_listed listed
  rw [define_eq, defineWith_bound bound]
  generalize g.tree block = tree at own planted full
  obtain ⟨top, branches⟩ := tree
  obtain rfl : top = block := own
  have text : ProcedureText g p ((functionLines p top (renderBranches branches)).run s).1 :=
    ⟨_, planted, (functionLines_written wf full p s visits).2⟩
  obtain ⟨new', grown, helping⟩ := ((functionAsking p top).steady (renderBranches_steady branches) s).functions
  have before := registry.helpers fun d member => (helping d member).fewer visits.taken
  rw [← grown] at before
  have after := before.procedure text
  rwa [← addDefinition_new fun d recorded => before.fresh wf known listed new text recorded] at after

theorem defineAll_registers (wf : g.WellFormed) {done procedures : List Procedure}
    (known : ∀ p ∈ done ++ procedures, p ∈ g.procedures) (once : (done ++ procedures).Nodup) {s : PassState}
    (visits : Visits g s) (registry : Registry g done s.preamble.definitions) :
    Registry g (done ++ procedures) ((defineAll g procedures).run s).2.preamble.definitions := by
  induction procedures generalizing done s with
  | nil =>
    rw [List.append_nil]
    exact registry
  | cons p rest ih =>
    have listed : p ∈ g.procedures := known p (List.mem_append_right _ List.mem_cons_self)
    have earlier : ∀ q ∈ done, q ∈ g.procedures := fun q member => known q (List.mem_append_left _ member)
    have new : p ∉ done := fun member => List.disjoint_of_nodup_append once member List.mem_cons_self
    obtain ⟨block, found, _⟩ := definition_planted wf listed
    have same := (wf.built _ block found).1
    have step := define_ensures wf (same.symm ▸ found) s visits
    rw [defineAll, found]
    rw [List.append_cons] at known once ⊢
    exact ih known once step.1 (define_registers wf earlier listed new found visits registry)

-- No function is recorded twice.
theorem Visits.bodies_nodup {s : PassState} (visits : Visits g s) : (s.preamble.definitions.map (·.body)).Nodup := by
  induction visits with
  | start =>
    obtain none | ⟨d, only, _⟩ := start_definitions g (reservedIn g)
    · simp [none]
    · simp [only]
  | addImport _ _ ih => rwa [definitions_addImport]
  | claim _ _ ih | remember _ _ _ ih => exact ih
  | @addFunction s lines _ key _ _ ih =>
    unfold Preamble.addDefinition
    split
    · exact ih
    · next absent =>
      rw [List.map_append]
      refine List.nodup_append.mpr ⟨ih, List.nodup_singleton _, ?_⟩
      intro body listed other single same
      obtain ⟨d, member, rfl⟩ := List.mem_map.mp listed
      refine absent (List.any_eq_true.mpr ⟨d, member, ?_⟩)
      simp [same.trans (List.mem_singleton.mp single)]

theorem mainChains_steady (trees : List Tree) : Steady (mainChains trees) := by
  induction trees with
  | nil => exact .pure _
  | cons tree rest ih =>
    rw [mainChains]
    split
    · exact ih
    · exact ((renderTree_steady tree).chain false).bind fun _ => ih.bind fun _ => .pure _

-- The state at the end of a pass.
def passEnd (g : Graph) : PassState := ((programPass g).run (.start g (reservedIn g))).2

theorem program_registers (wf : g.WellFormed) :
    Visits g (passEnd g) ∧ Registry g g.procedures (passEnd g).preamble.definitions := by
  have full : ∀ tree ∈ g.forest, g.Full tree := fun tree member => wf.linked.forest_full wf.built member
  obtain ⟨visits, _⟩ := mainChains_ensures wf full _ .start
  have registry : Registry g []
      ((mainChains g.forest).run (.start g (reservedIn g))).2.preamble.definitions := by
    obtain ⟨new, grown, helping⟩ := (mainChains_steady g.forest _).functions
    rw [grown]
    exact (Registry.ofStart g).helpers helping
  refine ⟨(defineAll_ensures wf g.procedures _ visits).1, ?_⟩
  exact defineAll_registers wf (fun _ listed => listed) (.of_map _ wf.procedureNames.ids) visits registry

theorem program_hoisted (wf : g.WellFormed) :
    Hoisted g g.procedures (program g).functions ∧ (program g).functions.Nodup := by
  obtain ⟨visits, registry⟩ := program_registers wf
  exact ⟨registry.hoisted, visits.bodies_nodup.sublist (List.filter_sublist.map _)⟩

-- A text that is nested as the graph is: a chain for each root with lines, in the order of the roots,
-- and a function for each procedure.
structure Program.Nested (g : Graph) (program : Program) : Prop where
  chains : ∃ texts, List.Forall₂ (fun tree lines => TreeText tree false lines) (mainTrees g) texts ∧
    program.chains = texts.filter (!·.isEmpty)
  functions : Hoisted g g.procedures program.functions
  distinct : program.functions.Nodup

theorem program_nested (wf : g.WellFormed) : (program g).Nested g :=
  ⟨program_chains wf, (program_hoisted wf).1, (program_hoisted wf).2⟩

end Blockwork.Generation
