import Mathlib
import Blockwork.Proofs.ExactRendering

-- What stands before the main text of a program is what the program needs. Every procedure has its
-- function, the helper function is there for those who call it, and an import for those who use it.
namespace Blockwork

open Python

namespace Generation

variable {g : Graph}

-- Names that are made up in a pass begin with their base.
section
variable {ledger : Ledger}

theorem numbered_begins (taken : List String) (base : String) (tries n : Nat) :
    base.toList <+: (numbered taken base tries n).toList := by
  induction tries generalizing n with
  | zero => simp [numbered]
  | succ tries ih =>
    unfold numbered
    split
    · exact ih (n + 1)
    · simp

theorem claim_begins (table : NameTable) {base : String} (legal : legalize base = base) :
    base.toList <+: (table.claim base).1.toList := by
  unfold NameTable.claim NameTable.take distinct
  rw [legal]
  dsimp only
  split
  · exact numbered_begins _ _ _ _
  · exact List.prefix_refl _

theorem Grants.counters_begin (grants : Grants g ledger) :
    ∀ name ∈ ledger.counters, "count".toList <+: name.toList := by
  induction grants with
  | start => simp
  | count _ ih => exact List.forall_mem_cons.mpr ⟨claim_begins _ (by decide), ih⟩
  | help _ _ ih => exact ih

theorem Grants.taken (grants : Grants g ledger) :
    (NameTable.build g (reservedIn g)).taken ⊆ ledger.names.taken := by
  induction grants with
  | start => exact fun _ listed => listed
  | count _ ih | help _ _ ih => exact fun _ listed => List.mem_cons_of_mem _ (ih listed)

-- The helper function is not called like anything that had its name from the start.
theorem Grants.helper (grants : Grants g ledger) {key name : String}
    (named : ledger.names.helperName? key = some name) :
    "math_mean".toList <+: name.toList ∧ name ∉ (NameTable.build g (reservedIn g)).taken := by
  induction grants with
  | start =>
    rw [NameTable.build_eq] at named
    cases named
  | count _ ih => exact ih named
  | help before _ ih =>
    simp only [NameTable.helperName?, Ledger.help, NameTable.remember, List.lookup_cons] at named
    split at named
    · cases named
      exact ⟨claim_begins _ (by decide), fun listed => distinct_free _ _ (before.taken listed)⟩
    · exact ih named

end

-- A name that a variable or a procedure has is theirs, also where an import would give it.
def Owned (names : NameTable) (name : String) : Prop :=
  (∃ v, names.variableName? v = some name) ∨ ∃ p, names.procedureName? p = some name

section
variable {books : Books} {name line : String}

structure Books.Made (books : Books) : Prop where
  counters : ∀ name ∈ books.counters, "count".toList <+: name.toList
  helpers : ∀ key name, books.names.helperName? key = some name → "math_mean".toList <+: name.toList

theorem Grants.made (grants : Grants g books.toLedger) : books.Made :=
  ⟨grants.counters_begin, fun _ _ named => (grants.helper named).1⟩

theorem Known.backed (known : Known g books name) (made : books.Made) (module : modules.lookup name = some line) :
    Owned books.names name ∨ line ∈ books.imports := by
  have listed := mem_of_module module
  have apart : ∀ p ∈ modules, p.1 ∉ keywords ∧ p.1 ≠ noTarget ∧ ¬"count".toList <+: p.1.toList ∧
      ¬"math_mean".toList <+: p.1.toList := by decide
  obtain ⟨keyword, target, counter, helper⟩ := apart _ listed
  rcases known with member | given | same | ⟨_, backs⟩
  · exact absurd member keyword
  · cases given with
    | toVariable v given => exact .inl (.inl ⟨v, given⟩)
    | toProcedure p given => exact .inl (.inr ⟨p, given⟩)
    | toCounter given => exact absurd (made.counters _ given) counter
    | toHelper key given => exact absurd (made.helpers _ _ given) helper
  · exact absurd same target
  · exact .inr (backs line module)

-- Lines that use a module have its import.
theorem Group.backed {lines : List Line} (group : Group g books lines) (made : books.Made)
    (module : modules.lookup name = some line) {used : Line} (listed : used ∈ lines)
    (uses : Uses name used.content) : Owned books.names name ∨ line ∈ books.imports := by
  have own : ∀ p ∈ modules, p.1 ∉ meanLocals := by decide
  cases group with
  | plain each => exact (uses.known (each used listed).lexed).backed made module
  | numbers _ imported =>
    obtain rfl := List.mem_singleton.mp listed
    have words : name ∈ ["from", "numbers", "import", "Number"] :=
      uses.known (Reads.of_fixed (fun _ listed => listed) (by decide)).row
    have only : ∀ p ∈ modules, p.1 ∈ ["from", "numbers", "import", "Number"] → p.2 = "from numbers import Number" := by
      decide
    obtain rfl : line = _ := only _ (mem_of_module module) words
    exact .inr imported
  | mean named proper reserved imported =>
    rcases uses.known (meanLines_read named proper reserved imported used listed).row with known | inner
    · exact known.backed made module
    · exact absurd inner (own _ (mem_of_module module))

end

-- What a block puts into the text, with all that is below it.
def Code.texts : Code → List String
  | .expression e => [e.render]
  | .statement lines => lines.map (·.content)
  | .nothing => []

-- The text uses the name by itself, or the helper function does that it calls.
def Code.Mentions (names : NameTable) (name : String) (code : Code) : Prop :=
  ∃ text ∈ code.texts, Uses name text ∨ ∃ mean, names.helperName? "math_mean" = some mean ∧ Uses mean text ∧
    ∃ line ∈ meanLines mean, Uses name line.content

section
variable {t : PassState} {r : Rendered} {name line : String}

theorem Rendered.Stems.found (stems : r.Stems g t) {block : Block} (known : g.block? r.id = some block) :
    ∃ branches inLoop s counters, g.Full (.node block branches) ∧ Accountable g s counters ∧
      r.code = ((rule block (renderBranches branches) inLoop).run s).1 ∧
      Since ((rule block (renderBranches branches) inLoop).run s).2 t := by
  obtain @⟨block', branches, inLoop, s, counters, full, own, accountable, code, since⟩ := stems
  rw [← own, show g.block? block'.id = some block' from full.found] at known
  cases known
  exact ⟨branches, inLoop, s, counters, full, accountable, code, since⟩

-- The rule accounts for its words by what the pass knows when it ends. Loop counters are those that
-- were there when the block was rendered.
theorem Rendered.Stems.explained (wf : g.WellFormed) (stems : r.Stems g t) :
    ∃ counters, (∀ name ∈ counters, "count".toList <+: name.toList) ∧ ∀ text ∈ r.code.texts,
      ∃ found, rowLexemes? text = some found ∧ Explained (Known g (t.books counters)) false found := by
  obtain @⟨block, branches, inLoop, s, counters, full, own, accountable, code, since⟩ := stems
  have attests := full_attests wf full
  obtain ⟨more, final, _, plain⟩ := rule_accounts attests inLoop s counters accountable fun _ _ => trivial
  have plain := plain (t.books more) ⟨since.names, fun _ listed => listed, since.imports⟩
  have fine := (code_ensures wf full attests.furnishes inLoop s accountable.visits).2
  refine ⟨more, final.grants.counters_begin, ?_⟩
  rw [code]
  generalize ((rule block (renderBranches branches) inLoop).run s).1 = written at plain fine
  cases written with
  | expression e => exact List.forall_mem_singleton.mpr (reads_expression plain fine).row
  | statement lines => exact List.forall_mem_map.mpr fun line listed => (plain line listed).lexed
  | nothing => simp [Code.texts]

theorem numbers_checked : Uses "Number" "localList = [e for e in myList if isinstance(e, Number)]" :=
  ⟨[.word "localList", .mark '=', .mark '[', .word "e", .word "for", .word "e", .word "in", .word "myList",
    .word "if", .word "isinstance", .mark '(', .word "e", .mark ','], [.mark ')', .mark ']'], by decide, by decide⟩

-- What a block wants to be imported, its text uses.
theorem Rendered.Stems.mentions (wf : g.WellFormed) (stems : r.Stems g t) (wanted : r.Wants g line)
    (module : modules.lookup name = some line) : r.code.Mentions t.names name := by
  obtain ⟨block, found, wanted⟩ := wanted
  obtain ⟨branches, inLoop, s, _, full, accountable, code, since⟩ := stems.found found
  obtain ⟨visits, fine⟩ := code_ensures wf full (full_attests wf full).furnishes inLoop s accountable.visits
  obtain ⟨e, written, shows⟩ := rule_shows (renderBranches branches) inLoop module wanted s
  rw [written] at fine code
  refine ⟨e.render, code ▸ List.mem_singleton_self _, ?_⟩
  rcases shows with begins | uses | ⟨rfl, mean, named, begins⟩
  · have words : ∀ p ∈ modules, isIdentifier p.1 = true := by decide
    exact .inl (begins.uses (.of_identifier (words _ (mem_of_module module))) fine)
  · exact .inl uses
  · have proper := NameTable.lookup_identifier visits.names.helpers named
    refine .inr ⟨mean, since.names.helpers _ _ named, begins.uses (.of_identifier proper) fine, ?_⟩
    exact ⟨_, List.mem_cons_of_mem _ List.mem_cons_self, numbers_checked⟩

end

-- What is imported at the end.
section
variable {name line : String}

theorem passEnd_accountable (wf : g.WellFormed) : ∃ counters, Accountable g (passEnd g) counters :=
  (watch_traced wf).accountable

-- The name is nobody else's, and some block that was rendered uses it.
def Needed (g : Graph) (name : String) : Prop :=
  ¬Owned (passNames g) name ∧ ∃ r ∈ (watch g).2.log, r.code.Mentions (passNames g) name

theorem wanted_of_imported (wf : g.WellFormed) (imported : line ∈ (program g).imports) :
    ∃ r ∈ (watch g).2.log, r.Wants g line := by
  rcases (watch_traced wf).imports line imported with before | listed | wanted
  · rw [Watch.start, start_imports] at before
    cases before
  · cases listed
  · exact wanted

theorem imported_of_needed (wf : g.WellFormed) (module : modules.lookup name = some line) (needed : Needed g name) :
    line ∈ (program g).imports := by
  obtain ⟨free, r, listed, text, among, uses⟩ := needed
  obtain ⟨last, final⟩ := passEnd_accountable wf
  have made : ((passEnd g).books last).Made := final.grants.made
  obtain ⟨counters, counted, explained⟩ := ((watch_traced wf).stems r listed).explained wf
  rcases uses with uses | ⟨mean, named, _, used, inside, uses⟩
  · exact ((uses.known (explained text among)).backed ⟨counted, made.helpers⟩ module).resolve_left free
  · have group := final.functions _ (final.helped.named mean named).1 _ (.refl _)
    exact (group.backed made module inside uses).resolve_left free

theorem needed_of_imported (wf : g.WellFormed) (module : modules.lookup name = some line)
    (imported : line ∈ (program g).imports) : Needed g name := by
  obtain ⟨r, listed, wanted⟩ := wanted_of_imported wf imported
  refine ⟨fun owned => ?_, r, listed, ((watch_traced wf).stems r listed).mentions wf wanted module⟩
  obtain ⟨block, found, wanted⟩ := wanted
  obtain ⟨counters, final⟩ := passEnd_accountable wf
  have given : Ledger.Gives ⟨passNames g, counters⟩ name := by
    rcases owned with ⟨v, given⟩ | ⟨p, given⟩
    · exact .toVariable v given
    · exact .toProcedure p given
  refine final.grants.apart.given name given (List.mem_append_right _ ?_)
  exact reserved_iff.mpr ⟨block, Dict.mem_values.mpr ⟨_, found⟩, wants_reserved module wanted⟩

theorem Visits.imports_nodup {s : PassState} (visits : Visits g s) : s.preamble.imports.Nodup := by
  induction visits with
  | start => simp
  | @addImport s line _ _ ih =>
    unfold Preamble.addImport
    split
    · exact ih
    · next absent =>
      rw [List.contains_iff_mem] at absent
      have longer := ih.concat absent
      rwa [List.concat_eq_append] at longer
  | claim _ _ ih | remember _ _ _ ih => exact ih
  | addFunction _ _ _ _ ih =>
    unfold Preamble.addDefinition
    split <;> exact ih

theorem import_count (wf : g.WellFormed) (module : modules.lookup name = some line) :
    (Needed g name → (program g).imports.count line = 1) ∧ (¬Needed g name → (program g).imports.count line = 0) := by
  have once : (program g).imports.Nodup := (program_registers wf).1.imports_nodup
  refine ⟨fun needed => ?_, fun other => ?_⟩
  · exact List.count_eq_one_of_mem once (imported_of_needed wf module needed)
  · exact List.count_eq_zero_of_not_mem fun imported => other (needed_of_imported wf module imported)

end

-- The helper function.
def Rendered.Averages (g : Graph) (r : Rendered) : Prop :=
  ∃ block, g.block? r.id = some block ∧ block.kind = .aggregate ∧ block.choiceIn? "OP" = some "AVERAGE"

theorem helper_iff (wf : g.WellFormed) : (∃ mean, (passNames g).helperName? "math_mean" = some mean) ↔
    ∃ r ∈ (watch g).2.log, r.Averages g := by
  constructor
  · rintro ⟨mean, named⟩
    obtain ⟨_, final⟩ := passEnd_accountable wf
    obtain ⟨r, listed, block, found, wanted⟩ := wanted_of_imported wf (final.helped.named mean named).2
    exact ⟨r, listed, block, found, wants_numbers_iff.mp wanted⟩
  · rintro ⟨r, listed, block, found, kind, chosen⟩
    obtain ⟨branches, inLoop, s, _, _, _, _, since⟩ := ((watch_traced wf).stems r listed).found found
    obtain ⟨mean, named⟩ := averageRule_leaves (renderBranches branches) inLoop kind chosen s
    exact ⟨mean, since.names.helpers _ _ named⟩

-- The functions: those of the procedures, and the helper function somewhere between them.
section
variable {helper : Option String} {done : List Procedure} {definitions : List (Definition (List Line))}

theorem Registry.parts (registry : Registry g done definitions)
    (keyed : ∀ d ∈ definitions, d.key = "%helper%" ++ "math_mean" →
      ∃ name, helper = some name ∧ d.body = meanLines name)
    (once : (definitions.map (·.body)).Nodup) : ∃ before middle after,
      List.Forall₂ (ProcedureText g) done (before ++ after) ∧
      (definitions.filter (·.isFunction)).map (·.body) = before ++ middle ++ after ∧
      (middle = [] ∨ ∃ name, helper = some name ∧ middle = [meanLines name]) := by
  induction registry with
  | start => exact ⟨[], [], [], .nil, rfl, .inl rfl⟩
  | declared declares => exact ⟨[], [], [], .nil, by simp [declares.isFunction], .inl rfl⟩
  | @helper done definitions d _ helping ih =>
    rw [List.forall_mem_append, List.forall_mem_singleton] at keyed
    rw [List.map_append, List.nodup_append] at once
    obtain ⟨before, middle, after, texts, split, between⟩ := ih keyed.1 once.1
    obtain ⟨_, rfl, _⟩ := helping
    obtain ⟨name, known, same⟩ := keyed.2 rfl
    rcases between with rfl | ⟨other, known', rfl⟩
    · refine ⟨before ++ after, [meanLines name], [], by simpa using texts, ?_, .inr ⟨name, known, rfl⟩⟩
      simp_all
    · cases known.symm.trans known'
      have recorded : meanLines name ∈ (definitions.filter (·.isFunction)).map (·.body) := by simp [split]
      obtain ⟨d, member, body⟩ := List.mem_map.mp recorded
      refine absurd (body.trans same.symm) (once.2.2 _ ?_ _ ?_)
      · exact List.mem_map.mpr ⟨d, (List.mem_filter.mp member).1, rfl⟩
      · simp
  | @procedure done definitions p lines _ text ih =>
    rw [List.forall_mem_append] at keyed
    rw [List.map_append, List.nodup_append] at once
    obtain ⟨before, middle, after, texts, split, between⟩ := ih keyed.1 once.1
    refine ⟨before, middle, after ++ [lines], ?_, by simp [split], between⟩
    rw [← List.append_assoc]
    exact List.rel_append texts (.cons text .nil)

end

theorem texts_define (unit : String) {ps : List Procedure} {texts : List (List Line)}
    (each : List.Forall₂ (ProcedureText g) ps texts) :
    texts.map (fun lines => definedIn (linesText unit lines)) = ps.map (calledAs g) := by
  induction each with
  | nil => rfl
  | cons text _ ih => rw [List.map_cons, List.map_cons, text.headed.definedIn (calledAs_chars g _) unit, ih]

theorem helper_defines {s : PassState} (visits : Visits g s) {key name : String}
    (named : s.names.helperName? key = some name) (unit : String) :
    definedIn (linesText unit (meanLines name)) = name := by
  have proper := NameTable.lookup_identifier visits.names.helpers named
  exact (meanLines_headed name).definedIn (Word.of_identifier proper).chars unit

theorem helper_apart (wf : g.WellFormed) {key name : String} (named : (passNames g).helperName? key = some name) :
    name ∉ g.procedures.map (calledAs g) := by
  intro listed
  obtain ⟨p, member, rfl⟩ := List.mem_map.mp listed
  obtain ⟨_, final⟩ := passEnd_accountable wf
  exact (final.grants.helper named).2 (calledAs_taken member)

theorem program_parts (wf : g.WellFormed) : ∃ before after,
    List.Forall₂ (ProcedureText g) g.procedures (before ++ after) ∧
    (program g).functions = before ++ ((passNames g).helperName? "math_mean").toList.map meanLines ++ after := by
  obtain ⟨visits, registry⟩ := program_registers wf
  obtain ⟨_, final⟩ := passEnd_accountable wf
  obtain ⟨before, middle, after, texts, split, between⟩ := registry.parts final.helped.keyed visits.bodies_nodup
  have split : (program g).functions = before ++ middle ++ after := split
  refine ⟨before, after, texts, ?_⟩
  rw [split]
  rcases between with rfl | ⟨name, named, rfl⟩
  · cases named : (passNames g).helperName? "math_mean" with
    | none => rfl
    | some name =>
      -- The function of a procedure would have the name of the helper function.
      have listed : meanLines name ∈ (program g).functions := (final.helped.named name named).1
      refine absurd ?_ (helper_apart wf named)
      rw [← texts_define "" texts, ← helper_defines visits named ""]
      exact List.mem_map.mpr ⟨_, by simpa [split] using listed, rfl⟩
  · rw [show (passNames g).helperName? "math_mean" = some name from named]
    rfl

def Program.definedNames (program : Program) (unit : String) : List String :=
  program.functions.map fun lines => definedIn (linesText unit lines)

theorem definedNames_perm (wf : g.WellFormed) (unit : String) : ((program g).definedNames unit).Perm
    (((passNames g).helperName? "math_mean").toList ++ g.procedures.map (calledAs g)) := by
  obtain ⟨before, after, texts, split⟩ := program_parts wf
  obtain ⟨visits, _⟩ := program_registers wf
  have helper : (((passNames g).helperName? "math_mean").toList.map meanLines).map
      (fun lines => definedIn (linesText unit lines)) = ((passNames g).helperName? "math_mean").toList := by
    cases named : (passNames g).helperName? "math_mean" with
    | none => rfl
    | some name => exact congrArg (· :: []) (helper_defines visits named unit)
  rw [Program.definedNames, split, List.map_append, List.map_append, helper, ← texts_define unit texts,
    List.map_append, ← List.append_assoc]
  exact List.perm_append_comm.append_right _

theorem definedNames_nodup (wf : g.WellFormed) (unit : String) : ((program g).definedNames unit).Nodup := by
  rw [(definedNames_perm wf unit).nodup_iff, List.nodup_append]
  refine ⟨?_, ?_, ?_⟩
  · cases (passNames g).helperName? "math_mean" <;> simp
  · refine List.Nodup.map_on ?_ (.of_map _ wf.procedureNames.ids)
    exact fun p listed q listed' same => calledAs_injective wf listed listed' same
  · rintro name helper _ listed rfl
    exact helper_apart wf (Option.mem_toList.mp helper) listed

theorem definedNames_count (wf : g.WellFormed) (unit : String) {name : String}
    (listed : name ∈ ((passNames g).helperName? "math_mean").toList ++ g.procedures.map (calledAs g)) :
    ((program g).definedNames unit).count name = 1 :=
  List.count_eq_one_of_mem (definedNames_nodup wf unit) ((definedNames_perm wf unit).mem_iff.mpr listed)

theorem params_distinct (wf : g.WellFormed) {p : Procedure} (listed : p ∈ g.procedures) :
    ∃ params, p.params.map (passNames g).variableName? = params.map some ∧ params.Nodup ∧
      headerOf g p = "def " ++ calledAs g p ++ "(" ++ String.intercalate ", " params ++ "):" := by
  obtain ⟨visits, _⟩ := program_registers wf
  have sound := wf.bound.procedures p listed
  have kept : (passNames g).variableName? = (NameTable.build g (reservedIn g)).variableName? :=
    funext visits.keeps.variableName?
  have named : p.params.map (passNames g).variableName? = (p.params.map fun v =>
      ((NameTable.build g (reservedIn g)).variableName? v).getD noTarget).map some := by
    rw [kept, List.map_map]
    refine List.map_congr_left fun v member => ?_
    obtain ⟨name, found⟩ := Option.isSome_iff_exists.mp (variable_named (.refl _) (sound.known v member))
    simp [found]
  refine ⟨_, named, ?_, rfl⟩
  refine .of_map some ?_
  rw [← named, kept]
  refine List.Nodup.map_on ?_ sound.distinct
  intro v member w member' same
  obtain ⟨x, own, rfl⟩ := sound.known v member
  obtain ⟨y, own', rfl⟩ := sound.known w member'
  rw [List.inj_on_of_nodup_map (build_names_nodup wf).of_append_left own own' same]

-- The parts of a text one after another.
def Program.mainText (program : Program) (options : Options) : String :=
  let main := String.intercalate "\n" (program.chains.map (linesText options.indent))
  if Text.allBlank main then (if program.imports.isEmpty && program.functions.isEmpty then "pass\n" else "")
  else endLine main

theorem Program.text_ordered (program : Program) (options : Options) : ∃ gap ∈ ["", "\n"], ∃ gap' ∈ ["", "\n"],
    program.text options = String.join (program.imports.map (· ++ "\n")) ++ gap
      ++ String.intercalate "\n" (program.functions.map fun lines => endLine (linesText options.indent lines)) ++ gap'
      ++ program.mainText options := by
  obtain ⟨imports, functions, chains⟩ := program
  have top : imports.isEmpty = true → String.join (imports.map (· ++ "\n")) = "" := by
    cases imports <;> simp
  have middle : functions.isEmpty = true →
      String.intercalate "\n" (functions.map fun lines => endLine (linesText options.indent lines)) = "" := by
    cases functions <;> simp
  simp only [Program.text, assemble, mainText, List.map_map, Function.comp_def, List.isEmpty_map]
  generalize Text.allBlank _ = blank
  generalize imports.isEmpty = bare at top
  generalize functions.isEmpty = plain at middle
  refine ⟨if bare || plain then "" else "\n", by split <;> simp,
    if blank || bare && plain then "" else "\n", by split <;> simp, ?_⟩
  cases bare <;> cases plain <;> cases blank <;>
    simp_all [String.intercalate_cons_cons, String.intercalate_singleton, String.append_assoc]

-- No line uses a module that is not imported.
theorem program_backed (wf : g.WellFormed) {name line : String} (module : modules.lookup name = some line)
    {lines : List Line} (among : lines ∈ (program g).functions ++ (program g).chains) {used : Line}
    (listed : used ∈ lines) (uses : Uses name used.content) :
    Owned (passNames g) name ∨ line ∈ (program g).imports := by
  obtain ⟨books, grants, same, imports, each⟩ := program_groups wf
  rw [← same, ← imports]
  refine (each lines ?_).backed grants.made module listed uses
  rw [Program.groups, List.append_assoc]
  exact List.mem_append_right _ among

end Generation

open Generation

-- A program that has all it needs before its main text, and has it once. The functions of the
-- procedures stand in the order of the table, each under a name of its own, with the helper function
-- between them if a block takes an average. A module is imported if its name is used, by the text of
-- a block that was rendered or by the function that it calls.
structure Graph.FullyHoisted (g : Graph) : Prop where
  watched : program g = ⟨(watch g).2.pass.preamble.imports, (watch g).2.pass.preamble.functions, (watch g).1⟩
  headers : ∀ p ∈ g.procedures, (passNames g).procedureName? p.id = some (calledAs g p) ∧
    ∃ params, p.params.map (passNames g).variableName? = params.map some ∧ params.Nodup ∧
      headerOf g p = "def " ++ calledAs g p ++ "(" ++ String.intercalate ", " params ++ "):"
  functions : ∃ before after, List.Forall₂ (ProcedureText g) g.procedures (before ++ after) ∧
    (program g).functions = before ++ ((passNames g).helperName? "math_mean").toList.map meanLines ++ after
  defined : ∀ unit, ∀ p ∈ g.procedures, ((program g).definedNames unit).count (calledAs g p) = 1
  distinct : ∀ unit, ((program g).functions.map (linesText unit)).Nodup
  averaged : (∃ r ∈ (watch g).2.log, r.Averages g) → ∃ mean, (passNames g).helperName? "math_mean" = some mean ∧
    ∀ unit, ((program g).definedNames unit).count mean = 1
  unaveraged : (¬∃ r ∈ (watch g).2.log, r.Averages g) → (passNames g).helperName? "math_mean" = none
  needed : ∀ name line, modules.lookup name = some line → Needed g name → (program g).imports.count line = 1
  unneeded : ∀ name line, modules.lookup name = some line → ¬Needed g name → (program g).imports.count line = 0
  imports : ∀ line ∈ (program g).imports, ∃ name, modules.lookup name = some line
  backed : ∀ name line, modules.lookup name = some line → ∀ lines ∈ (program g).functions ++ (program g).chains,
    ∀ used ∈ lines, Uses name used.content → Owned (passNames g) name ∨ line ∈ (program g).imports
  ordered : ∀ options : Options, ∃ gap ∈ ["", "\n"], ∃ gap' ∈ ["", "\n"],
    compile g options = String.join ((program g).imports.map (· ++ "\n")) ++ gap
      ++ String.intercalate "\n" ((program g).functions.map fun lines => endLine (linesText options.indent lines))
      ++ gap' ++ (program g).mainText options

theorem Graph.WellFormed.fullyHoisted {g : Graph} (wf : g.WellFormed) : g.FullyHoisted where
  watched := (watch_program wf).1
  headers p listed := by
    refine ⟨?_, params_distinct wf listed⟩
    rw [← called_some listed]
    exact (program_registers wf).1.keeps.procedureName? p.id
  functions := program_parts wf
  defined unit p listed := definedNames_count wf unit (List.mem_append_right _ (List.mem_map_of_mem listed))
  distinct unit := by
    refine .of_map definedIn ?_
    rw [List.map_map]
    exact definedNames_nodup wf unit
  averaged averages := by
    obtain ⟨mean, named⟩ := (helper_iff wf).mpr averages
    refine ⟨mean, named, fun unit => definedNames_count wf unit (List.mem_append_left _ ?_)⟩
    rw [named]
    exact List.mem_singleton_self mean
  unaveraged none := by
    rw [Option.eq_none_iff_forall_ne_some]
    exact fun mean named => none ((helper_iff wf).mp ⟨mean, named⟩)
  needed _ _ module := (import_count wf module).1
  unneeded _ _ module := (import_count wf module).2
  imports line listed := by
    have each : ∀ line ∈ importLines, ∃ p ∈ modules, modules.lookup p.1 = some line := by decide
    obtain ⟨p, _, module⟩ := each line ((program_registers wf).1.imports line listed)
    exact ⟨p.1, module⟩
  backed _ _ module _ among _ listed uses := program_backed wf module among listed uses
  ordered options := (program g).text_ordered options

theorem reachable_graph_fully_hoisted {w : Workspace} (reached : w.Reachable) : w.graph.FullyHoisted :=
  reached.wellFormed.fullyHoisted

-- Two averages, a procedure that is called like the helper function, a constant, and a variable that
-- is called like a module.
theorem averages_fully_hoisted :
    let w := (Editing.Session.runAll {} false
      [.edit (.createVariable "random"), .edit (.createVariable "n"),
        .edit (.createProcedure "math_mean" [⟨"v1"⟩, ⟨"v2"⟩] false), .edit (.addBlock .print),
        .edit (.addBlock .aggregate), .edit (.setField ⟨"b6"⟩ "OP" (.choice "AVERAGE")),
        .edit (.attach ⟨"b5"⟩ (.input "TEXT") ⟨"b6"⟩), .edit (.attach ⟨"b4"⟩ (.body "STACK") ⟨"b5"⟩),
        .edit (.addBlock .aggregate), .edit (.setField ⟨"b7"⟩ "OP" (.choice "AVERAGE")), .edit (.addBlock .constant),
        .edit (.addBlock .variableGet), .edit (.setField ⟨"b9"⟩ "VAR" (.variableRef ⟨"v1"⟩))]).1.workspace
    (program w.graph).imports = ["from numbers import Number", "import math"] ∧
      (program w.graph).functions = [meanLines "math_mean2",
        [.flat "def math_mean(random, n):", ⟨1, "print(math_mean2([]))"⟩]] ∧
      (program w.graph).chains = [[.flat "math_mean2([])"], [.flat "math.pi"], [.flat "random"]] ∧
      w.graph.FullyHoisted :=
  ⟨by decide +kernel, by decide +kernel, by decide +kernel,
    reachable_graph_fully_hoisted (Editing.Session.runAll_reachable false _)⟩

end Blockwork
