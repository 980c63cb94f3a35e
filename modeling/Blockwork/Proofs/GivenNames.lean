import Mathlib
import Blockwork.Proofs.DistinctNames
import Blockwork.Proofs.Scanning
import Blockwork.Proofs.SourceText

-- Whose name is whose while a pass runs. A ledger keeps what the table of names forgets, the
-- names of loop counters. Facts about the words of a program are facts about a ledger and the
-- imports, and they stay true when more names are given and more is imported.
namespace Blockwork.Generation

open Python

structure Ledger where
  names : NameTable
  counters : List String

namespace Ledger

-- One more loop counter.
def count (ledger : Ledger) : Ledger :=
  ⟨(ledger.names.claim "count").2, (ledger.names.claim "count").1 :: ledger.counters⟩

-- The helper function for means.
def help (ledger : Ledger) : Ledger :=
  ⟨(ledger.names.claim "math_mean").2.remember "math_mean" (ledger.names.claim "math_mean").1, ledger.counters⟩

inductive Gives (ledger : Ledger) (name : String) : Prop where
  | toVariable (id) (given : ledger.names.variableName? id = some name)
  | toProcedure (id) (given : ledger.names.procedureName? id = some name)
  | toCounter (given : name ∈ ledger.counters)
  | toHelper (key) (given : ledger.names.helperName? key = some name)

end Ledger

-- Names are given to the variables and procedures of the graph, then one by one to loop counters
-- and, once, to the helper function.
inductive Grants (g : Graph) : Ledger → Prop where
  | start : Grants g ⟨.build g (reservedIn g), []⟩
  | count {ledger} (before : Grants g ledger) : Grants g ledger.count
  | help {ledger} (before : Grants g ledger) (fresh : ledger.names.helperName? "math_mean" = none) :
    Grants g ledger.help

variable {g : Graph} {ledger later : Ledger}

theorem mem_of_lookup_zip {α : Type} [BEq α] [LawfulBEq α] {ids : List α} {names : List String} {id : α}
    {name : String} (found : (ids.zip names).reverse.lookup id = some name) : name ∈ names := by
  obtain ⟨before, after, split, _⟩ := List.lookup_eq_some_iff.mp found
  have member : (id, name) ∈ (ids.zip names).reverse := by simp [split]
  exact (List.of_mem_zip (List.mem_reverse.mp member)).2

theorem lookup_zip_found {α : Type} [BEq α] [LawfulBEq α] {ids : List α} {names : List String} {id : α}
    (long : ids.length ≤ names.length) (listed : id ∈ ids) :
    ∃ name, (ids.zip names).reverse.lookup id = some name := by
  rw [← List.map_fst_zip long] at listed
  obtain ⟨entry, member, rfl⟩ := List.mem_map.mp listed
  rw [← Option.isSome_iff_exists, Option.isSome_iff_ne_none]
  intro none
  have other := List.lookup_eq_none_iff.mp none entry (List.mem_reverse.mpr member)
  simp at other

-- Keywords and reserved names are taken from the start, and nobody was given one.
structure Ledger.Apart (g : Graph) (ledger : Ledger) : Prop where
  reserved : ∀ word ∈ keywords ++ reservedIn g, word ∈ ledger.names.taken
  taken : ∀ name, ledger.Gives name → name ∈ ledger.names.taken
  given : ∀ name, ledger.Gives name → name ∉ keywords ++ reservedIn g

-- A name that is claimed was not taken.
theorem Ledger.Apart.claim (apart : ledger.Apart g) (base : String)
    (table : later.names.taken = (ledger.names.claim base).2.taken)
    (new : ∀ name, later.Gives name → name = (ledger.names.claim base).1 ∨ ledger.Gives name) :
    later.Apart g := by
  refine ⟨fun word listed => ?_, fun name given => ?_, fun name given => ?_⟩
  · rw [table]
    exact List.mem_cons_of_mem _ (apart.reserved word listed)
  · rw [table]
    rcases new name given with rfl | old
    · exact List.mem_cons_self
    · exact List.mem_cons_of_mem _ (apart.taken name old)
  · rcases new name given with rfl | old
    · exact fun listed => distinct_free _ _ (apart.reserved _ listed)
    · exact apart.given name old

theorem Ledger.Apart.start : Ledger.Apart g ⟨.build g (reservedIn g), []⟩ := by
  have issued : ∀ name, Ledger.Gives ⟨.build g (reservedIn g), []⟩ name →
      name ∈ (NameTable.build g (reservedIn g)).taken ∧ name ∉ keywords ++ reservedIn g := by
    rw [NameTable.build_eq]
    intro name given
    cases given with
    | toVariable _ given =>
      have issued := mem_of_lookup_zip given
      exact ⟨by simp [issued], issued_free issued⟩
    | toProcedure _ given =>
      have issued := mem_of_lookup_zip given
      refine ⟨by simp [issued], fun listed => issued_free issued ?_⟩
      exact List.mem_append_right _ listed
    | toCounter given => cases given
    | toHelper _ given => cases given
  refine ⟨fun word listed => ?_, fun name given => (issued name given).1,
    fun name given => (issued name given).2⟩
  rw [NameTable.build_eq]
  exact List.mem_append_right _ (List.mem_append_right _ listed)

theorem Grants.apart (grants : Grants g ledger) : ledger.Apart g := by
  induction grants with
  | start => exact .start
  | count _ ih =>
    refine ih.claim "count" rfl fun name given => ?_
    cases given with
    | toVariable _ given => exact .inr (.toVariable _ given)
    | toProcedure _ given => exact .inr (.toProcedure _ given)
    | toCounter given => exact (List.mem_cons.mp given).imp_right .toCounter
    | toHelper _ given => exact .inr (.toHelper _ given)
  | help _ fresh ih =>
    refine ih.claim "math_mean" rfl fun name given => ?_
    cases given with
    | toVariable _ given => exact .inr (.toVariable _ given)
    | toProcedure _ given => exact .inr (.toProcedure _ given)
    | toCounter given => exact .inr (.toCounter given)
    | toHelper key given =>
      simp only [NameTable.helperName?, Ledger.help, NameTable.remember, List.lookup_cons] at given
      split at given
      · exact .inl (Option.some.inj given).symm
      · exact .inr (.toHelper _ given)

-- Every variable and every procedure has a name from the start, and keeps it.
theorem Visits.keeps {s : PassState} (visits : Visits g s) : Keeps (.build g (reservedIn g)) s.names := by
  induction visits with
  | start => exact .refl _
  | addImport _ _ ih | addFunction _ _ _ _ ih => exact ih
  | claim _ base ih => exact ih.trans (.claim _ base)
  | remember _ fresh _ ih => exact ih.trans (.remembered fresh _)

theorem variable_named {names : NameTable} (keeps : Keeps (.build g (reservedIn g)) names) {v : VariableId}
    (known : ∃ x ∈ g.vars, x.id = v) : (names.variableName? v).isSome = true := by
  obtain ⟨x, listed, rfl⟩ := known
  rw [keeps.variableName?, NameTable.build_eq, Option.isSome_iff_exists]
  exact lookup_zip_found (by simp) (List.mem_map.mpr ⟨x, listed, rfl⟩)

theorem procedure_named {names : NameTable} (keeps : Keeps (.build g (reservedIn g)) names) {p : Procedure}
    (listed : p ∈ g.procedures) : (names.procedureName? p.id).isSome = true := by
  rw [keeps.procedureName?, NameTable.build_eq, Option.isSome_iff_exists]
  exact lookup_zip_found (by simp) (List.mem_map.mpr ⟨p, listed, rfl⟩)

theorem Grants.procedure_named (grants : Grants g ledger) {p : Procedure} (listed : p ∈ g.procedures) :
    ∃ name, ledger.names.procedureName? p.id = some name := by
  induction grants with
  | start => exact Option.isSome_iff_exists.mp (Generation.procedure_named (.refl _) listed)
  | count _ ih => exact ih
  | help _ _ ih => exact ih

-- Names that a program has by an import, each with the line that imports it.
def modules : List (String × String) :=
  [("math", "import math"), ("random", "import random"), ("Number", "from numbers import Number")]

structure Books extends Ledger where
  imports : List String

def PassState.books (s : PassState) (counters : List String) : Books := ⟨⟨s.names, counters⟩, s.preamble.imports⟩

-- A name that has to be imported is imported.
def Books.Backs (books : Books) (word : String) : Prop :=
  ∀ line, modules.lookup word = some line → line ∈ books.imports

-- More names are given and more is imported, and nothing is taken back.
structure Later (books later : Books) : Prop where
  names : Keeps books.names later.names
  counters : books.counters ⊆ later.counters
  imports : books.imports ⊆ later.imports

section
variable {books later : Books}

theorem Books.backs_builtin {word : String} (other : modules.lookup word = none) : books.Backs word := by
  intro line found
  rw [other] at found
  cases found

theorem Books.backs_module {word line : String} (found : modules.lookup word = some line)
    (imported : line ∈ books.imports) : books.Backs word := by
  intro other same
  cases found.symm.trans same
  exact imported

theorem Later.refl (books : Books) : Later books books :=
  ⟨.refl _, fun _ listed => listed, fun _ listed => listed⟩

theorem Later.trans {last : Books} (first : Later books later) (second : Later later last) : Later books last :=
  ⟨first.names.trans second.names, fun _ listed => second.counters (first.counters listed),
    fun _ listed => second.imports (first.imports listed)⟩

theorem later_import (s : PassState) (counters : List String) (line : String) :
    Later (s.books counters) ({ s with preamble := s.preamble.addImport line }.books counters) :=
  ⟨.refl _, fun _ listed => listed, fun _ listed => imports_addImport line listed⟩

theorem later_count (s : PassState) (counters : List String) : Later (s.books counters)
    ({ s with names := (s.names.claim "count").2 }.books ((s.names.claim "count").1 :: counters)) :=
  ⟨.claim _ _, fun _ listed => List.mem_cons_of_mem _ listed, fun _ listed => listed⟩

end

-- A name that some block of the graph relies on.
def Reserved (g : Graph) (name : String) : Prop := ∃ block ∈ g.blocks.values, name ∈ reservedNames block

theorem reserved_iff {name : String} : name ∈ reservedIn g ↔ Reserved g name := by
  simp [reservedIn, Reserved]

def Known (g : Graph) (books : Books) (word : String) : Prop :=
  word ∈ keywords ∨ books.Gives word ∨ word = noTarget ∨ Reserved g word ∧ books.Backs word

section
variable {books later : Books}

theorem Known.keyword : ∀ word ∈ keywords, Known g books word := fun _ => .inl

theorem Known.name {word : String} (given : books.Gives word) : Known g books word := .inr (.inl given)

theorem Known.target : Known g books noTarget := .inr (.inr (.inl rfl))

theorem Known.reserved {word : String} (reserved : Reserved g word) (backs : books.Backs word) : Known g books word :=
  .inr (.inr (.inr ⟨reserved, backs⟩))

end

-- A line of a comment in the graph, or one of code whose words are known.
inductive Plain (g : Graph) (books : Books) (content : String) : Prop where
  | comment {block : Block} {line : Line} (listed : block ∈ g.blocks.values) (kind : block.kind = .comment)
    (member : line ∈ commentLines (fieldText block)) (same : line.content = content)
  | code (reads : Reads (Known g books) content)

def AllPlain (g : Graph) (books : Books) (lines : List Line) : Prop :=
  ∀ line ∈ lines, Plain g books line.content

def meanBuiltins : List String := ["sum", "len", "float", "isinstance", "Number"]

-- Lines that stand together in a program. The name of a module occurs in one of the imports,
-- and names of its own in the helper function.
inductive Group (g : Graph) (books : Books) : List Line → Prop where
  | plain {lines} (each : AllPlain g books lines) : Group g books lines
  | numbers (reserved : Reserved g "Number") (imported : "from numbers import Number" ∈ books.imports) :
    Group g books [.flat "from numbers import Number"]
  | mean {name} (named : books.names.helperName? "math_mean" = some name)
    (proper : isIdentifier name = true) (reserved : ∀ word ∈ meanBuiltins, Reserved g word)
    (imported : "from numbers import Number" ∈ books.imports) : Group g books (meanLines name)

-- The helper function is recorded once it has a name, under a key that nothing else has, and what
-- it needs is imported.
structure Helped (s : PassState) : Prop where
  functions : ∀ d ∈ s.preamble.definitions, d.isFunction = true ∨ Declares d
  keyed : ∀ d ∈ s.preamble.definitions, d.key = "%helper%" ++ "math_mean" →
    ∃ name, s.names.helperName? "math_mean" = some name ∧ d.body = meanLines name
  named : ∀ name, s.names.helperName? "math_mean" = some name →
    meanLines name ∈ s.preamble.functions ∧ "from numbers import Number" ∈ s.preamble.imports

-- A pass that can account for all that it has hoisted so far.
structure Accountable (g : Graph) (s : PassState) (counters : List String) : Prop where
  visits : Visits g s
  grants : Grants g ⟨s.names, counters⟩
  helped : Helped s
  imports : ∀ line ∈ s.preamble.imports, ∀ books, line ∈ books.imports → Group g books [.flat line]
  functions : ∀ lines ∈ s.preamble.functions, ∀ books, Later (s.books counters) books → Group g books lines

theorem Helped.start : Helped (.start g (reservedIn g)) := by
  have each : ∀ d ∈ (PassState.start g (reservedIn g)).preamble.definitions, Declares d := by
    obtain none | ⟨d, only, declares⟩ := start_definitions g (reservedIn g)
    · simp [none]
    · simpa [only] using declares
  refine ⟨fun d listed => .inr (each d listed), fun d listed key => ?_, fun name given => ?_⟩
  · exact absurd key ((each d listed).key_ne rfl _)
  · rw [start_names, NameTable.build_eq] at given
    cases given

theorem Accountable.start : Accountable g (.start g (reservedIn g)) [] where
  visits := .start
  grants := .start
  helped := .start
  imports := by simp
  functions := by simp

-- After the action the pass can still account for everything, and its result has the property
-- in all later books, if all later books were as given before.
def Accounts {α : Type} (g : Graph) (given : Books → Prop) (action : Pass α)
    (property : Books → α → Prop) : Prop :=
  ∀ s counters, Accountable g s counters → (∀ books, Later (s.books counters) books → given books) →
    ∃ more, Accountable g (action.run s).2 more ∧ Later (s.books counters) ((action.run s).2.books more) ∧
      ∀ books, Later ((action.run s).2.books more) books → property books (action.run s).1

section

variable {α β : Type} {given : Books → Prop}

theorem Accounts.pure {a : α} {property : Books → α → Prop} (holds : ∀ books, given books → property books a) :
    Accounts g given (pure a) property :=
  fun _ counters accountable known =>
    ⟨counters, accountable, .refl _, fun books later => holds books (known books later)⟩

theorem Accounts.bind {action : Pass α} {next : α → Pass β} {property : Books → α → Prop}
    {goal : Books → β → Prop} (first : Accounts g given action property)
    (second : ∀ a, Accounts g (fun books => given books ∧ property books a) (next a) goal) :
    Accounts g given (action >>= next) goal := by
  intro s counters accountable known
  obtain ⟨more, middle, after, holds⟩ := first s counters accountable known
  obtain ⟨last, final, behind, reaches⟩ := second _ _ more middle fun books later =>
    ⟨known books (after.trans later), holds books later⟩
  exact ⟨last, final, after.trans behind, reaches⟩

-- What holds of all later books may be forgotten.
theorem Accounts.framed {action : Pass α} {property : Books → α → Prop}
    (accounts : Accounts g (fun _ => True) action property) : Accounts g given action property :=
  fun s counters accountable _ => accounts s counters accountable fun _ _ => trivial

theorem Accounts.weaken {action : Pass α} {property goal : Books → α → Prop}
    (accounts : Accounts g given action property)
    (implies : ∀ books a, property books a → goal books a) : Accounts g given action goal := by
  intro s counters accountable known
  obtain ⟨more, final, after, holds⟩ := accounts s counters accountable known
  exact ⟨more, final, after, fun books later => implies books _ (holds books later)⟩

theorem Accounts.ensured {action : Pass α} {property : Books → α → Prop} {goal : α → Prop}
    (accounts : Accounts g given action property) (ensures : Ensures g action goal) :
    Accounts g given action fun books a => property books a ∧ goal a := by
  intro s counters accountable known
  obtain ⟨more, final, after, holds⟩ := accounts s counters accountable known
  have proper := (ensures s accountable.visits).2
  exact ⟨more, final, after, fun books later => ⟨holds books later, proper⟩⟩

-- The actions that change the state or look at it.
theorem get_accounts : Accounts g given get fun books s =>
    Keeps s.names books.names ∧ Visits g s ∧ ∃ counters, Grants g ⟨s.names, counters⟩ :=
  fun _ counters accountable _ => ⟨counters, accountable, .refl _,
    fun _ later => ⟨later.names, accountable.visits, counters, accountable.grants⟩⟩

theorem Helped.addImport {s : PassState} (helped : Helped s) (line : String) :
    Helped { s with preamble := s.preamble.addImport line } := by
  have same : (s.preamble.addImport line).definitions = s.preamble.definitions := definitions_addImport line
  refine ⟨fun d listed => ?_, fun d listed => ?_, fun name found => ?_⟩
  · exact helped.functions d (same ▸ listed)
  · exact helped.keyed d (same ▸ listed)
  · obtain ⟨member, imported⟩ := helped.named name found
    exact ⟨(functions_addImport line).symm ▸ member, imports_addImport line imported⟩

theorem addImport_accounts {line : String} (listed : line ∈ importLines)
    (group : ∀ books, line ∈ books.imports → Group g books [.flat line]) :
    Accounts g given (addImport line) fun books _ => line ∈ books.imports := by
  intro s counters accountable _
  have after := later_import s counters line
  refine ⟨counters, ⟨accountable.visits.addImport listed, accountable.grants, accountable.helped.addImport line,
    fun other member => ?_, fun lines member books later => ?_⟩, after,
    fun books later => later.imports (addImport_mem line)⟩
  · rcases mem_addImport member with old | rfl
    · exact accountable.imports other old
    · exact group
  · exact accountable.functions lines (functions_addImport line ▸ member) books (after.trans later)

theorem Helped.addFunction {s : PassState} (helped : Helped s) {key : String}
    (other : key ≠ "%helper%" ++ "math_mean") (lines : List Line) :
    Helped { s with preamble := s.preamble.addDefinition ⟨key, true, lines⟩ } := by
  refine ⟨fun d listed => ?_, fun d listed same => ?_, fun name found => ?_⟩
  · rcases mem_addDefinition listed with old | rfl
    · exact helped.functions d old
    · exact .inl rfl
  · rcases mem_addDefinition listed with old | rfl
    · exact helped.keyed d old same
    · exact absurd same other
  · obtain ⟨member, imported⟩ := helped.named name found
    exact ⟨functions_addDefinition _ member, (mem_imports_addDefinition _).mpr imported⟩

theorem addFunction_accounts {key : String} (other : key ≠ "%helper%" ++ "math_mean") {lines : List Line}
    (filled : lines ≠ []) (blocked : ∀ books, given books → Blocked false lines)
    (group : ∀ books, given books → Group g books lines) :
    Accounts g given (addFunction key lines) fun _ _ => True := by
  intro s counters accountable known
  have visits := accountable.visits.addFunction key filled (blocked _ (known _ (.refl _)))
  have after : Later (s.books counters)
      ({ s with preamble := s.preamble.addDefinition ⟨key, true, lines⟩ }.books counters) :=
    ⟨.refl _, fun _ listed => listed, fun _ listed => (mem_imports_addDefinition _).mpr listed⟩
  refine ⟨counters, ⟨visits, accountable.grants, accountable.helped.addFunction other lines, ?_, ?_⟩, after,
    fun _ _ => trivial⟩
  · exact fun line member => accountable.imports line ((mem_imports_addDefinition _).mp member)
  · intro found member books later
    rcases mem_addFunction member with old | rfl
    · exact accountable.functions found old books (after.trans later)
    · exact group books (known books (after.trans later))

theorem counterName_accounts :
    Accounts g given (claimName "count") fun books name => name ∈ books.counters := by
  intro s counters accountable _
  have after := later_count s counters
  have helped : Helped { s with names := (s.names.claim "count").2 } :=
    ⟨accountable.helped.functions, accountable.helped.keyed, accountable.helped.named⟩
  refine ⟨_, ⟨accountable.visits.claim "count", accountable.grants.count, helped, accountable.imports, ?_⟩, after,
    fun books later => later.counters List.mem_cons_self⟩
  intro lines member books later
  exact accountable.functions lines member books (after.trans later)

theorem variableName?_accounts (block : Block) (field : String) :
    Accounts g given (variableName? block field) fun books found => ∀ name ∈ found, books.Gives name := by
  intro s counters accountable _
  refine ⟨counters, accountable, .refl _, fun books later name found => ?_⟩
  obtain ⟨id, _, named⟩ := Option.bind_eq_some_iff.mp found
  exact .toVariable id ((later.names.variableName? id).trans named)

theorem procedureName?_accounts (block : Block) (field : String) :
    Accounts g given (procedureName? block field) fun books found => ∀ name ∈ found, books.Gives name := by
  intro s counters accountable _
  refine ⟨counters, accountable, .refl _, fun books later name found => ?_⟩
  obtain ⟨id, _, named⟩ := Option.bind_eq_some_iff.mp found
  exact .toProcedure id ((later.names.procedureName? id).trans named)

theorem meanLines_header (name : String) : ∃ front more, meanLines name = .flat (front ++ ":") :: more := by
  have parts : "(myList):" = "(myList)" ++ ":" := rfl
  exact ⟨_, _, by rw [meanLines, parts, ← String.append_assoc]⟩

-- The helper function is not lost when it is recorded. A definition with its key would be the
-- helper function under a name that it already has.
theorem Helped.first {s : PassState} (helped : Helped s) (fresh : s.names.helperName? "math_mean" = none)
    (imported : "from numbers import Number" ∈ s.preamble.imports) :
    Helped ((helperFunction "math_mean" meanLines).run s).2 := by
  rw [helperFunction_first fresh]
  set name := (s.names.claim "math_mean").1
  set new : Definition (List Line) := ⟨"%helper%" ++ "math_mean", true, meanLines name⟩
  refine ⟨fun d listed => ?_, fun d listed same => ?_, fun other found => ?_⟩
  · rcases mem_addDefinition listed with old | rfl
    · exact helped.functions d old
    · exact .inl rfl
  · rcases mem_addDefinition listed with old | rfl
    · obtain ⟨earlier, known, _⟩ := helped.keyed d old same
      cases fresh.symm.trans known
    · exact ⟨name, helperName?_remember _ _ _, rfl⟩
  · cases (helperName?_remember _ _ _).symm.trans found
    refine ⟨?_, (mem_imports_addDefinition new).mpr imported⟩
    by_cases recorded : s.preamble.records new.key new.body = true
    · obtain ⟨d, old, same⟩ := List.any_eq_true.mp recorded
      rw [Bool.or_eq_true, beq_iff_eq, decide_eq_true_eq] at same
      rcases same with key | body
      · obtain ⟨earlier, known, _⟩ := helped.keyed d old key
        cases fresh.symm.trans known
      · rcases helped.functions d old with function | declares
        · refine functions_addDefinition new ?_
          exact List.mem_map.mpr ⟨d, List.mem_filter.mpr ⟨old, function⟩, body⟩
        · obtain ⟨front, more, header⟩ := meanLines_header name
          exact absurd (body.trans header) (declares.ne_function front more)
    · rw [Preamble.addDefinition, if_neg recorded]
      exact List.mem_map.mpr ⟨new, List.mem_filter.mpr ⟨List.mem_append_right _ List.mem_cons_self, rfl⟩, rfl⟩

theorem meanName_accounts (reserved : ∀ word ∈ meanBuiltins, Reserved g word)
    (imported : ∀ books, given books → "from numbers import Number" ∈ books.imports) :
    Accounts g given (helperFunction "math_mean" meanLines) fun books name => books.Gives name := by
  intro s counters accountable known
  have imported : "from numbers import Number" ∈ s.preamble.imports := imported _ (known _ (.refl _))
  cases found : s.names.helperName? "math_mean" with
  | some name =>
    rw [helperFunction_again found]
    exact ⟨counters, accountable, .refl _, fun books later => .toHelper _ (later.names.helpers _ _ found)⟩
  | none =>
    have helped := accountable.helped.first found imported
    have proper := accountable.visits.names.claim_identifier "math_mean"
    rw [helperFunction_first found] at helped ⊢
    set new : Definition (List Line) := ⟨"%helper%" ++ "math_mean", true, meanLines (s.names.claim "math_mean").1⟩
    have after : Later (s.books counters) (PassState.books ⟨(s.names.claim "math_mean").2.remember "math_mean"
        (s.names.claim "math_mean").1, s.preamble.addDefinition new⟩ counters) :=
      ⟨.remember found, fun _ listed => listed, fun _ listed => (mem_imports_addDefinition _).mpr listed⟩
    have named : ∀ books, Later (PassState.books ⟨(s.names.claim "math_mean").2.remember "math_mean"
        (s.names.claim "math_mean").1, s.preamble.addDefinition new⟩ counters) books →
        books.names.helperName? "math_mean" = some (s.names.claim "math_mean").1 :=
      fun books later => later.names.helpers _ _ (helperName?_remember _ _ _)
    refine ⟨counters, ⟨accountable.visits.helper found (by simp [meanLines]) (meanLines_blocked proper),
      accountable.grants.help found, helped, ?_, ?_⟩, after, fun books later => .toHelper _ (named books later)⟩
    · exact fun line member => accountable.imports line ((mem_imports_addDefinition _).mp member)
    · intro lines member books later
      rcases mem_addFunction member with old | rfl
      · exact accountable.functions lines old books (after.trans later)
      · exact .mean (named books later) proper reserved (later.imports ((mem_imports_addDefinition _).mpr imported))

end

end Blockwork.Generation
