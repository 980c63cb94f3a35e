import Mathlib
import Blockwork.Generation.Program
import Blockwork.Proofs.BlockStructure
import Blockwork.Proofs.Identifiers

-- What a pass of generation may do to its state, whatever it renders. An action
-- either yields a value that the names decide, or it only ensures something of
-- what it gives back.
namespace Blockwork.Generation

open Python

def importLines : List String := ["import math", "import random", "from numbers import Number"]

-- States that a pass over a graph takes on.
inductive Visits (g : Graph) : PassState → Prop where
  | start : Visits g (.start g (reservedIn g))
  | addImport {s line} (before : Visits g s) (known : line ∈ importLines) :
    Visits g { s with preamble := s.preamble.addImport line }
  | claim {s} (before : Visits g s) (base) : Visits g { s with names := (s.names.claim base).2 }
  | remember {s key name} (before : Visits g s) (fresh : s.names.helperName? key = none)
    (proper : isIdentifier name = true) : Visits g { s with names := s.names.remember key name }
  | addFunction {s lines} (before : Visits g s) (key) (filled : lines ≠ []) (blocked : Blocked false lines) :
    Visits g { s with preamble := s.preamble.addDefinition ⟨key, true, lines⟩ }

-- What a preamble holds once more has been recorded.
section
variable {preamble : Preamble (List Line)}

theorem mem_addImport {line new : String} (listed : line ∈ (preamble.addImport new).imports) :
    line ∈ preamble.imports ∨ line = new := by
  unfold Preamble.addImport at listed
  split at listed
  · exact .inl listed
  · exact (List.mem_append.mp listed).imp_right List.mem_singleton.mp

theorem imports_addImport {line : String} (new : String) (listed : line ∈ preamble.imports) :
    line ∈ (preamble.addImport new).imports := by
  unfold Preamble.addImport
  split
  · exact listed
  · exact List.mem_append_left _ listed

theorem addImport_mem (new : String) : new ∈ (preamble.addImport new).imports := by
  unfold Preamble.addImport
  split
  · next there => exact List.contains_iff_mem.mp there
  · exact List.mem_append_right _ (List.mem_singleton_self new)

theorem definitions_addImport (new : String) : (preamble.addImport new).definitions = preamble.definitions := by
  unfold Preamble.addImport
  split
  · rfl
  · rfl

theorem functions_addImport (new : String) : (preamble.addImport new).functions = preamble.functions := by
  rw [Preamble.functions, definitions_addImport, Preamble.functions]

theorem definitions_addDefinition (preamble : Preamble (List Line)) (new : Definition (List Line)) :
    (preamble.addDefinition new).definitions = preamble.definitions ∨
      (preamble.addDefinition new).definitions = preamble.definitions ++ [new] := by
  unfold Preamble.addDefinition
  split
  · exact .inl rfl
  · exact .inr rfl

theorem mem_addDefinition {d new : Definition (List Line)} (listed : d ∈ (preamble.addDefinition new).definitions) :
    d ∈ preamble.definitions ∨ d = new := by
  rcases definitions_addDefinition preamble new with same | added
  · exact .inl (same ▸ listed)
  · rw [added] at listed
    exact (List.mem_append.mp listed).imp_right List.mem_singleton.mp

theorem functions_addDefinition {lines : List Line} (new : Definition (List Line))
    (listed : lines ∈ preamble.functions) : lines ∈ (preamble.addDefinition new).functions := by
  rcases definitions_addDefinition preamble new with same | added
  · rwa [Preamble.functions, same]
  · rw [Preamble.functions, added, List.filter_append, List.map_append]
    exact List.mem_append_left _ listed

theorem imports_addDefinition (new : Definition (List Line)) :
    (preamble.addDefinition new).imports = preamble.imports := by
  unfold Preamble.addDefinition
  split
  · rfl
  · rfl

theorem mem_imports_addDefinition {line : String} (new : Definition (List Line)) :
    line ∈ (preamble.addDefinition new).imports ↔ line ∈ preamble.imports := by
  rw [imports_addDefinition]

theorem mem_addFunction {key : String} {lines new : List Line}
    (listed : lines ∈ (preamble.addDefinition ⟨key, true, new⟩).functions) :
    lines ∈ preamble.functions ∨ lines = new := by
  unfold Preamble.addDefinition at listed
  split at listed
  · exact .inl listed
  · simp only [Preamble.functions, List.filter_append, List.map_append, List.mem_append] at listed
    exact listed.imp_right List.mem_singleton.mp

-- The declarations of the variables, as they stand among the definitions.
structure Declares (d : Definition (List Line)) : Prop where
  key : d.key = "variables"
  isFunction : d.isFunction = false
  body : ∃ name more, d.body = .flat (name ++ " = None") :: more

theorem Declares.ne_function {d : Definition (List Line)} (declares : Declares d) (front : String) (more : List Line) :
    d.body ≠ .flat (front ++ ":") :: more := by
  obtain ⟨name, others, body⟩ := declares.body
  intro same
  have lines : name ++ " = None" = front ++ ":" := by
    simpa [Line.flat] using (List.cons.inj (body.symm.trans same)).1
  have last := congrArg (·.toList.getLast?) lines
  simp at last

end

section
variable (g : Graph) (reserved : List String)

@[simp] theorem start_names : (PassState.start g reserved).names = .build g reserved := rfl

theorem start_definitions : (PassState.start g reserved).preamble.definitions = [] ∨
    ∃ d, (PassState.start g reserved).preamble.definitions = [d] ∧ Declares d := by
  simp only [PassState.start]
  cases lines : declarations g (.build g reserved) with
  | nil => exact .inl rfl
  | cons line more =>
    obtain ⟨name, _, rfl⟩ := List.mem_map.mp (lines ▸ List.mem_cons_self : line ∈ declarations g (.build g reserved))
    exact .inr ⟨_, rfl, rfl, rfl, name, more, rfl⟩

@[simp] theorem start_imports : (PassState.start g reserved).preamble.imports = [] := by
  simp only [PassState.start]
  split
  · rfl
  · exact imports_addDefinition _

@[simp] theorem start_functions : (PassState.start g reserved).preamble.functions = [] := by
  rw [Preamble.functions]
  obtain none | ⟨d, only, declares⟩ := start_definitions g reserved
  · rw [none]
    rfl
  · rw [only]
    simp [declares.isFunction]

end

namespace Visits

variable {g : Graph} {s : PassState}

theorem names (visits : Visits g s) : s.names.Legible := by
  induction visits with
  | start => exact NameTable.build_legible g _
  | addImport _ _ ih => exact ih
  | claim _ base ih => exact ih.claim base
  | remember _ _ proper ih => exact ih.remember _ proper
  | addFunction _ _ _ _ ih => exact ih

theorem imports (visits : Visits g s) : ∀ line ∈ s.preamble.imports, line ∈ importLines := by
  induction visits with
  | start => simp
  | addImport _ known ih =>
    intro line listed
    rcases mem_addImport listed with old | rfl
    · exact ih line old
    · exact known
  | claim _ _ ih | remember _ _ _ ih => exact ih
  | addFunction _ _ _ _ ih =>
    rw [imports_addDefinition]
    exact ih

theorem functions (visits : Visits g s) :
    ∀ lines ∈ s.preamble.functions, lines ≠ [] ∧ Blocked false lines := by
  induction visits with
  | start => simp
  | addImport _ _ ih =>
    rw [functions_addImport]
    exact ih
  | claim _ _ ih | remember _ _ _ ih => exact ih
  | addFunction _ _ filled blocked ih =>
    intro lines listed
    rcases mem_addFunction listed with old | rfl
    · exact ih lines old
    · exact ⟨filled, blocked⟩

end Visits

structure Keeps (before after : NameTable) : Prop where
  vars : after.vars = before.vars
  procedures : after.procedures = before.procedures
  helpers : ∀ key name, before.helperName? key = some name → after.helperName? key = some name

theorem Keeps.refl (names : NameTable) : Keeps names names := ⟨rfl, rfl, fun _ _ known => known⟩

theorem Keeps.trans {a b c : NameTable} (first : Keeps a b) (second : Keeps b c) : Keeps a c :=
  ⟨second.vars.trans first.vars, second.procedures.trans first.procedures,
    fun key name known => second.helpers key name (first.helpers key name known)⟩

theorem Keeps.variableName? {before after : NameTable} (keeps : Keeps before after) (id : VariableId) :
    after.variableName? id = before.variableName? id := congrArg (List.lookup id) keeps.vars

theorem Keeps.procedureName? {before after : NameTable} (keeps : Keeps before after) (id : ProcedureId) :
    after.procedureName? id = before.procedureName? id := congrArg (List.lookup id) keeps.procedures

section
variable {α β : Type} {g : Graph}

-- The action gives back what the names say, those of its last state and all later ones.
def Yields (g : Graph) (action : Pass α) (value : NameTable → α) : Prop :=
  ∀ s, Visits g s → ∃ t, Visits g t ∧ Keeps s.names t.names ∧
    ∀ names, Keeps t.names names → action.run s = (value names, t)

def Ensures (g : Graph) (action : Pass α) (property : α → Prop) : Prop :=
  ∀ s, Visits g s → Visits g (action.run s).2 ∧ property (action.run s).1

theorem Yields.pure (a : α) : Yields g (pure a) fun _ => a :=
  fun s visits => ⟨s, visits, .refl _, fun _ _ => rfl⟩

theorem Yields.bind {action : Pass α} {value : NameTable → α} {next : α → Pass β}
    {result : α → NameTable → β} (first : Yields g action value)
    (second : ∀ a, Yields g (next a) (result a)) :
    Yields g (action >>= next) fun names => result (value names) names := by
  intro s visits
  obtain ⟨t, middle, kept, runs⟩ := first s visits
  obtain ⟨u, last, keeps, goesOn⟩ := second (value t.names) t middle
  refine ⟨u, last, kept.trans keeps, fun names later => ?_⟩
  have same : value t.names = value names :=
    congrArg Prod.fst ((runs t.names (.refl _)).symm.trans (runs names (keeps.trans later)))
  rw [StateT.run_bind, runs t.names (.refl _)]
  dsimp only
  rw [← same]
  exact goesOn names later

-- After an action it is enough to know what the next one does with its actual result.
theorem Yields.finish {action : Pass α} {value : NameTable → α} {next : α → Pass β}
    {result : NameTable → β} (first : Yields g action value)
    (second : ∀ names, next (value names) = Pure.pure (result names)) :
    Yields g (action >>= next) result := by
  intro s visits
  obtain ⟨t, after, kept, runs⟩ := first s visits
  refine ⟨t, after, kept, fun names later => ?_⟩
  rw [StateT.run_bind, runs names later]
  show (next (value names)).run t = _
  rw [second]
  rfl

theorem Yields.congr {action : Pass α} {value other : NameTable → α} (yields : Yields g action value)
    (same : ∀ names, value names = other names) : Yields g action other := by
  obtain rfl : value = other := funext same
  exact yields

theorem Ensures.pure {a : α} {property : α → Prop} (holds : property a) : Ensures g (pure a) property :=
  fun _ visits => ⟨visits, holds⟩

theorem Ensures.bind {action : Pass α} {next : α → Pass β} {property : α → Prop}
    {goal : β → Prop} (first : Ensures g action property)
    (second : ∀ a, property a → Ensures g (next a) goal) : Ensures g (action >>= next) goal := by
  intro s visits
  obtain ⟨middle, holds⟩ := first s visits
  exact second _ holds _ middle

theorem Yields.ensures {action : Pass α} {value : NameTable → α} {property : α → Prop}
    (yields : Yields g action value) (holds : ∀ names, names.Legible → property (value names)) :
    Ensures g action property := by
  intro s visits
  obtain ⟨t, last, _, runs⟩ := yields s visits
  rw [runs t.names (.refl _)]
  exact ⟨last, holds t.names last.names⟩

end

-- The actions that change the state or look at it.
variable {g : Graph}

theorem addImport_yields {line : String} (known : line ∈ importLines) :
    Yields g (addImport line) fun _ => () :=
  fun _ visits => ⟨_, visits.addImport known, .refl _, fun _ _ => rfl⟩

theorem addFunction_ensures (key : String) {lines : List Line} (filled : lines ≠ [])
    (blocked : Blocked false lines) : Ensures g (addFunction key lines) fun _ => True :=
  fun _ visits => ⟨visits.addFunction key filled blocked, trivial⟩

theorem claimName_ensures (base : String) : Ensures g (claimName base) (isIdentifier · = true) :=
  fun _ visits => ⟨visits.claim base, visits.names.claim_identifier base⟩

theorem variableName?_yields (block : Block) (field : String) :
    Yields g (variableName? block field) fun names => (block.variableIn? field).bind names.variableName? := by
  intro s visits
  refine ⟨s, visits, .refl _, fun names later => ?_⟩
  have same : names.variableName? = s.names.variableName? := funext later.variableName?
  dsimp only
  rw [same]
  rfl

theorem procedureName?_yields (block : Block) (field : String) :
    Yields g (procedureName? block field)
      fun names => (block.procedureIn? field).bind names.procedureName? := by
  intro s visits
  refine ⟨s, visits, .refl _, fun names later => ?_⟩
  have same : names.procedureName? = s.names.procedureName? := funext later.procedureName?
  dsimp only
  rw [same]
  rfl

-- Helpers, procedures and the declarations have keys of their own.
theorem helper_ne_procedure (key text : String) : "%helper%" ++ key ≠ "%procedure%" ++ text := by
  intro same
  have chars := congrArg String.toList same
  simp at chars

theorem variables_ne {mark : String} (marked : mark.toList.head? = some '%') (text : String) :
    "variables" ≠ mark ++ text := by
  intro same
  have first := congrArg (·.toList.head?) same
  simp [marked] at first

theorem Declares.key_ne {d : Definition (List Line)} (declares : Declares d) {mark : String}
    (marked : mark.toList.head? = some '%') (text : String) : d.key ≠ mark ++ text :=
  declares.key ▸ variables_ne marked text

-- A helper has one name from its first use on.
theorem helperFunction_again {s : PassState} {key name : String} {define : String → List Line}
    (known : s.names.helperName? key = some name) : (helperFunction key define).run s = (name, s) := by
  simp only [helperFunction, StateT.run_bind, StateT.run_get, pure_bind, known]
  rfl

theorem helperFunction_first {s : PassState} {key : String} {define : String → List Line}
    (fresh : s.names.helperName? key = none) : (helperFunction key define).run s
      = ((s.names.claim key).1, ⟨(s.names.claim key).2.remember key (s.names.claim key).1,
          s.preamble.addDefinition ⟨"%helper%" ++ key, true, define (s.names.claim key).1⟩⟩) := by
  simp only [helperFunction, StateT.run_bind, StateT.run_get, pure_bind, fresh]
  rfl

theorem helperName?_remember (names : NameTable) (key name : String) :
    (names.remember key name).helperName? key = some name := by
  simp [NameTable.helperName?, NameTable.remember]

theorem Keeps.claim (names : NameTable) (base : String) : Keeps names (names.claim base).2 :=
  ⟨rfl, rfl, fun _ _ known => known⟩

theorem Keeps.remembered {names : NameTable} {key : String} (fresh : names.helperName? key = none) (name : String) :
    Keeps names (names.remember key name) := by
  refine ⟨rfl, rfl, fun other name given => ?_⟩
  have apart : (other == key) = false := by
    rw [beq_eq_false_iff_ne]
    rintro rfl
    rw [fresh] at given
    cases given
  simp only [NameTable.helperName?, NameTable.remember, List.lookup_cons, apart]
  exact given

theorem Keeps.remember {names : NameTable} {key : String} (fresh : names.helperName? key = none) :
    Keeps names ((names.claim key).2.remember key (names.claim key).1) := by
  have still : (names.claim key).2.helperName? key = none := fresh
  exact (Keeps.claim names key).trans (.remembered still _)

theorem Visits.helper {s : PassState} (visits : Visits g s) {key : String}
    (fresh : s.names.helperName? key = none) {lines : List Line} (filled : lines ≠ [])
    (blocked : Blocked false lines) :
    Visits g ⟨(s.names.claim key).2.remember key (s.names.claim key).1,
      s.preamble.addDefinition ⟨"%helper%" ++ key, true, lines⟩⟩ :=
  ((visits.claim key).remember fresh (visits.names.claim_identifier key)).addFunction _ filled blocked

theorem helperFunction_yields (key : String) {define : String → List Line}
    (filled : ∀ name, define name ≠ [])
    (blocked : ∀ name, isIdentifier name = true → Blocked false (define name)) :
    Yields g (helperFunction key define) fun names => (names.helperName? key).getD key := by
  intro s visits
  cases known : s.names.helperName? key with
  | some name =>
    refine ⟨s, visits, .refl _, fun names later => ?_⟩
    dsimp only
    rw [helperFunction_again known, later.helpers key name known, Option.getD_some]
  | none =>
    have proper := visits.names.claim_identifier key
    refine ⟨_, visits.helper known (filled _) (blocked _ proper), .remember known, fun names later => ?_⟩
    have found := later.helpers key _ (helperName?_remember _ key _)
    dsimp only
    rw [helperFunction_first known, found, Option.getD_some]

end Blockwork.Generation
