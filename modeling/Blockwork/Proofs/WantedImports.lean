import Mathlib
import Blockwork.Proofs.SourceWords
import Blockwork.Proofs.Requests

-- What the rule of a block hoists by itself. It imports what its own text needs, and apart from that
-- it only looks at names and claims some.
namespace Blockwork.Generation

open Python

variable {g : Graph} {block : Block}

-- The imports that the text of a block needs, those of the blocks below it aside.
def wants (block : Block) : List String :=
  match block.kind with
  | .unary =>
    match block.choiceIn? "OP" with
    | some "NEG" | some "ABS" => []
    | _ => ["import math"]
  | .constant => if block.choiceIn? "CONSTANT" = some "INFINITY" then [] else ["import math"]
  | .round =>
    match block.choiceIn? "OP" with
    | some "ROUNDUP" | some "ROUNDDOWN" => ["import math"]
    | _ => []
  | .randomInteger | .randomFraction => ["import random"]
  | .aggregate =>
    match block.choiceIn? "OP" with
    | some "AVERAGE" => ["from numbers import Number"]
    | some "RANDOM" => ["import random"]
    | _ => []
  | _ => []

section
variable {name line : String}

theorem mem_of_module (module : modules.lookup name = some line) : (name, line) ∈ modules := by
  obtain ⟨before, after, split, _⟩ := List.lookup_eq_some_iff.mp module
  simp [split]

theorem module_injective {other : String} (module : modules.lookup name = some line)
    (module' : modules.lookup other = some line) : name = other := by
  have each : ∀ p ∈ modules, ∀ q ∈ modules, p.2 = q.2 → p.1 = q.1 := by decide
  exact each _ (mem_of_module module) _ (mem_of_module module') rfl

theorem math_wanted (kind : block.kind = .unary ∨ block.kind = .constant ∨ block.kind = .round)
    (module : modules.lookup name = some line) (wanted : line ∈ wants block) :
    name = "math" ∧ line = "import math" := by
  have same : line = "import math" := by
    unfold wants at wanted
    rcases kind with kind | kind | kind
    all_goals
      rw [kind] at wanted
      dsimp only at wanted
      split at wanted <;> simp_all
  subst same
  exact ⟨module_injective module rfl, rfl⟩

theorem random_wanted (kind : block.kind = .randomInteger ∨ block.kind = .randomFraction)
    (module : modules.lookup name = some line) (wanted : line ∈ wants block) :
    name = "random" ∧ line = "import random" := by
  have same : line = "import random" := by
    rcases kind with kind | kind <;> simpa [wants, kind] using wanted
  subst same
  exact ⟨module_injective module rfl, rfl⟩

theorem aggregate_wanted (kind : block.kind = .aggregate) (module : modules.lookup name = some line)
    (wanted : line ∈ wants block) :
    (block.choiceIn? "OP" = some "AVERAGE" ∧ name = "Number" ∧ line = "from numbers import Number") ∨
      (block.choiceIn? "OP" = some "RANDOM" ∧ name = "random" ∧ line = "import random") := by
  rw [wants, kind] at wanted
  dsimp only at wanted
  split at wanted
  · next chosen =>
    obtain rfl := List.mem_singleton.mp wanted
    exact .inl ⟨chosen, module_injective module rfl, rfl⟩
  · next chosen =>
    obtain rfl := List.mem_singleton.mp wanted
    exact .inr ⟨chosen, module_injective module rfl, rfl⟩
  · cases wanted

-- Nobody else is called like an import that a block wants.
theorem wants_reserved (module : modules.lookup name = some line) (wanted : line ∈ wants block) :
    name ∈ reservedNames block := by
  cases kind : block.kind with
  | unary | constant | round =>
    obtain ⟨rfl, _⟩ := math_wanted (by simp [kind]) module wanted
    simp [reservedNames, kind]
  | randomInteger | randomFraction =>
    obtain ⟨rfl, _⟩ := random_wanted (by simp [kind]) module wanted
    simp [reservedNames, kind]
  | aggregate =>
    rcases aggregate_wanted kind module wanted with ⟨chosen, rfl, _⟩ | ⟨chosen, rfl, _⟩
    · simp [reservedNames, kind, chosen]
    · simp [reservedNames, kind, chosen]
  | _ =>
    rw [wants, kind] at wanted
    cases wanted

theorem wants_numbers_iff : "from numbers import Number" ∈ wants block ↔
    block.kind = .aggregate ∧ block.choiceIn? "OP" = some "AVERAGE" := by
  constructor
  · intro wanted
    have module : modules.lookup "Number" = some "from numbers import Number" := rfl
    cases kind : block.kind with
    | unary | constant | round => exact absurd (math_wanted (by simp [kind]) module wanted).1 (by decide)
    | randomInteger | randomFraction => exact absurd (random_wanted (by simp [kind]) module wanted).1 (by decide)
    | aggregate =>
      rcases aggregate_wanted kind module wanted with ⟨chosen, _⟩ | ⟨_, impossible, _⟩
      · exact ⟨rfl, chosen⟩
      · exact absurd impossible (by decide)
    | _ =>
      rw [wants, kind] at wanted
      cases wanted
  · rintro ⟨kind, chosen⟩
    simp [wants, kind, chosen]

end

-- The action adds no other imports.
def Adds {α : Type} (lines : List String) (action : Pass α) : Prop :=
  ∀ s, ∀ line ∈ (action.run s).2.preamble.imports, line ∈ s.preamble.imports ∨ line ∈ lines

namespace Adds

variable {α β : Type} {lines : List String}

theorem pure (a : α) : Adds lines (pure a) := fun _ _ => .inl

theorem bind {action : Pass α} {next : α → Pass β} (first : Adds lines action) (second : ∀ a, Adds lines (next a)) :
    Adds lines (action >>= next) := by
  intro s line listed
  rcases second _ _ line listed with early | late
  · exact first s line early
  · exact .inr late

theorem addImport {line : String} (wanted : line ∈ lines) : Adds lines (addImport line) := by
  intro s other listed
  rcases mem_addImport listed with old | rfl
  · exact .inl old
  · exact .inr wanted

theorem meanFunction : Adds lines (helperFunction "math_mean" meanLines) := by
  intro s line listed
  cases known : s.names.helperName? "math_mean" with
  | some name =>
    rw [helperFunction_again known] at listed
    exact .inl listed
  | none =>
    rw [helperFunction_first known] at listed
    exact .inl ((mem_imports_addDefinition _).mp listed)

end Adds

-- What a rule does by itself: the pass can still account for everything, and nothing is imported
-- that is not on the list.
structure Hoists (g : Graph) (lines : List String) {α : Type} (action : Pass α) : Prop where
  accounts : Accounts g (fun _ => True) action fun _ _ => True
  adds : Adds lines action

section

variable {α β : Type} {lines : List String}

theorem hoists_pure (a : α) : Hoists g lines (pure a) := ⟨.pure fun _ _ => trivial, .pure a⟩

theorem Hoists.bind {action : Pass α} {next : α → Pass β} (first : Hoists g lines action)
    (second : ∀ a, Hoists g lines (next a)) : Hoists g lines (action >>= next) :=
  ⟨first.accounts.bind fun a => (second a).accounts.framed, first.adds.bind fun a => (second a).adds⟩

theorem hoists_variableName? (block : Block) (field : String) : Hoists g lines (variableName? block field) :=
  ⟨(variableName?_accounts block field).weaken fun _ _ _ => trivial, fun _ _ => .inl⟩

theorem hoists_procedureName? (block : Block) (field : String) :
    Hoists g lines (procedureName? block field) :=
  ⟨(procedureName?_accounts block field).weaken fun _ _ _ => trivial, fun _ _ => .inl⟩

theorem hoists_counterName : Hoists g lines (claimName "count") :=
  ⟨counterName_accounts.weaken fun _ _ _ => trivial, fun _ _ => .inl⟩

theorem hoists_math {next : Unit → α} (reserved : Reserved g "math") (wanted : "import math" ∈ lines) :
    Hoists g lines (do
      let a ← addImport "import math"
      return next a) :=
  ⟨(importMath reserved).bind fun _ => .pure fun _ _ => trivial, (Adds.addImport wanted).bind fun _ => .pure _⟩

theorem hoists_random {next : Unit → α} (reserved : Reserved g "random") (wanted : "import random" ∈ lines) :
    Hoists g lines (do
      let a ← addImport "import random"
      return next a) :=
  ⟨(importRandom reserved).bind fun _ => .pure fun _ _ => trivial, (Adds.addImport wanted).bind fun _ => .pure _⟩

theorem hoists_mean {next : String → α} (reserved : ∀ word ∈ meanBuiltins, Reserved g word)
    (wanted : "from numbers import Number" ∈ lines) : Hoists g lines (do
      addImport "from numbers import Number"
      let mean ← helperFunction "math_mean" meanLines
      return next mean) := by
  constructor
  · refine (addImport_accounts (by decide) fun books => .numbers (reserved _ (by decide))).bind fun _ => ?_
    exact (meanName_accounts reserved fun books facts => facts.2).bind fun _ => .pure fun _ _ => trivial
  · exact (Adds.addImport wanted).bind fun _ => Adds.meanFunction.bind fun _ => .pure _

end

-- What is asked of the blocks below is not done by the rule itself.
section

variable {lines : List String} {α β : Type} {ps : List Place} {bs : List (Place × Bool)} {f : Below → Pass α}

theorem each_own {action : Pass α} {steady : Steady action} (here : Hoists g lines action) :
    (Asking.own steady).Each (Hoists g lines) := here

theorem each_done (a : α) : (Asking.done a).Each (Hoists g lines) := hoists_pure a

theorem each_value (slot : String) : (Asking.value slot).Each (Hoists g lines) := trivial

theorem each_chain (place : Place) (inLoop : Bool) : (Asking.chain place inLoop).Each (Hoists g lines) := trivial

theorem each_finish {asking : Asking ps bs f} (each : asking.Each (Hoists g lines)) (result : α → β) :
    (asking.finish result).Each (Hoists g lines) := ⟨each, fun _ => hoists_pure _⟩

theorem each_own_then {action : Pass α} {next : α → Below → Pass β} {steady : Steady action}
    {rest : ∀ a, Asking ps bs (next a)} (here : Hoists g lines action) (each : ∀ a, (rest a).Each (Hoists g lines)) :
    (Asking.own_then steady rest).Each (Hoists g lines) := ⟨here, each⟩

theorem each_value_then {slot : String} {next : Option Expr → Below → Pass β} {rest : ∀ e, Asking ps bs (next e)}
    (each : ∀ e, (rest e).Each (Hoists g lines)) :
    (Asking.value_then rest : Asking (.input slot :: ps) bs _).Each (Hoists g lines) := ⟨trivial, each⟩

theorem each_valueOr (slot : String) (standIn : Expr) : (Asking.valueOr slot standIn).Each (Hoists g lines) :=
  each_finish (each_value slot) _

theorem each_valueOr_then {slot : String} {standIn : Expr} {next : Expr → Below → Pass β}
    {rest : ∀ e, Asking ps bs (next e)} (each : ∀ e, (rest e).Each (Hoists g lines)) :
    (Asking.valueOr_then rest : Asking (.input slot :: ps) bs
      fun below => below.valueOr slot standIn >>= fun e => next e below).Each (Hoists g lines) :=
  ⟨each_valueOr slot standIn, each⟩

theorem each_suite_then {slot : String} {inLoop : Bool} {next : List Line → Below → Pass β}
    {rest : ∀ lines, Asking ps bs (next lines)} (each : ∀ found, (rest found).Each (Hoists g lines)) :
    (Asking.suite_then rest : Asking (.body slot :: ps) ((.body slot, inLoop) :: bs) _).Each (Hoists g lines) :=
  ⟨each_finish (each_chain _ _) _, each⟩

theorem each_valuesOr (standIn : Expr) (slots : List String) :
    (Asking.valuesOr standIn slots).Each (Hoists g lines) := by
  induction slots with
  | nil => exact each_done _
  | cons slot rest ih => exact each_valueOr_then fun _ => each_finish ih _

theorem each_branchLines (inLoop : Bool) (count n : Nat) :
    (Asking.branchLines inLoop count n).Each (Hoists g lines) := by
  induction count generalizing n with
  | zero => exact each_done _
  | succ count ih => exact each_valueOr_then fun _ => each_suite_then fun _ => each_finish (ih (n + 1)) _

end

-- Rules that import something.
section

variable (own : block ∈ g.blocks.values)
include own

theorem unaryTail_hoists (kind : block.kind = .unary) {first second : Expr} {third : Option String → Expr} :
    Hoists g (wants block) (match block.choiceIn? "OP" with
      | some "NEG" => pure first
      | some "ABS" => pure second
      | operation => do
        addImport "import math"
        return third operation) := by
  split
  · exact hoists_pure _
  · exact hoists_pure _
  · refine hoists_math ⟨block, own, by simp [reservedNames, kind]⟩ ?_
    unfold wants
    rw [kind]
    dsimp only
    split <;> simp_all

theorem constantValue_hoists (kind : block.kind = .constant) : Hoists g (wants block) (constantValue block) := by
  unfold constantValue
  split
  · exact hoists_pure _
  · next other =>
    refine hoists_math ⟨block, own, by simp [reservedNames, kind]⟩ ?_
    have needs : ¬block.choiceIn? "CONSTANT" = some "INFINITY" := other
    simp [wants, kind, needs]

theorem roundTail_hoists (kind : block.kind = .round) (value : Expr) :
    Hoists g (wants block) (match block.choiceIn? "OP" with
      | some "ROUNDUP" => do
        addImport "import math"
        return Expr.call (mathMember "ceil") [value]
      | some "ROUNDDOWN" => do
        addImport "import math"
        return Expr.call (mathMember "floor") [value]
      | _ => return Expr.apply "round" [value]) := by
  have reserved : Reserved g "math" := ⟨block, own, by simp [reservedNames, kind]⟩
  split
  · next chosen => exact hoists_math reserved (by simp [wants, kind, chosen])
  · next chosen => exact hoists_math reserved (by simp [wants, kind, chosen])
  · exact hoists_pure _

theorem aggregateTail_hoists (kind : block.kind = .aggregate) (list : Expr) :
    Hoists g (wants block) (match block.choiceIn? "OP" with
      | some "MIN" => return Expr.apply "min" [list]
      | some "MAX" => return Expr.apply "max" [list]
      | some "AVERAGE" => do
        addImport "from numbers import Number"
        let mean ← helperFunction "math_mean" meanLines
        return Expr.apply mean [list]
      | some "RANDOM" => do
        addImport "import random"
        return Expr.send (.name "random") "choice" [list]
      | _ => return Expr.apply "sum" [list]) := by
  split
  · exact hoists_pure _
  · exact hoists_pure _
  · next chosen =>
    refine hoists_mean (fun word listed => ⟨block, own, ?_⟩) (by simp [wants, kind, chosen])
    simpa [reservedNames, kind, chosen, meanBuiltins] using listed
  · next chosen =>
    exact hoists_random ⟨block, own, by simp [reservedNames, kind, chosen]⟩ (by simp [wants, kind, chosen])
  · exact hoists_pure _

theorem addRandom_hoists (kind : block.kind = .randomInteger ∨ block.kind = .randomFraction) :
    Hoists g (wants block) (addImport "import random") := by
  have reserved : Reserved g "random" := by
    refine ⟨block, own, ?_⟩
    rcases kind with kind | kind <;> simp [reservedNames, kind]
  refine ⟨(importRandom reserved).weaken fun _ _ _ => trivial, .addImport ?_⟩
  rcases kind with kind | kind <;> simp [wants, kind]

end

theorem callAsking_each (lines : List String) (block : Block) : (callAsking block).Each (Hoists g lines) := by
  refine each_own_then (hoists_procedureName? block "NAME") fun name => ?_
  cases name with
  | none => exact each_done _
  | some name => exact each_finish (each_valuesOr _ _) _

theorem ifAsking_each (lines : List String) (block : Block) (inLoop : Bool) :
    (ifAsking block inLoop).Each (Hoists g lines) := by
  refine And.intro (each_branchLines _ _ _) fun branches => ?_
  generalize block.extent.hasElse = last
  cases last with
  | true => exact each_suite_then fun _ => each_done _
  | false => exact each_done _

theorem listGetAsking_each (lines : List String) (block : Block) : (listGetAsking block).Each (Hoists g lines) := by
  refine each_valueOr_then fun list => ?_
  split
  · exact each_done _
  · exact each_valueOr_then fun _ => each_done _

theorem listSetAsking_each (lines : List String) (block : Block) : (listSetAsking block).Each (Hoists g lines) := by
  refine each_valueOr_then fun list => each_valueOr_then fun value => ?_
  split
  · exact each_done _
  · exact each_valueOr_then fun _ => each_done _

-- One case for each rule, in the order of `ruleAsking`.
theorem ruleAsking_each (own : block ∈ g.blocks.values) (inLoop : Bool) :
    (ruleAsking block inLoop).Each (Hoists g (wants block)) := by
  unfold ruleAsking
  split
  · exact each_finish (ifAsking_each _ block inLoop) _
  · exact each_finish (each_valueOr_then fun _ => each_valueOr_then fun _ => each_done _) _
  · exact each_finish (each_value_then fun _ => each_value_then fun _ => each_done _) _
  · exact each_finish (each_valueOr _ _) _
  · exact each_done _
  · exact each_done _
  · exact each_done _
  · exact each_done _
  · exact each_done _
  · exact each_done _
  · exact each_finish (each_valueOr_then fun _ => each_valueOr_then fun _ => each_valueOr_then fun _ => each_done _) _
  · exact each_finish (each_value_then fun _ => each_own_then hoists_counterName fun _ =>
      each_suite_then fun _ => each_done _) _
  · exact each_finish (each_valueOr_then fun _ => each_suite_then fun _ => each_done _) _
  · exact each_finish (each_own_then (hoists_variableName? _ _) fun _ => each_valueOr_then fun _ =>
      each_valueOr_then fun _ => each_valueOr_then fun _ => each_suite_then fun _ => each_done _) _
  · exact each_finish (each_own_then (hoists_variableName? _ _) fun _ => each_valueOr_then fun _ =>
      each_suite_then fun _ => each_done _) _
  · exact each_finish (each_valueOr_then fun _ => each_valueOr_then fun _ => each_done _) _
  · exact each_finish (each_own_then (hoists_variableName? _ _) fun _ => each_valueOr_then fun _ => each_done _) _
  · next kind => exact each_finish (each_valueOr_then fun _ => each_own (unaryTail_hoists own kind)) _
  · next kind => exact each_finish (each_own (constantValue_hoists own kind)) _
  · exact each_finish (each_valueOr_then fun _ => each_valueOr_then fun _ => each_done _) _
  · next kind => exact each_finish (each_valueOr_then fun _ => each_own (roundTail_hoists own kind _)) _
  · next kind => exact each_finish (each_own_then (addRandom_hoists own (.inl kind)) fun _ => each_valueOr_then fun _ =>
      each_valueOr_then fun _ => each_done _) _
  · next kind => exact each_finish (each_own ((addRandom_hoists own (.inr kind)).bind fun _ => hoists_pure _)) _
  · next kind => exact each_finish (each_valueOr_then fun _ => each_own (aggregateTail_hoists own kind _)) _
  · exact each_finish (each_finish (each_valuesOr _ _) _) _
  · exact each_finish (each_valueOr_then fun _ => each_done _) _
  · exact each_finish (each_valueOr _ _) _
  · exact each_finish (each_finish (each_valuesOr _ _) _) _
  · exact each_finish (each_valueOr _ _) _
  · exact each_finish (each_valueOr _ _) _
  · exact each_finish (listGetAsking_each _ block) _
  · exact each_finish (listSetAsking_each _ block) _
  · exact each_finish (each_own (hoists_variableName? _ _)) _
  · exact each_finish (each_own_then (hoists_variableName? _ _) fun _ => each_valueOr_then fun _ => each_done _) _
  · exact each_done _
  · exact each_finish (callAsking_each _ block) _
  · exact each_finish (each_finish (callAsking_each _ block) _) _

-- A text uses a name where it stands as a word of its own, and not as a member of something.
def Uses (name text : String) : Prop :=
  ∃ first rest, rowLexemes? text = some (first ++ .word name :: rest) ∧ first.getLast? ≠ some (.mark '.')

theorem Uses.known {known : String → Prop} {name text : String} (uses : Uses name text)
    (explained : ∃ found, rowLexemes? text = some found ∧ Explained known false found) : known name := by
  obtain ⟨first, rest, read, apart⟩ := uses
  obtain ⟨found, read', explained⟩ := explained
  rw [read, Option.some.injEq] at read'
  rcases explained.word read'.symm with here | dotted | ⟨impossible, _⟩
  · exact here
  · exact absurd dotted apart
  · cases impossible

-- A text that begins with the name.
def Begins (name : String) (e : Expr) : Prop := ∃ rest, e.render = name ++ rest ∧ Apart rest.toList

theorem Begins.uses {name : String} {e : Expr} (begins : Begins name e) (shape : Word name.toList)
    (legible : e.Legible) : Uses name e.render := by
  obtain ⟨rest, text, apart⟩ := begins
  have reads : Reads (fun _ => True) e.render := legible.reads (fun _ _ => trivial) fun _ _ => trivial
  rw [text] at reads ⊢
  obtain ⟨found, read, _⟩ := reads
  have row := rowLexemes?_of_lexemes read
  rw [lexemes?, String.toList_append, scan_word shape apart] at read
  obtain ⟨more, _, rfl⟩ := Option.map_eq_some_iff.mp read
  exact ⟨[], more, row, by simp⟩

-- The object of a call or of a member stands without parentheses.
theorem begins_apply (name : String) (args : List Expr) : Begins name (.apply name args) := by
  refine ⟨"(" ++ String.intercalate ", " (Expr.renderAll args) ++ ")", ?_, ?_⟩
  · have plain : (Expr.apply name args).render
        = name ++ "(" ++ String.intercalate ", " (Expr.renderAll args) ++ ")" := by
      rw [Expr.apply, Expr.render]
      rfl
    rw [plain, String.append_assoc, String.append_assoc, String.append_assoc]
  · simp [Apart]
    decide

theorem begins_send (name member : String) (args : List Expr) : Begins name (.send (.name name) member args) := by
  refine ⟨"." ++ (member ++ ("(" ++ (String.intercalate ", " (Expr.renderAll args) ++ ")"))), ?_, ?_⟩
  · have plain : (Expr.send (.name name) member args).render
        = name ++ "." ++ member ++ "(" ++ String.intercalate ", " (Expr.renderAll args) ++ ")" := by
      rw [Expr.send, Expr.render]
      rfl
    simp only [plain, String.append_assoc]
  · simp [Apart]
    decide

-- What an action gives back, and the state that it leaves.
def Leaves {α : Type} (action : Pass α) (property : α → PassState → Prop) : Prop :=
  ∀ s, property (action.run s).1 (action.run s).2

theorem Leaves.last {α β : Type} {action : Pass α} {next : α → Pass β} {property : β → PassState → Prop}
    (leaves : ∀ a, Leaves (next a) property) : Leaves (action >>= next) property := fun _ => leaves _ _

theorem Leaves.pure {α : Type} {a : α} {property : α → PassState → Prop} (holds : ∀ s, property a s) :
    Leaves (Pure.pure a) property := holds

theorem meanFunction_leaves : Leaves (helperFunction "math_mean" meanLines) fun name s =>
    s.names.helperName? "math_mean" = some name := by
  intro s
  cases known : s.names.helperName? "math_mean" with
  | some name => rwa [helperFunction_again known]
  | none =>
    rw [helperFunction_first known]
    exact helperName?_remember _ _ _

-- The expression uses the name by itself or through the helper function that it calls.
def Shows (name : String) (e : Expr) (s : PassState) : Prop :=
  Begins name e ∨ Uses name e.render ∨
    name = "Number" ∧ ∃ mean, s.names.helperName? "math_mean" = some mean ∧ Begins mean e

theorem unaryValue_shows {below : Below} (kind : block.kind = .unary) (wanted : "import math" ∈ wants block) :
    Leaves (unaryValue block below) (Shows "math") := by
  refine .last fun value => ?_
  rw [wants, kind] at wanted
  split
  · next chosen => simp [chosen] at wanted
  · next chosen => simp [chosen] at wanted
  · refine .last fun _ => .pure fun s => .inl ?_
    split <;> exact begins_send "math" _ _

theorem constantValue_shows (kind : block.kind = .constant) (wanted : "import math" ∈ wants block) :
    Leaves (constantValue block) (Shows "math") := by
  unfold constantValue
  rw [wants, kind] at wanted
  split
  · next chosen => simp [chosen] at wanted
  · refine .last fun _ => .pure fun s => .inr (.inl ?_)
    split
    · exact ⟨[], [.mark '.', .word "e"], by decide, by decide⟩
    · exact ⟨[.mark '(', .number, .mark '+'], [.mark '.', .word "sqrt", .mark '(', .number, .mark ')', .mark ')',
        .mark '/', .number], by decide, by decide⟩
    · exact ⟨[], [.mark '.', .word "sqrt", .mark '(', .number, .mark ')'], by decide, by decide⟩
    · exact ⟨[], [.mark '.', .word "sqrt", .mark '(', .number, .mark '/', .number, .mark ')'], by decide, by decide⟩
    · exact ⟨[], [.mark '.', .word "pi"], by decide, by decide⟩

theorem roundValue_shows {below : Below} (kind : block.kind = .round) (wanted : "import math" ∈ wants block) :
    Leaves (roundValue block below) (Shows "math") := by
  refine .last fun value => ?_
  rw [wants, kind] at wanted
  split
  · exact .last fun _ => .pure fun s => .inl (begins_send "math" "ceil" _)
  · exact .last fun _ => .pure fun s => .inl (begins_send "math" "floor" _)
  · simp at wanted

-- The function for means has a name once it was called.
theorem averageValue_leaves (below : Below) (chosen : block.choiceIn? "OP" = some "AVERAGE") :
    Leaves (aggregateValue block below) fun e s =>
      ∃ mean, s.names.helperName? "math_mean" = some mean ∧ Begins mean e := by
  refine .last fun list => ?_
  rw [chosen]
  exact .last fun _ s => ⟨_, meanFunction_leaves s, begins_apply _ _⟩

theorem aggregateValue_shows {below : Below} (kind : block.kind = .aggregate) {name line : String}
    (module : modules.lookup name = some line) (wanted : line ∈ wants block) :
    Leaves (aggregateValue block below) (Shows name) := by
  rcases aggregate_wanted kind module wanted with ⟨chosen, rfl, _⟩ | ⟨chosen, rfl, _⟩
  · exact fun s => .inr (.inr ⟨rfl, averageValue_leaves below chosen s⟩)
  · refine .last fun list => ?_
    rw [chosen]
    exact .last fun _ => .pure fun s => .inl (begins_send "random" "choice" _)

-- What a block wants to be imported, its own text uses.
theorem rule_shows (below : Below) (inLoop : Bool) {name line : String} (module : modules.lookup name = some line)
    (wanted : line ∈ wants block) :
    Leaves (rule block below inLoop) fun code s => ∃ e, code = .expression e ∧ Shows name e s := by
  have value : ∀ {action : Pass Expr}, Leaves action (Shows name) →
      Leaves (do return Code.expression (← action)) fun code s => ∃ e, code = .expression e ∧ Shows name e s :=
    fun leaves s => ⟨_, rfl, leaves s⟩
  unfold rule
  cases kind : block.kind with
  | unary =>
    obtain ⟨rfl, rfl⟩ := math_wanted (.inl kind) module wanted
    exact value (unaryValue_shows kind wanted)
  | constant =>
    obtain ⟨rfl, rfl⟩ := math_wanted (.inr (.inl kind)) module wanted
    exact value (constantValue_shows kind wanted)
  | round =>
    obtain ⟨rfl, rfl⟩ := math_wanted (.inr (.inr kind)) module wanted
    exact value (roundValue_shows kind wanted)
  | randomInteger =>
    obtain ⟨rfl, rfl⟩ := random_wanted (.inl kind) module wanted
    refine value (.last fun _ => .last fun low => .last fun high => .pure fun s => .inl ?_)
    exact begins_send "random" "randint" _
  | randomFraction =>
    obtain ⟨rfl, rfl⟩ := random_wanted (.inr kind) module wanted
    exact value (.last fun _ => .pure fun s => .inl (begins_send "random" "random" _))
  | aggregate => exact value (aggregateValue_shows kind module wanted)
  | _ =>
    rw [wants, kind] at wanted
    cases wanted

theorem averageRule_leaves (below : Below) (inLoop : Bool) (kind : block.kind = .aggregate)
    (chosen : block.choiceIn? "OP" = some "AVERAGE") : Leaves (rule block below inLoop) fun _ s =>
      ∃ mean, s.names.helperName? "math_mean" = some mean := by
  unfold rule
  rw [kind]
  intro s
  obtain ⟨mean, named, _⟩ := averageValue_leaves below chosen s
  exact ⟨mean, named⟩

end Blockwork.Generation
