import Mathlib
import Blockwork.Generation.Program
import Blockwork.Proofs.DistinctNames
import Blockwork.Proofs.Passes

-- What a rule asks of the blocks below its block. A rule is told here as the requests that it makes
-- one after another, so it can be run with anything else in place of those blocks.
namespace Blockwork

-- Kinds whose body is run again and again.
def Kind.isLoop : Kind → Bool
  | .repeatTimes | .whileUntil | .countWith | .forEach => true
  | _ => false

namespace Generation

open Python

-- Where children may hang by the slots of a kind.
def placeOf? (slot : Slot) : Option Place :=
  match slot.kind with
  | .field _ => none
  | .input _ => some (.input slot.name)
  | .body => some (.body slot.name)

def slotPlaces (block : Block) : List Place := (block.kind.slots block.extent).filterMap placeOf?

def isBody : Place → Bool
  | .body _ => true
  | _ => false

def bodyPlaces (block : Block) : List Place := (slotPlaces block).filter isBody

theorem filterMap_inputs (count : Nat) (name : Nat → String) :
    ((List.range count).map fun n => Slot.anyInput (name n)).filterMap placeOf?
      = ((List.range count).map name).map .input := by
  rw [List.filterMap_map, List.map_map, ← List.filterMap_eq_map]
  rfl

theorem itemPlaces {block : Block} (kind : block.kind = .textJoin ∨ block.kind = .listOf) :
    slotPlaces block = ((List.range block.extent.items).map Kind.itemName).map .input := by
  rcases kind with kind | kind <;> rw [slotPlaces, kind] <;> exact filterMap_inputs _ _

theorem argumentPlaces {block : Block} {yields : Bool} (kind : block.kind = .call yields) :
    slotPlaces block = ((List.range block.extent.items).map Kind.argumentName).map .input := by
  rw [slotPlaces, kind]
  exact filterMap_inputs _ _

theorem slotPlaces_fixed {block : Block} {kind : Kind} (same : block.kind = kind)
    (fixed : kind.variadic = none) : slotPlaces block = kind.fixedSlots.filterMap placeOf? := by
  rw [slotPlaces, same, Kind.slots, Kind.grownSlots, fixed, List.append_nil]

theorem branchPlaces {block : Block} (kind : block.kind = .ifElse) :
    slotPlaces block = ((List.range' 0 (block.extent.items + 1)).flatMap fun k =>
        [.input (Kind.conditionName k), .body (Kind.branchName k)])
      ++ (if block.extent.hasElse then [.body "ELSE"] else []) := by
  rw [slotPlaces, kind, ← List.range_eq_range']
  simp only [Kind.slots, Kind.fixedSlots, Kind.grownSlots, Kind.variadic, List.nil_append,
    List.filterMap_append, List.filterMap_flatMap]
  congr 1
  split <;> rfl

-- The mean, under a name that was free.
def Helping (taken : List String) (definition : Definition (List Line)) : Prop :=
  ∃ name, definition = ⟨"%helper%" ++ "math_mean", true, meanLines name⟩ ∧ name ∉ taken ∧
    name.toList.all isNameChar = true

theorem Helping.fewer {taken more : List String} {definition : Definition (List Line)}
    (helping : Helping more definition) (fewer : taken ⊆ more) : Helping taken definition := by
  obtain ⟨name, same, free, chars⟩ := helping
  exact ⟨name, same, fun listed => free (fewer listed), chars⟩

-- What a rule may do to the state of a pass: given names stay given, and the only function that
-- it records is the mean.
structure Grows (s t : PassState) : Prop where
  names : Keeps s.names t.names
  taken : s.names.taken ⊆ t.names.taken
  functions : ∃ new, t.preamble.definitions = s.preamble.definitions ++ new ∧ ∀ d ∈ new, Helping s.names.taken d

theorem Grows.refl (s : PassState) : Grows s s :=
  ⟨.refl _, fun _ listed => listed, [], (List.append_nil _).symm, by simp⟩

theorem Grows.trans {s t u : PassState} (first : Grows s t) (second : Grows t u) : Grows s u := by
  refine ⟨first.names.trans second.names, fun _ listed => second.taken (first.taken listed), ?_⟩
  obtain ⟨new, grown, helping⟩ := first.functions
  obtain ⟨more, again, helps⟩ := second.functions
  refine ⟨new ++ more, by rw [again, grown, List.append_assoc], fun d listed => ?_⟩
  rcases List.mem_append.mp listed with early | late
  · exact helping d early
  · exact (helps d late).fewer first.taken

def Steady {α : Type} (action : Pass α) : Prop := ∀ s, Grows s (action.run s).2

namespace Steady

variable {α β : Type}

theorem pure (a : α) : Steady (pure a) := fun s => .refl s

theorem bind {action : Pass α} {next : α → Pass β} (first : Steady action) (second : ∀ a, Steady (next a)) :
    Steady (action >>= next) := fun s => (first s).trans (second _ _)

theorem variableName? (block : Block) (field : String) : Steady (variableName? block field) :=
  fun s => .refl s

theorem procedureName? (block : Block) (field : String) : Steady (procedureName? block field) :=
  fun s => .refl s

theorem addImport (line : String) : Steady (addImport line) := by
  refine fun s => ⟨.refl s.names, fun _ listed => listed, [], ?_, by simp⟩
  rw [List.append_nil]
  exact definitions_addImport line

theorem claimName (base : String) : Steady (claimName base) :=
  fun s => ⟨.claim s.names base, fun _ listed => List.mem_cons_of_mem _ listed, [], (List.append_nil _).symm, by simp⟩

theorem meanFunction : Steady (helperFunction "math_mean" meanLines) := by
  intro s
  cases known : s.names.helperName? "math_mean" with
  | some name =>
    rw [helperFunction_again known]
    exact .refl s
  | none =>
    rw [helperFunction_first known]
    set new : Definition (List Line) := ⟨"%helper%" ++ "math_mean", true, meanLines (s.names.claim "math_mean").1⟩
    have helping : Helping s.names.taken new :=
      ⟨_, rfl, distinct_free _ _, distinct_chars _ (legalize_word "math_mean").chars⟩
    refine ⟨.remember known, fun _ listed => List.mem_cons_of_mem _ listed, ?_⟩
    rcases definitions_addDefinition s.preamble new with same | added
    · exact ⟨[], same.trans (List.append_nil _).symm, by simp⟩
    · exact ⟨_, added, by simpa using helping⟩

end Steady

-- How a family of actions uses the blocks below a block: what it does by itself, and what it asks of
-- them. The first list bounds the places that it comes by, each as often as it is listed at most.
-- The second list has the chains that it asks for, all of them and in order.
inductive Asking : {α : Type} → List Place → List (Place × Bool) → (Below → Pass α) → Type 1 where
  | own {α : Type} {action : Pass α} (steady : Steady action) : Asking [] [] fun _ => action
  | value (slot : String) : Asking [.input slot] [] fun below => below.value? slot
  | chain (place : Place) (inLoop : Bool) :
      Asking [place] [(place, inLoop)] fun below => below.chainAt place inLoop
  | bind {α β : Type} {ps qs : List Place} {bs cs : List (Place × Bool)} {first : Below → Pass α}
      {next : α → Below → Pass β} (one : Asking ps bs first) (two : ∀ a, Asking qs cs (next a)) :
      Asking (ps ++ qs) (bs ++ cs) fun below => first below >>= fun a => next a below
  | less {α : Type} {ps qs : List Place} {bs cs : List (Place × Bool)} {family family' : Below → Pass α}
      (fewer : ps.Subperm qs) (chains : bs = cs) (same : family = family') (asking : Asking ps bs family) :
      Asking qs cs family'

namespace Asking

variable {α β : Type} {ps : List Place} {bs : List (Place × Bool)}

def done (a : α) : Asking [] [] fun _ => pure a := own (.pure a)

def own_then {action : Pass α} {next : α → Below → Pass β} (steady : Steady action)
    (rest : ∀ a, Asking ps bs (next a)) : Asking ps bs fun below => action >>= fun a => next a below :=
  bind (own steady) rest

def value_then {slot : String} {next : Option Expr → Below → Pass β} (rest : ∀ e, Asking ps bs (next e)) :
    Asking (.input slot :: ps) bs fun below => below.value? slot >>= fun e => next e below :=
  bind (value slot) rest

def chain_then {place : Place} {inLoop : Bool} {next : Chain → Below → Pass β}
    (rest : ∀ chain, Asking ps bs (next chain)) :
    Asking (place :: ps) ((place, inLoop) :: bs) fun below => below.chainAt place inLoop >>= fun c => next c below :=
  bind (chain place inLoop) rest

-- The chains stay the same.
def fitting {qs : List Place} {family family' : Below → Pass α} (fewer : ps.Subperm qs) (same : family = family')
    (asking : Asking ps bs family) : Asking qs bs family' := less fewer rfl same asking

def finish {f : Below → Pass α} (asking : Asking ps bs f) (result : α → β) :
    Asking ps bs fun below => f below >>= fun a => pure (result a) :=
  less (by rw [List.append_nil]) (List.append_nil bs) rfl (bind asking fun a => done (result a))

def valueOr (slot : String) (standIn : Expr) :
    Asking [.input slot] [] fun below => below.valueOr slot standIn := (value slot).finish _

def valueOr_then {slot : String} {standIn : Expr} {next : Expr → Below → Pass β}
    (rest : ∀ e, Asking ps bs (next e)) :
    Asking (.input slot :: ps) bs fun below => below.valueOr slot standIn >>= fun e => next e below :=
  bind (valueOr slot standIn) rest

def valuesOr (standIn : Expr) : (slots : List String) →
    Asking (slots.map .input) [] fun below => below.valuesOr slots standIn
  | [] => done []
  | _ :: rest => valueOr_then fun _ => (valuesOr standIn rest).finish _

def suite (slot : String) (inLoop : Bool) :
    Asking [.body slot] [(.body slot, inLoop)] fun below => below.suite slot inLoop :=
  (chain (.body slot) inLoop).finish _

def suite_then {slot : String} {inLoop : Bool} {next : List Line → Below → Pass β}
    (rest : ∀ lines, Asking ps bs (next lines)) :
    Asking (.body slot :: ps) ((.body slot, inLoop) :: bs)
      fun below => below.suite slot inLoop >>= fun c => next c below :=
  bind (suite slot inLoop) rest

def branchLines (inLoop : Bool) : (count n : Nat) →
    Asking ((List.range' n count).flatMap fun k => [.input (Kind.conditionName k), .body (Kind.branchName k)])
      ((List.range' n count).map fun k => (.body (Kind.branchName k), inLoop))
      fun below => Generation.branchLines below inLoop count n
  | 0, _ => done []
  | count + 1, n => valueOr_then fun _ => suite_then fun _ => (branchLines inLoop count (n + 1)).finish _

end Asking

-- All that the family does by itself is as it should be, whatever it was told before.
def Asking.Each (proper : {α : Type} → Pass α → Prop) {α : Type} {ps : List Place} {bs : List (Place × Bool)}
    {family : Below → Pass α} : Asking ps bs family → Prop
  | @own _ action _ => proper action
  | .value _ => True
  | .chain _ _ => True
  | .bind one two => one.Each proper ∧ ∀ a, (two a).Each proper
  | .less _ _ _ asking => asking.Each proper

-- The chains that the rule of a block asks for.
def chainRequests (block : Block) (inLoop : Bool) : List (Place × Bool) :=
  if block.kind.isDefinition then [] else (bodyPlaces block).map fun place => (place, block.kind.isLoop || inLoop)

-- A loop has one body.
theorem loop_places {block : Block} (loop : block.kind.isLoop = true) : bodyPlaces block = [.body "DO"] := by
  cases kind : block.kind with
  | repeatTimes | whileUntil | countWith | forEach =>
    rw [bodyPlaces, slotPlaces_fixed kind rfl]
    rfl
  | _ =>
    rw [kind] at loop
    cases loop

theorem loop_requests {block : Block} (loop : block.kind.isLoop = true) (inLoop : Bool) :
    chainRequests block inLoop = [(.body "DO", true)] := by
  have plain : block.kind.isDefinition = false := by
    cases kind : block.kind with
    | definition returns =>
      rw [kind] at loop
      cases loop
    | _ => rfl
  rw [chainRequests, plain, loop_places loop, loop]
  rfl

def Asking.fixed {block : Block} {inLoop : Bool} {kind : Kind} (same : block.kind = kind)
    (plain : kind.variadic = none) (other : kind.isDefinition = false) {ps : List Place}
    {family : Below → Pass Code} (fewer : ps.Subperm (kind.fixedSlots.filterMap placeOf?))
    (asking : Asking ps (((kind.fixedSlots.filterMap placeOf?).filter isBody).map
      fun place => (place, kind.isLoop || inLoop)) family)
    (rules : family = fun below => rule block below inLoop := by unfold rule; simp only [*]) :
    Asking (slotPlaces block) (chainRequests block inLoop) fun below => rule block below inLoop :=
  asking.less (by rwa [slotPlaces_fixed same plain])
    (by rw [chainRequests, bodyPlaces, slotPlaces_fixed same plain, same, other]; rfl) rules

-- Rules whose block has as many slots as its extent says.
theorem filter_inputs (names : List String) : (names.map Place.input).filter isBody = [] := by
  rw [List.filter_eq_nil_iff]
  intro place listed
  obtain ⟨name, _, rfl⟩ := List.mem_map.mp listed
  exact Bool.false_ne_true

def Asking.grown {block : Block} {inLoop : Bool} {names : List String}
    (places : slotPlaces block = names.map .input) {ps : List Place} {family : Below → Pass Code}
    (fewer : ps.Subperm (names.map .input)) (asking : Asking ps [] family)
    (rules : family = fun below => rule block below inLoop := by unfold rule; simp only [*]) :
    Asking (slotPlaces block) (chainRequests block inLoop) fun below => rule block below inLoop :=
  asking.less (by rwa [places])
    (by rw [chainRequests, bodyPlaces, places, filter_inputs, List.map_nil, ite_self]) rules

def callAsking (block : Block) :
    Asking (((List.range block.extent.items).map Kind.argumentName).map .input) [] (callValue? block) :=
  .own_then (.procedureName? block "NAME") fun name =>
    match name with
    | none => .fitting List.nil_subperm rfl (.done none)
    | some name => (Asking.valuesOr noneExpr _).finish fun args => some (Expr.apply name args)

def ifAsking (block : Block) (inLoop : Bool) :
    Asking (((List.range' 0 (block.extent.items + 1)).flatMap fun k =>
        [.input (Kind.conditionName k), .body (Kind.branchName k)])
      ++ if block.extent.hasElse then [.body "ELSE"] else [])
      (((List.range' 0 (block.extent.items + 1)).map fun k => (.body (Kind.branchName k), inLoop))
      ++ if block.extent.hasElse then [(.body "ELSE", inLoop)] else [])
      fun below => ifLines block below inLoop :=
  .bind (.branchLines inLoop (block.extent.items + 1) 0) fun branches =>
    match block.extent.hasElse with
    | true => .less (.refl _) rfl rfl (.suite_then fun body => .done (branches ++ .flat "else:" :: body))
    | false => .less (.refl _) rfl rfl (.done branches)

theorem ifRequests {block : Block} (kind : block.kind = .ifElse) (inLoop : Bool) :
    ((List.range' 0 (block.extent.items + 1)).map fun k => (Place.body (Kind.branchName k), inLoop))
      ++ (if block.extent.hasElse then [(.body "ELSE", inLoop)] else []) = chainRequests block inLoop := by
  have bodies : ∀ ks : List Nat, (ks.flatMap fun k => [.input (Kind.conditionName k),
      .body (Kind.branchName k)]).filter isBody = ks.map fun k => Place.body (Kind.branchName k) := by
    intro ks
    induction ks with
    | nil => rfl
    | cons k rest ih =>
      rw [List.map_cons, ← ih]
      rfl
  have last : (if block.extent.hasElse then [Place.body "ELSE"] else []).filter isBody
      = if block.extent.hasElse then [.body "ELSE"] else [] := by
    split <;> rfl
  rw [chainRequests, kind, bodyPlaces, branchPlaces kind, List.filter_append, bodies, last]
  simp only [Kind.isDefinition, Kind.isLoop, Bool.false_eq_true, if_false, Bool.false_or, List.map_append,
    List.map_map]
  congr 1
  split <;> rfl

def listGetAsking (block : Block) : Asking [.input "VALUE", .input "AT"] [] (listGetValue block) :=
  .valueOr_then fun list =>
    if first : block.choiceIn? "WHERE" ≠ some "FROM_START" then
      .fitting List.nil_subperm (by simp only [if_pos first]) (.done (Expr.item list zeroExpr))
    else .fitting (.refl _) (by simp only [if_neg first]; rfl) (.valueOr_then fun position => .done
      (match block.choiceIn? "MODE" with
        | some "GET_REMOVE" | some "REMOVE" => Expr.send list "pop" [position]
        | _ => Expr.item list position))

def listSetAsking (block : Block) :
    Asking [.input "LIST", .input "TO", .input "AT"] [] (listSetLines block) :=
  .valueOr_then fun list => .valueOr_then fun value =>
    if first : block.choiceIn? "WHERE" ≠ some "FROM_START" then
      .fitting List.nil_subperm (by simp only [if_pos first])
        (.done [.flat ((Expr.item list zeroExpr).render ++ " = " ++ value.render)])
    else .fitting (.refl _) (by simp only [if_neg first]; rfl) (.valueOr_then fun position => .done
      (match block.choiceIn? "MODE" with
        | some "INSERT" => [.flat (Expr.send list "insert" [position, value]).render]
        | _ => [.flat ((Expr.item list position).render ++ " = " ++ value.render)]))

-- What some rules do with their last value.
theorem unaryTail_steady {operation : Option String} {first second : Expr} {third : Option String → Expr} :
    Steady (match operation with
      | some "NEG" => pure first
      | some "ABS" => pure second
      | operation => do
        addImport "import math"
        return third operation) := by
  split
  · exact .pure _
  · exact .pure _
  · exact (Steady.addImport _).bind fun _ => .pure _

theorem constantValue_steady (block : Block) : Steady (constantValue block) := by
  unfold constantValue
  split
  · exact .pure _
  · exact (Steady.addImport _).bind fun _ => .pure _

theorem roundTail_steady (operation : Option String) (value : Expr) :
    Steady (match operation with
      | some "ROUNDUP" => do
        addImport "import math"
        return Expr.call (mathMember "ceil") [value]
      | some "ROUNDDOWN" => do
        addImport "import math"
        return Expr.call (mathMember "floor") [value]
      | _ => return Expr.apply "round" [value]) := by
  split
  · exact (Steady.addImport _).bind fun _ => .pure _
  · exact (Steady.addImport _).bind fun _ => .pure _
  · exact .pure _

theorem aggregateTail_steady (operation : Option String) (list : Expr) :
    Steady (match operation with
      | some "MIN" => return Expr.apply "min" [list]
      | some "MAX" => return Expr.apply "max" [list]
      | some "AVERAGE" => do
        addImport "from numbers import Number"
        let mean ← helperFunction "math_mean" meanLines
        return Expr.apply mean [list]
      | some "RANDOM" => do
        addImport "import random"
        return Expr.send (.name "random") "choice" [list]
      | _ => return Expr.apply "sum" [list]) := by
  split
  · exact .pure _
  · exact .pure _
  · exact (Steady.addImport _).bind fun _ => Steady.meanFunction.bind fun _ => .pure _
  · exact (Steady.addImport _).bind fun _ => .pure _
  · exact .pure _

def ruleAsking (block : Block) (inLoop : Bool) :
    Asking (slotPlaces block) (chainRequests block inLoop) fun below => rule block below inLoop :=
  match kind : block.kind with
  | .ifElse => .less (by rw [branchPlaces kind]) (ifRequests kind inLoop) (by unfold rule; simp only [*])
      ((ifAsking block inLoop).finish .statement)
  | .compare => .fixed kind rfl rfl (.refl _)
      (.finish (f := compareValue block) (.valueOr_then fun _ => .valueOr_then fun _ => .done _) .expression)
  | .logical => .fixed kind rfl rfl (.refl _)
      (.finish (f := logicalValue block) (.value_then fun _ => .value_then fun _ => .done _) .expression)
  | .negation => .fixed kind rfl rfl (.refl _)
      ((Asking.valueOr "BOOL" trueExpr).finish fun value => .expression (.negation value))
  | .boolean => .fixed kind rfl rfl (.refl _)
      (.done (.expression (if block.choiceIn? "BOOL" = some "FALSE" then falseExpr else trueExpr)))
  | .null => .fixed kind rfl rfl (.refl _) (.done (.expression noneExpr))
  | .flow => .fixed kind rfl rfl (.refl _) (.done (.statement (flowLines block inLoop)))
  | .number => .fixed kind rfl rfl (.refl _) (.done (.expression (numberValue block)))
  | .comment => .fixed kind rfl rfl (.refl _) (.done (.statement (commentLines (fieldText block))))
  | .text => .fixed kind rfl rfl (.refl _) (.done (.expression (.text (fieldText block))))
  | .ternary => .fixed kind rfl rfl (.refl _)
      (.finish (f := ternaryValue)
        (.valueOr_then fun _ => .valueOr_then fun _ => .valueOr_then fun _ => .done _) .expression)
  | .repeatTimes => .fixed kind rfl rfl (.refl _)
      (.finish (f := repeatLines)
        (.value_then fun _ => .own_then (.claimName _) fun _ => .suite_then fun _ => .done _) .statement)
  | .whileUntil => .fixed kind rfl rfl (.refl _)
      (.finish (f := whileLines block) (.valueOr_then fun _ => .suite_then fun _ => .done _) .statement)
  | .countWith => .fixed kind rfl rfl (.refl _)
      (.finish (f := countLines block) (.own_then (.variableName? _ _) fun _ => .valueOr_then fun _ =>
        .valueOr_then fun _ => .valueOr_then fun _ => .suite_then fun _ => .done _) .statement)
  | .forEach => .fixed kind rfl rfl (.refl _)
      (.finish (f := forEachLines block) (.own_then (.variableName? _ _) fun _ => .valueOr_then fun _ =>
        .suite_then fun _ => .done _) .statement)
  | .arithmetic => .fixed kind rfl rfl (.refl _)
      (.finish (f := arithmeticValue block) (.valueOr_then fun _ => .valueOr_then fun _ => .done _) .expression)
  | .changeBy => .fixed kind rfl rfl (.refl _)
      (.finish (f := changeLines block) (.own_then (.variableName? _ _) fun _ => .valueOr_then fun _ => .done _)
        .statement)
  | .unary => .fixed kind rfl rfl (.refl _)
      (.finish (f := unaryValue block) (.valueOr_then fun _ => .own unaryTail_steady) .expression)
  | .constant => .fixed kind rfl rfl (.refl _)
      (.finish (f := fun _ => constantValue block) (.own (constantValue_steady block)) .expression)
  | .modulo => .fixed kind rfl rfl (.refl _)
      (.finish (f := moduloValue) (.valueOr_then fun _ => .valueOr_then fun _ => .done _) .expression)
  | .round => .fixed kind rfl rfl (.refl _)
      (.finish (f := roundValue block) (.valueOr_then fun _ => .own (roundTail_steady _ _)) .expression)
  | .randomInteger => .fixed kind rfl rfl (.refl _)
      (.finish (f := randomIntegerValue)
        (.own_then (.addImport _) fun _ => .valueOr_then fun _ => .valueOr_then fun _ => .done _) .expression)
  | .randomFraction => .fixed kind rfl rfl (.refl _)
      (.finish (f := fun _ => randomFractionValue) (.own ((Steady.addImport _).bind fun _ => .pure _)) .expression)
  | .aggregate => .fixed kind rfl rfl (.refl _)
      (.finish (f := aggregateValue block) (.valueOr_then fun _ => .own (aggregateTail_steady _ _)) .expression)
  | .textJoin => .grown (itemPlaces (.inl kind)) (.refl _)
      (.finish (f := joinValue block) ((Asking.valuesOr emptyTextExpr _).finish _) .expression)
  | .print => .fixed kind rfl rfl (.refl _)
      (.finish (f := printLines) (.valueOr_then fun _ => .done _) .statement)
  | .textLength => .fixed kind rfl rfl (.refl _)
      ((Asking.valueOr "VALUE" emptyTextExpr).finish fun value => .expression (.apply "len" [value]))
  | .listOf => .grown (itemPlaces (.inr kind)) (.refl _)
      (.finish (f := listValue block) ((Asking.valuesOr noneExpr _).finish _) .expression)
  | .listLength => .fixed kind rfl rfl (.refl _)
      ((Asking.valueOr "VALUE" emptyListExpr).finish fun value => .expression (.apply "len" [value]))
  | .listIsEmpty => .fixed kind rfl rfl (.refl _)
      ((Asking.valueOr "VALUE" emptyListExpr).finish fun value => .expression (.negation (.apply "len" [value])))
  | .listGet => .fixed kind rfl rfl (.refl _) ((listGetAsking block).finish .expression)
  | .listSet => .fixed kind rfl rfl (by decide) ((listSetAsking block).finish .statement)
  | .variableGet => .fixed kind rfl rfl (.refl _)
      (.finish (f := fun _ => variableName? block "VAR") (.own (.variableName? _ _))
        fun name => .expression (.name (name.getD "None")))
  | .variableSet => .fixed kind rfl rfl (.refl _)
      (.finish (f := assignLines block) (.own_then (.variableName? _ _) fun _ => .valueOr_then fun _ => .done _)
        .statement)
  | .definition _ => .less List.nil_subperm (by rw [chainRequests, kind]; rfl) (by unfold rule; simp only [*])
      (.done .nothing)
  | .call true => .grown (argumentPlaces kind) (.refl _)
      ((callAsking block).finish fun call => .expression (call.getD noneExpr))
  | .call false => .grown (argumentPlaces kind) (.refl _)
      (.finish (f := callLines block) ((callAsking block).finish _) .statement)

-- A rule told by its requests may be served by anything that answers them.
structure Service (m : Type → Type) where
  own : {α : Type} → Pass α → m α
  value : String → m (Option Expr)
  chain : Place → Bool → m Chain

def Asking.serve {m : Type → Type} [Monad m] (service : Service m) {α : Type} {ps : List Place}
    {bs : List (Place × Bool)} {family : Below → Pass α} : Asking ps bs family → m α
  | @own _ action _ => service.own action
  | .value slot => service.value slot
  | .chain place inLoop => service.chain place inLoop
  | .bind one two => one.serve service >>= fun a => (two a).serve service
  | .less _ _ _ asking => asking.serve service

-- What is asked of steady blocks is steady, and so is a whole tree of rules.
structure Rendering.Steady (rendering : Rendering) : Prop where
  code : ∀ inLoop, Generation.Steady (rendering.code inLoop)
  chain : ∀ inLoop, Generation.Steady (rendering.chain inLoop)

def Below.Steady (below : Below) : Prop := ∀ place rendering, below.lookup place = some rendering → rendering.Steady

section
variable {below : Below}

theorem Below.Steady.value? (steady : below.Steady) (slot : String) : Generation.Steady (below.value? slot) := by
  unfold Below.value?
  cases hangs : below.lookup (.input slot) with
  | none => exact .pure _
  | some child =>
    refine ((steady _ child hangs).code false).bind fun code => ?_
    split
    · exact .pure _
    · exact .pure _

theorem Below.Steady.chainAt (steady : below.Steady) (place : Place) (inLoop : Bool) :
    Generation.Steady (below.chainAt place inLoop) := by
  unfold Below.chainAt
  cases hangs : below.lookup place with
  | none => exact .pure _
  | some child => exact (steady _ child hangs).chain inLoop

theorem Asking.steady {α : Type} {ps : List Place} {bs : List (Place × Bool)} {family : Below → Pass α}
    (asking : Asking ps bs family) (steady : below.Steady) : Generation.Steady (family below) := by
  induction asking with
  | own own => exact own
  | value slot => exact steady.value? slot
  | chain place inLoop => exact steady.chainAt place inLoop
  | bind _ _ first second => exact first.bind second
  | less _ _ same _ ih => exact same ▸ ih

end

mutual

theorem renderTree_steady : (tree : Tree) → (renderTree tree).Steady
  | .node block branches => by
    have below := renderBranches_steady branches
    have code : ∀ inLoop, Steady (rule block (renderBranches branches) inLoop) :=
      fun inLoop => (ruleAsking block inLoop).steady below
    refine ⟨code, fun inLoop => ?_⟩
    exact (code inLoop).bind fun _ => (below.chainAt .next inLoop).bind fun _ => .pure _

theorem renderBranches_steady : (branches : List (Place × Tree)) → (renderBranches branches).Steady
  | [] => by
    intro place rendering hangs
    cases hangs
  | (place, tree) :: rest => by
    intro other rendering hangs
    rw [renderBranches, List.lookup_cons] at hangs
    split at hangs
    · cases hangs
      exact renderTree_steady tree
    · exact renderBranches_steady rest other rendering hangs

end

end Generation
end Blockwork
