import Blockwork.Generation.Statements
import Blockwork.Json.Record
import Blockwork.Json.Writer

-- Settings of a generation pass.
namespace Blockwork

structure Options where
  indent : String := "  "
  deriving DecidableEq

namespace Options

def ofWidth (width : Nat) : Options := ⟨String.ofList (List.replicate width ' ')⟩

def reading : Json.Reading Options
  | depth + 1, document => do
    match ← document.record? [["indent"]] with
    | [indent] => return ⟨← Json.Reading.withDefault .text ({} : Options).indent depth indent⟩
    | _ => none
  | _, _ => none

def read? (s : String) : Option Options := (Json.Document.read? s).bind (reading Json.depthLimit)

def toJson (options : Options) : Json := .object [("indent", .text options.indent)]

end Options
end Blockwork

-- The program of a graph: chains in the order of the roots, then the
-- definitions of the procedures, and before all what they hoist.
namespace Blockwork.Generation

open Python

def Code.toChain (kind : Kind) : Code → Chain
  | .expression e => ⟨[.flat e.render], true⟩
  | .statement lines => ⟨lines, !lines.isEmpty && decide (kind ≠ .comment)⟩
  | .nothing => .empty

mutual

def renderTree : Tree → Rendering
  | .node block branches =>
    let below := renderBranches branches
    { code := rule block below
      chain := fun inLoop => do
        let code ← rule block below inLoop
        let rest ← below.chainAt .next inLoop
        return (code.toChain block.kind).append rest }

def renderBranches : List (Place × Tree) → Below
  | [] => []
  | (place, tree) :: rest => (place, renderTree tree) :: renderBranches rest

end

def reservedNames (block : Block) : List String :=
  match block.kind with
  | .repeatTimes => ["range", "int"]
  | .countWith => ["range"]
  | .number =>
    match block.fields.get? "NUM" with
    | some (.number value) => if value.isFinite then [] else ["float"]
    | _ => []
  | .unary => ["math", "abs"]
  | .constant => ["math", "float"]
  | .round => ["math", "round"]
  | .randomInteger | .randomFraction => ["random"]
  | .aggregate =>
    match block.choiceIn? "OP" with
    | some "MIN" => ["min"]
    | some "MAX" => ["max"]
    | some "AVERAGE" => ["sum", "len", "float", "isinstance", "Number"]
    | some "RANDOM" => ["random"]
    | _ => ["sum"]
  | .textJoin => ["str", "map"]
  | .print => ["print"]
  | .textLength | .listLength | .listIsEmpty => ["len"]
  | .listSet => ["list"]
  | _ => []

-- Names that users' names keep clear of, whether their block is rendered or not.
def reservedIn (g : Graph) : List String := (g.blocks.values.flatMap reservedNames).eraseDups

-- Chains of the roots that are not definitions. Those without lines are left out.
def mainChains : List Tree → Pass (List (List Line))
  | [] => return []
  | tree :: rest => do
    if tree.block.kind.isDefinition then mainChains rest
    else
      let chain ← (renderTree tree).chain false
      let others ← mainChains rest
      return if chain.lines.isEmpty then others else chain.lines :: others

def define (g : Graph) (definition : Block) : Pass Unit := do
  match (definition.procedureIn? "NAME").bind g.procedureWith? with
  | none => return ()
  | some procedure =>
    let names := (← get).names
    let name := (names.procedureName? procedure.id).getD "unnamed"
    let params := procedure.params.map fun param => (names.variableName? param).getD noTarget
    let below := renderBranches (g.tree definition).branches
    let body ← below.chainAt (.body "STACK") false
    let result ← if definition.kind = .definition true then below.value? "RETURN" else pure none
    let last := match result with
      | some value => [.flat ("return " ++ value.render)]
      | none => if body.acts then [] else [.flat "pass"]
    addFunction ("%procedure%" ++ procedure.id.text)
      (.flat ("def " ++ name ++ "(" ++ String.intercalate ", " params ++ "):")
        :: deeper (body.lines ++ last))

def defineAll (g : Graph) : List Procedure → Pass Unit
  | [] => return ()
  | procedure :: rest => do
    match g.block? procedure.definition with
    | some definition => define g definition
    | none => pure ()
    defineAll g rest

structure Program where
  imports : List String
  functions : List (List Line)
  chains : List (List Line)

def programPass (g : Graph) : Pass (List (List Line)) := do
  let chains ← mainChains g.forest
  defineAll g g.procedures
  return chains

-- Declarations of the variables. They are on record before anything else, and are never printed.
def declarations (g : Graph) (names : NameTable) : List Line :=
  (g.vars.filterMap fun v => names.variableName? v.id).map fun name => .flat (name ++ " = None")

def PassState.start (g : Graph) (reserved : List String) : PassState :=
  let names := .build g reserved
  let declared := declarations g names
  ⟨names, if declared.isEmpty then .empty else Preamble.empty.addDefinition ⟨"variables", false, declared⟩⟩

def program (g : Graph) : Program :=
  let (chains, final) := (programPass g).run (.start g (reservedIn g))
  ⟨final.preamble.imports, final.preamble.functions, chains⟩

def Program.text (program : Program) (options : Options) : String :=
  assemble program.imports (program.functions.map (linesText options.indent))
    (String.intercalate "\n" (program.chains.map (linesText options.indent)))

def compile (g : Graph) (options : Options) : String := (program g).text options

end Blockwork.Generation
