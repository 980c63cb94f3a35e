import Blockwork.Text.Spacing

-- Lines of a program with their depth, and their text for a unit of indentation.
namespace Blockwork.Python

structure Line where
  depth : Nat
  content : String
  deriving DecidableEq

def Line.flat (content : String) : Line := ⟨0, content⟩

def deeper (lines : List Line) : List Line := lines.map fun line => { line with depth := line.depth + 1 }

def indent (unit : String) (s : String) : String :=
  String.join ((Text.lines s).map fun line => if Text.allBlank line then "\n" else unit ++ line ++ "\n")

def indentTo (unit : String) : Nat → String → String
  | 0, s => s
  | depth + 1, s => indent unit (indentTo unit depth s)

def Line.text (unit : String) (line : Line) : String := indentTo unit line.depth (line.content ++ "\n")

def linesText (unit : String) (lines : List Line) : String := String.join (lines.map (·.text unit))

-- What stands before the main text of a program: imports and definitions, each
-- recorded once. Only functions are written out.
structure Definition (α : Type) where
  key : String
  isFunction : Bool
  body : α

structure Preamble (α : Type) where
  imports : List String
  definitions : List (Definition α)

namespace Preamble

variable {α : Type}

def empty : Preamble α := ⟨[], []⟩

def addImport (preamble : Preamble α) (line : String) : Preamble α :=
  if preamble.imports.contains line then preamble
  else { preamble with imports := preamble.imports ++ [line] }

-- The key, or the very same definition, is there already.
def records [DecidableEq α] (preamble : Preamble α) (key : String) (body : α) : Bool :=
  preamble.definitions.any fun d => d.key == key || decide (d.body = body)

def addDefinition [DecidableEq α] (preamble : Preamble α) (definition : Definition α) : Preamble α :=
  if preamble.records definition.key definition.body then preamble
  else { preamble with definitions := preamble.definitions ++ [definition] }

def hasDefinition (preamble : Preamble α) (key : String) : Bool :=
  preamble.definitions.any (·.key == key)

def functions (preamble : Preamble α) : List α :=
  (preamble.definitions.filter (·.isFunction)).map (·.body)

end Preamble

def endLine (s : String) : String :=
  String.ofList ((s.toList.reverse.dropWhile (· == '\n')).reverse ++ ['\n'])

-- Joins imports, functions and the main text with empty lines between them. What is
-- empty is left out, and an empty program does nothing.
def assemble (imports functions : List String) (main : String) : String :=
  let sections :=
    (if imports.isEmpty then [] else [String.join (imports.map (· ++ "\n"))])
      ++ (if functions.isEmpty then [] else [String.intercalate "\n" (functions.map endLine)])
      ++ (if Text.allBlank main then [] else [endLine main])
  if sections.isEmpty then "pass\n" else String.intercalate "\n" sections

end Blockwork.Python
