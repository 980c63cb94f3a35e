import Blockwork.Graph.Tree
import Blockwork.Python.Expr
import Blockwork.Python.Layout
import Blockwork.Python.NameTable

-- One pass of generation. It carries the table of names and what has been
-- hoisted so far; the order in which blocks are visited decides both. Every
-- block below another is at hand as an action that the rule of the upper block
-- runs when, and if, its text is needed.
namespace Blockwork.Generation

open Python

structure PassState where
  names : NameTable
  preamble : Preamble (List Line)

abbrev Pass := StateM PassState

inductive Code where
  | expression (e : Expr)
  | statement (lines : List Line)
  | nothing

structure Chain where
  lines : List Line
  acts : Bool

def Chain.empty : Chain := ⟨[], false⟩

def Chain.append (first second : Chain) : Chain :=
  ⟨first.lines ++ second.lines, first.acts || second.acts⟩

-- A block by itself, and with the statements after it. Both depend on whether a loop is
-- around.
structure Rendering where
  code : Bool → Pass Code
  chain : Bool → Pass Chain

abbrev Below := List (Place × Rendering)

def addImport (line : String) : Pass Unit :=
  modify fun s => { s with preamble := s.preamble.addImport line }

def addFunction (key : String) (lines : List Line) : Pass Unit :=
  modify fun s => { s with preamble := s.preamble.addDefinition ⟨key, true, lines⟩ }

def claimName (base : String) : Pass String := do
  let s ← get
  let (name, names) := s.names.claim base
  set { s with names := names }
  return name

def helperFunction (key : String) (define : String → List Line) : Pass String := do
  match (← get).names.helperName? key with
  | some name => return name
  | none =>
    let name ← claimName key
    modify fun s => { s with names := s.names.remember key name }
    addFunction ("%helper%" ++ key) (define name)
    return name

def variableName? (block : Block) (field : String) : Pass (Option String) := do
  let s ← get
  return (block.variableIn? field).bind s.names.variableName?

def procedureName? (block : Block) (field : String) : Pass (Option String) := do
  let s ← get
  return (block.procedureIn? field).bind s.names.procedureName?

namespace Below

def value? (below : Below) (slot : String) : Pass (Option Expr) := do
  match below.lookup (.input slot) with
  | none => return none
  | some child =>
    match ← child.code false with
    | .expression e => return some e
    | _ => return none

def valueOr (below : Below) (slot : String) (standIn : Expr) : Pass Expr := do
  return (← below.value? slot).getD standIn

def valuesOr (below : Below) (slots : List String) (standIn : Expr) : Pass (List Expr) :=
  match slots with
  | [] => return []
  | slot :: rest => do
    let first ← below.valueOr slot standIn
    let others ← below.valuesOr rest standIn
    return first :: others

def chainAt (below : Below) (place : Place) (inLoop : Bool) : Pass Chain :=
  match below.lookup place with
  | some child => child.chain inLoop
  | none => return .empty

-- An indented body. One that does nothing says so.
def suite (below : Below) (slot : String) (inLoop : Bool) : Pass (List Line) := do
  let chain ← below.chainAt (.body slot) inLoop
  return deeper (chain.lines ++ if chain.acts then [] else [.flat "pass"])

end Below
end Blockwork.Generation
