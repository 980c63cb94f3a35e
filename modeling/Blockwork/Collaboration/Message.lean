import Blockwork.Json.Record
import Blockwork.Json.Writer

-- Messages to and from the service that analyses and runs programs.
namespace Blockwork.Collaboration

open Json

structure AnalysisLine where
  lineOfCode : String
  complexity : String
  indent : Nat
  color : String
  deriving DecidableEq

structure Analysis where
  status : String
  total : String
  lines : List AnalysisLine
  deriving DecidableEq

structure Execution where
  status : String
  output : String
  deriving DecidableEq

inductive ServiceError where
  | unreachable (reason : String)
  | failed (reason : String)
  | malformed
  deriving DecidableEq

def ServiceError.message : ServiceError → String
  | .unreachable reason => s!"Collaborator unreachable: {reason}"
  | .failed reason => s!"Collaborator reported failure: {reason}"
  | .malformed => "Malformed collaborator response"

def succeeded (status : String) : Bool := status == "success"

def Analysis.isSuccess (analysis : Analysis) : Bool := succeeded analysis.status

def Execution.isSuccess (execution : Execution) : Bool := succeeded execution.status

-- The indentation has two names.
def AnalysisLine.reading : Reading AnalysisLine
  | depth + 1, document => do
    match ← document.record? [["lineOfCode"], ["complexity"], ["indent", "indentLevel"], ["color"]] with
    | [lineOfCode, complexity, indent, color] =>
      return {
        lineOfCode := ← Reading.required .text depth lineOfCode
        complexity := ← Reading.required .text depth complexity
        indent := ← Reading.withDefault (.natBelow UInt32.size) 0 depth indent
        color := ← Reading.withDefault .text "" depth color }
    | _ => none
  | _, _ => none

def Analysis.reading : Reading Analysis
  | depth + 1, document => do
    match ← document.record? [["status"], ["total"], ["lines"]] with
    | [status, total, lines] =>
      return {
        status := ← Reading.required .text depth status
        total := ← Reading.withDefault .text "" depth total
        lines := ← Reading.withDefault (.list AnalysisLine.reading) [] depth lines }
    | _ => none
  | _, _ => none

def Execution.reading : Reading Execution
  | depth + 1, document => do
    match ← document.record? [["status"], ["output"]] with
    | [status, output] =>
      return {
        status := ← Reading.required .text depth status
        output := ← Reading.withDefault .text "" depth output }
    | _ => none
  | _, _ => none

def Analysis.read? (s : String) : Option Analysis := (Document.read? s).bind (Analysis.reading depthLimit)

def Execution.read? (s : String) : Option Execution :=
  (Document.read? s).bind (Execution.reading depthLimit)

def answered {α : Type} : Option α → Except ServiceError α
  | some answer => .ok answer
  | none => .error .malformed

def AnalysisLine.toJson (line : AnalysisLine) : Json :=
  .object [("lineOfCode", .text line.lineOfCode), ("complexity", .text line.complexity),
    ("indent", .number (.integer line.indent)), ("color", .text line.color)]

def Analysis.toJson (analysis : Analysis) : Json :=
  .object [("status", .text analysis.status), ("total", .text analysis.total),
    ("lines", .array (analysis.lines.map AnalysisLine.toJson))]

def Execution.toJson (execution : Execution) : Json :=
  .object [("status", .text execution.status), ("output", .text execution.output)]

inductive Endpoint where
  | analyze
  | run
  deriving DecidableEq

def Endpoint.path : Endpoint → String
  | .analyze => "/analyze"
  | .run => "/run"

structure Request where
  sequence : Nat
  endpoint : Endpoint
  code : String
  deriving DecidableEq

def Request.body (request : Request) : String :=
  (Json.object [("code", .text request.code)]).compact

end Blockwork.Collaboration
