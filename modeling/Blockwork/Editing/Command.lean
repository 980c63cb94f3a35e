import Blockwork.Editing.Regeneration
import Blockwork.Snapshot.Restore

-- What can be asked of an editing session, and what it answers.
namespace Blockwork.Editing

open Collaboration

inductive Complaint where
  | unknownKind
  -- The field is missing, of the wrong type, or names nothing that was handed out.
  | badField (name : String)
  deriving DecidableEq

inductive Query where
  | state
  | block (id : BlockId)
  | variableById (id : VariableId)
  | variableByName (name : String)
  | procedure (id : ProcedureId)
  | validate
  | isBatching
  | describe
  | compile (options : Options)
  | snapshot (pretty : Bool)
  | roundTrip
  | board
  deriving DecidableEq

inductive Command where
  | edit (e : Edit)
  | load (json : String)
  | batch (commands : List Command) (tolerate fail : Bool)
  | replace (commands : List Command)
  | query (q : Query)
  | subscribe
  | unsubscribe (handle : Nat)
  | attachDriver (options : Options) (sink : Sink)
  | regenerate (driver : Nat)
  | driverSequence (driver : Nat)
  | detachDriver (driver : Nat)
  | issue (endpoint : Endpoint) (code : String) (sequence : Nat)
  | issueRun (code : String)
  | completeAnalysis (sequence : Nat) (outcome : Except ServiceError Analysis)
  | completeRun (sequence : Nat) (outcome : Except ServiceError Execution)
  | unreadable (complaint : Complaint)

-- Whether a graph survives being saved and loaded. `inText` is the same through JSON
-- text.
structure RoundTrip where
  equal : Bool
  sameSource : Bool
  inText : Except Snapshot.LoadError Bool

inductive Reply where
  | done
  | edited (reply : EditReply)
  | state (g : Graph)
  | block (found : Option Block)
  | variableById (found : Option Variable)
  | variableByName (found : Option Variable)
  | procedure (found : Option Procedure)
  | flag (value : Bool)
  | text (value : String)
  | handle (value : Nat)
  | sequence (value : Option Nat)
  | detached (value : Option Bool)
  | roundTrip (result : RoundTrip)
  | board (board : Board)
  | issued (request : Request) (board : Board)
  | completed (accepted : Bool) (board : Board)

inductive Failure where
  | edit (error : EditError)
  | load (error : Snapshot.LoadError)
  | complaint (complaint : Complaint)
  deriving DecidableEq

inductive Event where
  | called (observer : Nat) (graph : Graph)
  | generated (driver : Nat) (generation : Generation)
  | requested (driver : Nat) (request : Request)

structure Aftermath where
  size : Nat
  roots : List BlockId
  events : List Event

inductive Step where
  | single (answer : Except Failure Reply) (after : Aftermath)
  | batch (committed : Bool) (steps : List Step) (after : Aftermath)
  | replaced (steps : List Step) (after : Aftermath)

def Step.succeeded : Step → Bool
  | .single (.ok _) _ => true
  | .single (.error _) _ => false
  | .batch committed _ _ => committed
  | .replaced _ _ => true

end Blockwork.Editing
