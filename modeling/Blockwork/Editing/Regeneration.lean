import Blockwork.Collaboration.Board
import Blockwork.Generation.Program
import Blockwork.Snapshot.Capture

-- Keeping source text in step with a graph: a driver makes one numbered
-- generation for every change it hears of.
namespace Blockwork.Editing

open Collaboration

structure Generation where
  sequence : Nat
  snapshot : Snapshot.Form
  source : String

inductive Sink where
  | record
  | dispatch
  deriving DecidableEq

structure Driver where
  options : Options
  sink : Sink
  sequence : Nat
  attached : Bool
  deriving DecidableEq

-- Makes the next generation. A pass that is asked for from within a pass does not
-- happen.
def Driver.pass (driver : Driver) (g : Graph) : Driver × Generation :=
  let sequence := driver.sequence + 1
  ({ driver with sequence := sequence },
    ⟨sequence, Snapshot.capture g, Generation.compile g driver.options⟩)

def Generation.request (generation : Generation) : Request :=
  ⟨generation.sequence, .analyze, generation.source⟩

end Blockwork.Editing
