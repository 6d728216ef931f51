import Viewflow.Failure
import Viewflow.Output.Mark
import Viewflow.Selection.Basic
import Viewflow.Text.Printable

namespace Viewflow
open Output (Mark Signal)

-- How one type of selection turns into signals, updates, tests and marks. A new type of selection is a new
-- technique in the registry; nothing else looks at the type.
structure Technique where
  signals : UnitContext → Selection → List Signal
  modifyArguments : UnitContext → Selection → String
  predicate : String
  scaleDomain : String
  topLevelSignals : UnitContext → Selection → List Signal → List Signal := fun _ _ signals => signals
  marks : UnitContext → Selection → List Mark → List Mark := fun _ _ marks => marks

abbrev Registry := Keyed String Technique

namespace Registry

def lookup (r : Registry) (selection type : String) : Except Failure Technique :=
  match r.find? type with
  | some t => .ok t
  | none => .error (.unsupportedType selection type)

def shown (r : Registry) : String := Text.shownList r.keys

end Registry

-- Refinements change what a technique made of a selection. Each says to which selections it applies
-- and leaves alone whatever it has nothing to say about.
structure Refinement where
  name : String
  applies : Selection → Bool
  complete : UnitContext → SelectionDef → Selection → Except Failure Selection :=
    fun _ _ s => .ok s
  signals : UnitContext → Selection → List Signal → List Signal := fun _ _ signals => signals
  topLevelSignals : UnitContext → Selection → List Signal → List Signal := fun _ _ signals => signals
  modifyArguments : UnitContext → Selection → String → String := fun _ _ arguments => arguments
  marks : UnitContext → Selection → List Mark → List Mark := fun _ _ marks => marks

end Viewflow
