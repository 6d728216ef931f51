import Viewflow.Selection.Technique

namespace Viewflow.Point
open Output (Handler Signal)

def channelText (p : Projection) : String :=
  match p.channel? with
  | some c => Text.quote c.name
  | none => "null"

def tupleUpdate (ctx : UnitContext) (s : Selection) : String :=
  let encodings := Text.joined ", " (s.project.map channelText)
  let fields := Text.joined ", " (s.project.map fun p => Text.quote p.fieldName)
  let values := Text.joined ", "
    (s.project.map fun p => Text.AccessPath.guarded p.fieldName s.datum)
  "datum && item().mark.marktype !== 'group' ? \x7bunit: " ++ ctx.quotedUnit ++
    ", encodings: [" ++ encodings ++ "], fields: [" ++ fields ++ "], values: [" ++ values ++
    "]\x7d : null"

def signals (ctx : UnitContext) (s : Selection) : List Signal :=
  [{ name := s.tuple
     value := some (.obj [])
     handlers := [{ events := s.events, update := tupleUpdate ctx s, force := true }] }]

-- What a change removes from the store: as much as told for a global selection, else the tuples of
-- the view.
def removal (ctx : UnitContext) (s : Selection) (forGlobal : String) : String :=
  match s.resolve with
  | .global => forGlobal
  | _ => "\x7bunit: " ++ ctx.quotedUnit ++ "\x7d"

def single : Technique where
  signals := signals
  modifyArguments := fun ctx s => s.tuple ++ ", " ++ removal ctx s "true"
  predicate := "vlSingle"
  scaleDomain := "vlSingleDomain"

def multi : Technique where
  signals := signals
  modifyArguments := fun ctx s => s.tuple ++ ", " ++ removal ctx s "null"
  predicate := "vlMulti"
  scaleDomain := "vlMultiDomain"

end Viewflow.Point
