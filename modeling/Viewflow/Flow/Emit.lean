import Viewflow.Flow.Walk

namespace Viewflow.Flow
open Output (Dataset Format Origin Recipe)

-- A forest is written out as datasets, each behind the one it derives from. Steps gather in a pending
-- recipe, which becomes a dataset at an output that somebody asked for, or where the tree forks.
structure Emission where
  datasets : List Dataset
  counter : Nat
  bound : List (NodeId × String)

namespace Emission

def blank : Emission := ⟨[], 0, []⟩

def taken (e : Emission) (name : String) : Bool := (Dataset.names e.datasets).contains name

-- The first of some numbered names that is free. One more candidate than there are names suffices.
def freeNumber (e : Emission) (candidate : Nat → String) : Nat → Nat → Nat
  | 0, n => n
  | fuel + 1, n => if e.taken (candidate n) then e.freeNumber candidate fuel (n + 1) else n

def numbered (name : String) (n : Nat) : String := name ++ "_" ++ toString n

def uniqueName (e : Emission) (name : String) : String :=
  if e.taken name then
    numbered name (e.freeNumber (numbered name) (e.datasets.length + 1) 1)
  else name

def generatedNumber (e : Emission) : Nat :=
  e.freeNumber (numbered "data") (e.datasets.length + 1) e.counter

def emit (e : Emission) (name : String) (r : Recipe) : Emission :=
  { e with datasets := e.datasets ++ [⟨name, r⟩] }

def materialize (e : Emission) (r : Recipe) (preferred : Option String) : String × Emission :=
  match r.alias? with
  | some source => (source, e)
  | none =>
    match preferred with
    | some name =>
      let name := e.uniqueName name
      (name, e.emit name r)
    | none =>
      let number := e.generatedNumber
      let name := numbered "data" number
      (name, { e.emit name r with counter := number + 1 })

end Emission

def sourceRecipe : DataRef → Recipe
  | .remote address format =>
    { origin := .remote address
      format := (format.bind (·.kind)).map fun kind => ⟨some kind, .empty⟩
      transforms := [] }
  | .inline values => ⟨.inline values, none, []⟩
  | .named name => .derived name

def rootRecipe : Step → Recipe
  | .source data => sourceRecipe data
  | _ => .blank

-- A coercion right under a source happens while the data loads, unless something was done to the
-- data before or it is another dataset's.
def foldsIntoFormat (underSource : Bool) (pending : Recipe) : Bool :=
  underSource && pending.origin.source?.isNone && pending.transforms.isEmpty

def withCoercions (pending : Recipe) (fields : Keyed String Coercion) : Recipe :=
  let format := pending.format.getD ⟨none, .empty⟩
  { pending with
    format := some { format with
      coercions := format.coercions.putAll (fields.entries.map fun e => (e.1, e.2.name)) } }

def absorbStep (demand : Demand) (id : NodeId) (underSource : Bool) (pending : Recipe)
    (e : Emission) : Step → Recipe × Emission
  | .source _ => (pending, e)
  | .parse fields =>
    if foldsIntoFormat underSource pending then (withCoercions pending fields, e)
    else ({ pending with transforms := pending.transforms ++ (Step.parse fields).transforms }, e)
  | .output b =>
    if demand.isRequired b.name then
      let (name, e) := e.materialize pending (some b.name)
      (.derived name, { e with bound := e.bound ++ [(id, name)] })
    else (pending, e)
  | step => ({ pending with transforms := pending.transforms ++ step.transforms }, e)

mutual

-- What is pending behind the last output is dropped.
def emitTree (demand : Demand) (underSource : Bool) (pending : Recipe) (e : Emission) :
    Tree → Emission
  | .node id step children =>
    let (pending, e) := absorbStep demand id underSource pending e step
    emitChildren demand step.isSource pending e children

def emitChildren (demand : Demand) (underSource : Bool) (pending : Recipe) (e : Emission) :
    List Tree → Emission
  | [] => e
  | [child] => emitTree demand underSource pending e child
  | first :: second :: rest =>
    let (source, e) := e.materialize pending none
    let e := emitTree demand underSource (.derived source) e first
    let e := emitTree demand underSource (.derived source) e second
    emitBranches demand underSource source e rest

def emitBranches (demand : Demand) (underSource : Bool) (source : String) (e : Emission) :
    List Tree → Emission
  | [] => e
  | child :: rest =>
    emitBranches demand underSource source
      (emitTree demand underSource (.derived source) e child) rest

end

def emitTrees (demand : Demand) (trees : List Tree) : Emission :=
  trees.foldl (fun e t => emitTree demand false (rootRecipe t.step) e t) .blank

namespace Forest

def bindSource (f : Forest) (bound : NodeId × String) : Forest :=
  match f.step bound.1 with
  | .output b => f.setStep bound.1 (.output { b with source := bound.2 })
  | _ => f

def assemble (f : Forest) (demand : Demand) : Forest × List Dataset :=
  let e := emitTrees demand f.trees
  (e.bound.foldl bindSource f, e.datasets)

end Forest
end Viewflow.Flow
