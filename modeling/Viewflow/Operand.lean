import Viewflow.Json.Basic
import Viewflow.Text.Basic

namespace Viewflow

inductive Operand (α : Type) where
  | leaf (value : α)
  | not (operand : Operand α)
  | allOf (operands : List (Operand α))
  | anyOf (operands : List (Operand α))

namespace Operand
variable {α β : Type}

mutual

def leaves : Operand α → List α
  | .leaf a => [a]
  | .not o => o.leaves
  | .allOf os => leavesOfEach os
  | .anyOf os => leavesOfEach os

def leavesOfEach : List (Operand α) → List α
  | [] => []
  | o :: rest => o.leaves ++ leavesOfEach rest

end

def parenthesized (part : String) : String := "(" ++ part ++ ")"

def combined (separator nothing : String) (parts : List String) : String :=
  if parts.isEmpty then nothing else Text.joined separator (parts.map parenthesized)

mutual

-- Every leaf is expanded once per occurrence, left to right, in whatever computation expands it.
def renderM {m : Type → Type} [Monad m] (expand : α → m String) : Operand α → m String
  | .leaf a => expand a
  | .not o => do return "!" ++ parenthesized (← o.renderM expand)
  | .allOf os => do return combined " && " "true" (← renderEachM expand os)
  | .anyOf os => do return combined " || " "false" (← renderEachM expand os)

def renderEachM {m : Type → Type} [Monad m] (expand : α → m String) :
    List (Operand α) → m (List String)
  | [] => return []
  | o :: rest => do
    let part ← o.renderM expand
    let parts ← renderEachM expand rest
    return part :: parts

end

def render (expand : α → String) (o : Operand α) : String := Id.run (o.renderM fun a => expand a)

mutual

def map (f : α → β) : Operand α → Operand β
  | .leaf a => .leaf (f a)
  | .not o => .not (o.map f)
  | .allOf os => .allOf (mapEach f os)
  | .anyOf os => .anyOf (mapEach f os)

def mapEach (f : α → β) : List (Operand α) → List (Operand β)
  | [] => []
  | o :: rest => o.map f :: mapEach f rest

end

mutual

def same [BEq α] : Operand α → Operand α → Bool
  | .leaf a, .leaf b => a == b
  | .not a, .not b => a.same b
  | .allOf as, .allOf bs => sameEach as bs
  | .anyOf as, .anyOf bs => sameEach as bs
  | _, _ => false

def sameEach [BEq α] : List (Operand α) → List (Operand α) → Bool
  | [], [] => true
  | a :: as, b :: bs => a.same b && sameEach as bs
  | _, _ => false

end

mutual

def toJson : Operand String → Json
  | .leaf s => .str s
  | .not o => .obj [("not", o.toJson)]
  | .allOf os => .obj [("and", .arr (eachToJson os))]
  | .anyOf os => .obj [("or", .arr (eachToJson os))]

def eachToJson : List (Operand String) → List Json
  | [] => []
  | o :: rest => o.toJson :: eachToJson rest

end

structure FieldReading where
  key : String
  one : Option (Operand String)
  many : Option (List (Operand String))

-- A field that is named twice reads as nothing.
def FieldReading.at? (readings : List FieldReading) (key : String) : Option FieldReading :=
  match readings.filter fun r => r.key = key with
  | [r] => some r
  | _ => none

def ofReadings? (readings : List FieldReading) : Option (Operand String) :=
  let negated := (FieldReading.at? readings "not").bind (·.one)
  let every := (FieldReading.at? readings "and").bind (·.many)
  let either := (FieldReading.at? readings "or").bind (·.many)
  match negated, every, either with
  | some o, _, _ => some (.not o)
  | none, some os, _ => some (.allOf os)
  | none, none, some os => some (.anyOf os)
  | none, none, none => none

mutual

def ofJson? : Json → Option (Operand String)
  | .str s => some (.leaf s)
  | .obj fields => ofReadings? (readFields fields)
  | _ => none

def readFields : List (String × Json) → List FieldReading
  | [] => []
  | (key, value) :: rest => ⟨key, ofJson? value, manyOfJson? value⟩ :: readFields rest

def manyOfJson? : Json → Option (List (Operand String))
  | .arr items => eachOfJson? items
  | _ => none

def eachOfJson? : List Json → Option (List (Operand String))
  | [] => some []
  | item :: rest => do
    let o ← ofJson? item
    let os ← eachOfJson? rest
    return o :: os

end

end Operand
end Viewflow
