import Mathlib.Tactic.Common

/-!
# Values of JSON

A value over the strings that a program has: texts, or the bytes of a C++ string. Of a real number only its text
matters.
-/

namespace PinpointAgent.Framework

inductive JsonTree (α : Type) where
  | null
  | bool (b : Bool)
  | int (n : Int)
  | uint (n : Nat)
  | real (text : α)
  | str (s : α)
  | arr (items : List (JsonTree α))
  | obj (members : List (α × JsonTree α))

namespace JsonTree

variable {α β : Type} (f : α → β)

mutual

def map : JsonTree α → JsonTree β
  | .null => .null
  | .bool b => .bool b
  | .int n => .int n
  | .uint n => .uint n
  | .real text => .real (f text)
  | .str s => .str (f s)
  | .arr items => .arr (mapItems items)
  | .obj members => .obj (mapMembers members)

def mapItems : List (JsonTree α) → List (JsonTree β)
  | [] => []
  | v :: items => map v :: mapItems items

def mapMembers : List (α × JsonTree α) → List (β × JsonTree β)
  | [] => []
  | (key, v) :: members => (f key, map v) :: mapMembers members

end

end JsonTree

end PinpointAgent.Framework
