import Mathlib.Data.Rat.Defs

/-! Values of documents, with whole numbers and others, and what their readers ask of them. -/

namespace SkillRanker.Library

/-- A number with a fraction, as a machine holds it. -/
inductive Double
  | finite (value : ℚ)
  | nonFinite
deriving DecidableEq

inductive Value
  | null
  | bool (value : Bool)
  | whole (value : Int)
  | real (value : ℚ)
  | string (text : String)
  | array (items : List Value)
  | object (members : List (String × Value))

namespace Value

def isNull : Value → Bool
  | .null => true
  | _ => false

def asU64 : Value → Option Nat
  | .whole (.ofNat value) => if value < UInt64.size then some value else none
  | _ => none

def asF64 : Value → Option Double
  | .whole value => some (.finite value)
  | .real value => some (.finite value)
  | _ => none

def asStr : Value → Option String
  | .string text => some text
  | _ => none

def asArray : Value → Option (List Value)
  | .array items => some items
  | _ => none

def asObject : Value → Option (List (String × Value))
  | .object members => some members
  | _ => none

def get (name : String) : Value → Option Value
  | .object members => members.lookup name
  | _ => none

/-- A number without a value in documents is written as null. -/
def ofDouble : Double → Value
  | .finite value => .real value
  | .nonFinite => .null

/-- An absent value is written as null. -/
def ofOption {α : Type} (write : α → Value) : Option α → Value
  | some value => write value
  | none => .null

theorem asU64_natCast {value : Nat} (bounded : value < UInt64.size)
    : asU64 (.whole value) = some value :=
  if_pos bounded

end Value

end SkillRanker.Library
