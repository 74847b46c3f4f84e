import Vivarium.Data.Entries
import Vivarium.Identity.EntityId
import Vivarium.Number.Binary64

/-! # Attribute values

The dynamic values that attributes hold, their types, and equality. Equality compares floats as
floating-point numbers and maps regardless of the order of their keys.
-/

namespace Vivarium

inductive AttributeType
  | bool
  | int
  | float
  | string
  | id
  | list
  | map
  deriving DecidableEq, Repr, Inhabited

namespace AttributeType

def all : List AttributeType := [.bool, .int, .float, .string, .id, .list, .map]

def name : AttributeType → String
  | .bool => "bool"
  | .int => "int"
  | .float => "float"
  | .string => "string"
  | .id => "id"
  | .list => "list"
  | .map => "map"

def rank : AttributeType → Nat
  | .bool => 0
  | .int => 1
  | .float => 2
  | .string => 3
  | .id => 4
  | .list => 5
  | .map => 6

end AttributeType

inductive Value
  | bool (b : Bool)
  | int (i : Int64)
  | float (x : Binary64)
  | string (s : String)
  | id (id : EntityId)
  | list (items : List Value)
  | map (entries : List (String × Value))
  deriving Inhabited

namespace Value

def type : Value → AttributeType
  | .bool _ => .bool
  | .int _ => .int
  | .float _ => .float
  | .string _ => .string
  | .id _ => .id
  | .list _ => .list
  | .map _ => .map

def bool? : Value → Option Bool
  | .bool b => some b
  | _ => none

def int? : Value → Option Int64
  | .int i => some i
  | _ => none

/-- An integer is read as the float nearest to it. -/
def float? : Value → Option Binary64
  | .float x => some x
  | .int i => some (Binary64.ofInt i.toInt)
  | _ => none

def string? : Value → Option String
  | .string s => some s
  | _ => none

def id? : Value → Option EntityId
  | .id i => some i
  | _ => none

def list? : Value → Option (List Value)
  | .list vs => some vs
  | _ => none

def map? : Value → Option (List (String × Value))
  | .map es => some es
  | _ => none

/-- A map from pairs in order; a repeated key takes the later value at the earlier place. -/
def ofEntries (ps : List (String × Value)) : Value := .map (Entries.ofList ps)

mutual

def equal : Value → Value → Bool
  | .bool a, .bool b => a == b
  | .int a, .int b => a == b
  | .float a, .float b => a.equal b
  | .string a, .string b => a == b
  | .id a, .id b => a == b
  | .list as, .list bs => equalItems as bs
  | .map as, .map bs => as.length == bs.length && equalEntries as bs
  | _, _ => false

def equalItems : List Value → List Value → Bool
  | [], [] => true
  | a :: as, b :: bs => equal a b && equalItems as bs
  | _, _ => false

/-- Every entry of the first list is found in the second. -/
def equalEntries : List (String × Value) → List (String × Value) → Bool
  | [], _ => true
  | (k, a) :: as, bs =>
    (match Entries.get? k bs with
      | some b => equal a b
      | none => false) && equalEntries as bs

end

end Value

end Vivarium
