import Vivarium.Ron.Reader
import Vivarium.Value

/-! # Reading values

A value in object notation: the name of its type and the payload in parentheses. A list or a map
nests at most as deep as the notation allows, 128 levels, of which each value takes up to four.
-/

namespace Vivarium

namespace Value

open Ron (Reader)

def readPayload (name : String) (inner : Option (Reader Value)) : Reader Value :=
  let inner := inner.getD .fail
  match name with
  | "Bool" => .bool <$> Ron.boolean
  | "Int" => (fun i => .int (Int64.ofInt i)) <$> Ron.integer (Ron.signed 64)
  | "Float" => .float <$> Ron.float
  | "String" => .string <$> Ron.string
  | "Id" => do
    match Uuid.parse? (← Ron.string) with
    | some u => .pure (.id (.chosen u))
    | none => .fail
  | "List" => .list <$> Ron.delimited "[" "]" inner
  | "Map" => ofEntries <$> Ron.delimited "\x7b" "\x7d" (Ron.entry Ron.string fun _ => inner)
  | _ => .fail

/-- Whether a type's payload takes a level of nesting of its own. -/
def nests (name : String) : Bool := name == "List" || name == "Map"

/-- Reads a value with `depth` levels left: one for the value, one for its payload, and for a list
or a map one for the items and one for each item. -/
def read : Nat → Reader Value
  | depth + 2 => do
    Ron.blanks
    let name ← Ron.identifier
    Ron.blanks
    Ron.expect "("
    Ron.blanks
    let inner : Option (Reader Value) := match depth with
      | depth + 2 => some (read depth)
      | _ => none
    if nests name && depth == 0 then .fail
    else
      let v ← readPayload name inner
      let _ ← Ron.comma?
      Ron.expect ")"
      .pure v
  | _ => .fail

def ofRon? (text : String) : Option Value := Ron.read? (fun _ => read 128) text

end Value

end Vivarium
