import Vivarium.Value
import Vivarium.Number.Shortest

/-! # The text of a value

Strings stand in quotes without any escaping, lists in brackets and maps in braces.
-/

namespace Vivarium

namespace Value

mutual

def text (shown : Nat → String) : Value → String
  | .bool b => if b then "true" else "false"
  | .int i => toString i.toInt
  | .float x => x.text
  | .string s => "\"" ++ s ++ "\""
  | .id i => i.text shown
  | .list vs => "[" ++ String.intercalate ", " (itemTexts shown vs) ++ "]"
  | .map es => "\x7b" ++ String.intercalate ", " (entryTexts shown es) ++ "\x7d"

def itemTexts (shown : Nat → String) : List Value → List String
  | [] => []
  | v :: vs => text shown v :: itemTexts shown vs

def entryTexts (shown : Nat → String) : List (String × Value) → List String
  | [] => []
  | (k, v) :: es => (k ++ ": " ++ text shown v) :: entryTexts shown es

end

end Value

end Vivarium
