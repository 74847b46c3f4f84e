import Vivarium.Ron.Character
import Vivarium.Number.Binary64

/-! # Reading object notation

Readers for the tokens of the object notation (RON): blanks and comments, identifiers, numbers,
strings and delimited lists. A reader takes the characters that are left and fails without saying
why. Which token is looked for is decided by what the text is read as, so `3` is read as an integer
or as a float.
-/

namespace Vivarium

namespace Ron

abbrev Reader (α : Type) := List Char → Option (α × List Char)

namespace Reader

def pure {α : Type} (a : α) : Reader α := fun cs => some (a, cs)

def fail {α : Type} : Reader α := fun _ => none

def bind {α β : Type} (r : Reader α) (f : α → Reader β) : Reader β := fun cs =>
  match r cs with
  | some (a, rest) => f a rest
  | none => none

def orElse {α : Type} (r : Reader α) (s : Unit → Reader α) : Reader α := fun cs =>
  match r cs with
  | some x => some x
  | none => s () cs

instance : Monad Reader where
  pure := pure
  bind := bind

instance {α : Type} : OrElse (Reader α) := ⟨orElse⟩

end Reader

def startsWith (text : String) (cs : List Char) : Bool := text.toList.isPrefixOf cs

/-- Whether the next characters are `text` and no identifier goes on after them. -/
def startsWithWord (text : String) (cs : List Char) : Bool :=
  startsWith text cs &&
    match cs.drop text.length with
    | c :: _ => !isContinue c
    | [] => true

/-- Whether a test holds of what is left. -/
def ahead (test : List Char → Bool) : Reader Bool := fun cs => some (test cs, cs)

/-- Drops `text` if it is next. -/
def skip? (text : String) : Reader Bool := fun cs =>
  if startsWith text cs then some (true, cs.drop text.length) else some (false, cs)

def skipWord? (text : String) : Reader Bool := fun cs =>
  if startsWithWord text cs then some (true, cs.drop text.length) else some (false, cs)

def expect (text : String) : Reader Unit := do
  if ← skip? text then .pure () else .fail

def next : Reader Char
  | c :: cs => some (c, cs)
  | [] => none

def takeWhile (test : Char → Bool) : Reader (List Char) := fun cs =>
  some (cs.takeWhile test, cs.dropWhile test)

/-! ## Blanks -/

/-- What follows `depth` open block comments; they nest. -/
def afterBlock : Nat → List Char → Option (List Char)
  | 0, cs => some cs
  | depth + 1, '/' :: '*' :: cs => afterBlock (depth + 2) cs
  | depth + 1, '*' :: '/' :: cs => afterBlock depth cs
  | depth + 1, _ :: cs => afterBlock (depth + 1) cs
  | _ + 1, [] => none

def afterBlanks : Nat → List Char → Option (List Char)
  | 0, cs => some cs
  | n + 1, cs =>
    match cs.dropWhile isBlank with
    | '/' :: '/' :: rest => afterBlanks n (rest.dropWhile (· ≠ '\n'))
    | '/' :: '*' :: rest => (afterBlock 1 rest).bind (afterBlanks n)
    | '/' :: _ => none
    | rest => some rest

/-- Skips white space and comments. -/
def blanks : Reader Unit := fun cs => (afterBlanks (cs.length + 1) cs).map fun rest => ((), rest)

/-- Skips blanks, a comma if there is one, and blanks after it. -/
def comma? : Reader Bool := do
  blanks
  if ← skip? "," then
    blanks
    .pure true
  else .pure false

/-! ## Identifiers -/

/-- The openings of strings and bytes, which no identifier begins with. -/
def opensString (cs : List Char) : Bool :=
  ["b\"", "b'", "br#", "br\"", "r\"", "r#\"", "r##"].any fun s => startsWith s cs

def identifier : Reader String := fun cs =>
  match cs with
  | [] => none
  | c :: _ =>
    if !isStart c || opensString cs then none
    else if startsWith "r#" cs then
      match (cs.drop 2).takeWhile isRaw with
      | [] => none
      | name => some (String.ofList name, (cs.drop 2).dropWhile isRaw)
    else
      let name := cs.takeWhile isContinue
      if name.length < (cs.takeWhile isRaw).length then none
      else some (String.ofList name, cs.dropWhile isContinue)

/-- The identifier ahead, if there is one; a raw mark after it is left alone. -/
def identifier? : Reader (Option String) := fun cs =>
  match cs with
  | [] => some (none, cs)
  | c :: _ =>
    if opensString cs then some (none, cs)
    else if startsWith "r#" cs then
      match (cs.drop 2).takeWhile isRaw with
      | [] => some (none, cs)
      | name => some (some (String.ofList name), (cs.drop 2).dropWhile isRaw)
    else if isStart c then
      some (some (String.ofList (cs.takeWhile isContinue)), cs.dropWhile isContinue)
    else some (none, cs)

/-! ## Numbers -/

structure IntegerType where
  name : String
  least : Int
  greatest : Int
  deriving Repr, DecidableEq

def signed (bits : Nat) : IntegerType :=
  let half : Int := Nat.pow 2 (bits - 1)
  ⟨"i" ++ toString bits, -half, half - 1⟩

def unsigned (bits : Nat) : IntegerType := ⟨"u" ++ toString bits, 0, Nat.pow 2 bits - 1⟩

def integerTypes : List IntegerType := [8, 16, 32, 64].flatMap fun b => [signed b, unsigned b]

def hexValue? (c : Char) : Option Nat :=
  if '0' ≤ c ∧ c ≤ '9' then some (c.toNat - 48)
  else if 'a' ≤ c ∧ c ≤ 'f' then some (c.toNat - 87)
  else if 'A' ≤ c ∧ c ≤ 'F' then some (c.toNat - 55)
  else none

def isDigitOrGap (c : Char) : Bool := (hexValue? c).isSome || c == '_'

def baseMark (cs : List Char) : Nat × Nat :=
  if startsWith "0b" cs then (2, 2)
  else if startsWith "0o" cs then (8, 2)
  else if startsWith "0x" cs then (16, 2)
  else (10, 0)

/-- Digits of a base after its mark, with gaps anywhere but at the start. -/
def naturalNumber : Reader Nat := fun cs =>
  let (base, mark) := baseMark cs
  let cs := cs.drop mark
  match cs.takeWhile isDigitOrGap with
  | [] => none
  | '_' :: _ => none
  | digits =>
    let add (n : Option Nat) (c : Char) : Option Nat := do
      let n ← n
      let d ← hexValue? c
      if d < base then some (n * base + d) else none
    ((digits.filter (· ≠ '_')).foldl add (some 0)).map fun n => (n, cs.dropWhile isDigitOrGap)

def isNegative : Reader Bool := do
  if ← skip? "-" then .pure true
  else
    let _ ← skip? "+"
    .pure false

/-- The integer type named right after the digits, if one is. -/
def integerSuffix : Reader (Option IntegerType) := fun cs =>
  match integerTypes.find? fun t => startsWithWord t.name cs with
  | some t => some (some t, cs.drop t.name.length)
  | none => some (none, cs)

/-- An integer and the type its suffix names; it has to fit into that type. -/
def anyInteger : Reader (Int × Option IntegerType) := do
  let negative ← isNegative
  let n ← naturalNumber
  let i : Int := if negative then -n else n
  let suffix ← integerSuffix
  if suffix.all fun t => t.least ≤ i ∧ i ≤ t.greatest then .pure (i, suffix) else .fail

def integer (type : IntegerType) : Reader Int := do
  let (i, suffix) ← anyInteger
  if suffix.getD type = type ∧ type.least ≤ i ∧ i ≤ type.greatest then .pure i else .fail

def isFloatCharacter (c : Char) : Bool :=
  '0' ≤ c && c ≤ '9' || ['e', 'E', '.', '+', '-', '_'].contains c

/-- The characters that a float may take up: two points are the middle of a range. -/
def floatText : List Char → List Char
  | '.' :: '.' :: _ => []
  | c :: cs => if isFloatCharacter c then c :: floatText cs else []
  | [] => []

/-- Takes the gaps out of a float's characters. A gap stands after a digit or an exponent mark, or
after another gap. -/
def withoutGaps (gapAllowed : Bool) : List Char → Option (List Char)
  | [] => some []
  | '_' :: cs => if gapAllowed then withoutGaps true cs else none
  | c :: cs =>
    let allowed := if c == '.' then false else gapAllowed || c.isDigit || c == 'e' || c == 'E'
    (withoutGaps allowed cs).map (c :: ·)

def digitsValue (cs : List Char) : Nat := cs.foldl (fun n c => 10 * n + (c.toNat - 48)) 0

/-- A decimal with at least one digit before its exponent: its sign, digits and exponent of ten. -/
def decimal? (cs : List Char) : Option (Bool × Nat × Int) :=
  let unsign : List Char → Bool × List Char
    | '-' :: cs => (true, cs)
    | '+' :: cs => (false, cs)
    | cs => (false, cs)
  let (negative, cs) := unsign cs
  let whole := cs.takeWhile Char.isDigit
  let rest := cs.dropWhile Char.isDigit
  let (fraction, rest) := match rest with
    | '.' :: r => (r.takeWhile Char.isDigit, r.dropWhile Char.isDigit)
    | r => ([], r)
  if whole.isEmpty && fraction.isEmpty then none
  else
    let result (e : Int) := some (negative, digitsValue (whole ++ fraction), e - fraction.length)
    match rest with
    | [] => result 0
    | c :: r =>
      if c == 'e' || c == 'E' then
        let (down, r) := unsign r
        if r.isEmpty || !r.all Char.isDigit then none
        else result (if down then -(digitsValue r) else digitsValue r)
      else none

/-- The names of the floats that no digits write. -/
def floatNames : List (String × Binary64) :=
  [("inf", .infinity false), ("+inf", .infinity false), ("-inf", .infinity true),
    ("NaN", .nan), ("+NaN", .nan), ("-NaN", .nan)]

def namedFloat? (suffixes : List String) (cs : List Char) : Option (Binary64 × List Char) :=
  floatNames.findSome? fun (name, x) =>
    ("" :: suffixes).findSome? fun suffix =>
      if startsWithWord (name ++ suffix) cs then some (x, cs.drop (name ++ suffix).length) else none

/-- A double-precision number, which may carry one of the suffixes. -/
def floatWith (suffixes : List String) : Reader Binary64 := fun cs =>
  match namedFloat? suffixes cs with
  | some r => some r
  | none =>
    match floatText cs with
    | [] => none
    | '_' :: _ => none
    | text => do
      let (negative, digits, exponent) ← (withoutGaps false text).bind decimal?
      let rest := cs.drop text.length
      let suffix := (suffixes.find? (startsWithWord · rest)).getD ""
      some (Binary64.ofDecimal negative digits exponent, rest.drop suffix.length)

def float : Reader Binary64 := floatWith ["f64"]

def boolean : Reader Bool := do
  if ← skipWord? "true" then .pure true
  else if ← skipWord? "false" then .pure false
  else .fail

/-! ## Strings -/

def hexDigit : Reader Nat
  | c :: cs => (hexValue? c).map fun d => (d, cs)
  | [] => none

def hexByte : Reader Nat := do
  let high ← hexDigit
  let low ← hexDigit
  .pure (16 * high + low)

/-- The character whose encoding is exactly these bytes. -/
def decodeBytes? (bs : List Nat) : Option Char :=
  match String.fromUTF8? ⟨(bs.map UInt8.ofNat).toArray⟩ with
  | some s => match s.toList with
    | [c] => some c
    | _ => none
  | none => none

/-- A character spelt by up to four byte escapes, of which `bs` have been read. -/
def byteEscape : Nat → List Nat → Reader Char
  | 0, _ => .fail
  | n + 1, bs => do
    let b ← hexByte
    match decodeBytes? (bs ++ [b]) with
    | some c => .pure c
    | none =>
      if n = 0 then .fail
      else
        expect "\\x"
        byteEscape n (bs ++ [b])

def unicodeDigits : Nat → Nat → Nat → Reader (Nat × Nat)
  | 0, count, value => .pure (count, value)
  | n + 1, count, value => do
    if ← ahead (startsWith "\x7d") then .pure (count, value)
    else
      let d ← hexDigit
      unicodeDigits n (count + 1) (16 * value + d)

def unicodeEscape : Reader Char := do
  expect "\x7b"
  let (count, value) ← unicodeDigits 6 0 0
  expect "\x7d"
  if count ≠ 0 ∧ value.isValidChar then .pure (Char.ofNat value) else .fail

inductive Quotation
  | string
  | bytes
  | character
  | byte
  deriving DecidableEq, Repr

/-- The character that an escape stands for, after the backslash. A byte has no Unicode escapes; a
lone character is spelt by one byte at most. -/
def escape (within : Quotation) : Reader Char := do
  match ← next with
  | '\'' => .pure '\''
  | '"' => .pure '"'
  | '\\' => .pure '\\'
  | 'n' => .pure '\n'
  | 'r' => .pure '\r'
  | 't' => .pure '\t'
  | '0' => .pure '\x00'
  | 'x' =>
    match within with
    | .string => byteEscape 4 []
    | .character => byteEscape 1 []
    | .bytes | .byte => Char.ofNat <$> hexByte
  | 'u' => if within = .byte then .fail else unicodeEscape
  | _ => .fail

/-- Drops the end of a line and the indentation of the next, after the backslash that joins them. -/
def joinLines? : Reader Bool := do
  let ends ← if ← skip? "\n" then .pure true else skip? "\r\n"
  if ends then
    let _ ← takeWhile [' ', '\t', '\n', '\r'].contains
  .pure ends

/-- The characters up to the closing quote. -/
def escaped (within : Quotation) : Nat → Reader (List Char)
  | 0 => .fail
  | n + 1 => do
    match ← next with
    | '"' => .pure []
    | '\\' => do
      if ← joinLines? then escaped within n
      else
        let c ← escape within
        (c :: ·) <$> escaped within n
    | c => (c :: ·) <$> escaped within n

/-- The characters up to the first occurrence of `close`. -/
def upTo (close : List Char) : List Char → Option (List Char × List Char)
  | [] => none
  | c :: cs =>
    if close.isPrefixOf (c :: cs) then some ([], (c :: cs).drop close.length)
    else (upTo close cs).map fun (text, rest) => (c :: text, rest)

def rawString : Reader (List Char) := do
  let hashes ← takeWhile (· == '#')
  expect "\""
  upTo ('"' :: hashes)

def quoted (within : Quotation) : Reader (List Char) := fun cs => escaped within (cs.length + 1) cs

def string : Reader String := do
  if ← skip? "\"" then String.ofList <$> quoted .string
  else if ← skip? "r" then String.ofList <$> rawString
  else .fail

/-! ## Lists of items -/

/-- Items between an opening that has been read and `close`, which is left. A comma stands between
two items and may follow the last. -/
def itemsUpTo {α : Type} (close : String) (item : Reader α) : Nat → Bool → Reader (List α)
  | 0, _ => .fail
  | n + 1, separated => do
    blanks
    if ← ahead (startsWith close) then .pure []
    else if !separated then .fail
    else
      let a ← item
      let separated ← comma?
      (a :: ·) <$> itemsUpTo close item n separated

def items {α : Type} (close : String) (item : Reader α) : Reader (List α) := fun cs =>
  itemsUpTo close item (cs.length + 1) true cs

def delimited {α : Type} (opening close : String) (item : Reader α) : Reader (List α) := do
  expect opening
  let as ← items close item
  blanks
  expect close
  .pure as

/-- A key, a colon and a value. -/
def entry {α β : Type} (key : Reader α) (value : α → Reader β) : Reader (α × β) := do
  let k ← key
  blanks
  expect ":"
  blanks
  let v ← value k
  .pure (k, v)

/-! ## Whole texts -/

structure Extensions where
  explicitStructNames : Bool := false
  implicitSome : Bool := false
  unwrapVariants : Bool := false
  deriving Repr, DecidableEq

def enableExtension (e : Extensions) : String → Option Extensions
  | "unwrap_newtypes" => some e
  | "unwrap_variant_newtypes" => some { e with unwrapVariants := true }
  | "implicit_some" => some { e with implicitSome := true }
  | "explicit_struct_names" => some { e with explicitStructNames := true }
  | _ => none

def tokens (texts : List String) : Reader Unit :=
  texts.foldr (fun t r => do expect t; blanks; r) (.pure ())

def extensionNames : Nat → Extensions → Reader Extensions
  | 0, _ => .fail
  | n + 1, e => do
    let name ← identifier
    match enableExtension e name with
    | none => .fail
    | some e =>
      let separated ← comma?
      let more ← ahead fun cs => cs.head?.any isContinue
      if more then
        if separated then extensionNames n e else .fail
      else .pure e

/-- An attribute switches extensions on, or tells the type or the schema of the text, which is not
looked at. -/
def documentAttribute (e : Extensions) : Reader Extensions := do
  tokens ["#", "!", "["]
  if ← skip? "enable" then
    blanks
    tokens ["("]
    let e ← (fun cs => extensionNames (cs.length + 1) e cs : Reader Extensions)
    blanks
    tokens [")", "]"]
    .pure e
  else
    if !(← skip? "type") then expect "schema"
    blanks
    tokens ["="]
    let _ ← string
    blanks
    tokens ["]"]
    .pure e

/-- The attributes that open a text. -/
def documentAttributes : Nat → Extensions → Reader Extensions
  | 0, _ => .fail
  | n + 1, e => do
    if ← ahead (startsWith "#") then
      let e ← documentAttribute e
      documentAttributes n e
    else .pure e

/-- Reads a whole text: attributes, then what `body` reads, then nothing but blanks. -/
def read? {α : Type} (body : Extensions → Reader α) (text : String) : Option α :=
  let whole : Reader α := do
    blanks
    let e ← (fun cs => documentAttributes (cs.length + 1) {} cs : Reader Extensions)
    let a ← body e
    blanks
    .pure a
  match whole text.toList with
  | some (a, []) => some a
  | _ => none

end Ron

end Vivarium
