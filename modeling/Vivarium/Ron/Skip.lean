import Vivarium.Ron.Reader

/-! # Skipping a value

Reads one value of any kind of the object notation and forgets it, as the value of a field that
nobody asked for is. Numbers may be the ends of a range here. The levels of nesting that are left
bound the recursion: a collection takes one and each of its items another, and the content of an
option takes one.
-/

namespace Vivarium

namespace Ron

/-! ## Literals -/

def skipCharacter : Reader Unit := do
  expect "'"
  match ← next with
  | '\\' => let _ ← escape .character
  | _ => .pure ()
  expect "'"

def skipByte : Reader Unit := do
  expect "b'"
  match ← next with
  | '\\' => let _ ← escape .byte
  | c => if c.toNat < 128 then .pure () else .fail
  expect "'"

def skipString : Reader Unit := do
  let _ ← string

def skipBytes : Reader Unit := do
  if ← skip? "b\"" then
    let _ ← quoted .bytes
  else
    expect "br"
    let _ ← rawString

/-! ## Numbers and ranges -/

def nextIsFloat (cs : List Char) : Bool :=
  let body := match cs with
    | '+' :: r => r
    | '-' :: r => r
    | r => r
  (body.takeWhile isDigitOrGap).length < (floatText body).length

def floatSuffixes : List String := ["f32", "f64"]

def skipFloat : Reader Unit := do
  let _ ← floatWith floatSuffixes

def skipInteger : Reader Unit := do
  let (i, suffix) ← anyInteger
  if suffix.isSome ∨ ((signed 64).least ≤ i ∧ i ≤ (unsigned 64).greatest) then .pure () else .fail

/-- A number or a byte; an integer out of every range is read as a float. -/
def skipNumber : Reader Unit := do
  if ← ahead (startsWith "b'") then skipByte
  else if ← ahead nextIsFloat then skipFloat
  else skipInteger <|> skipFloat

/-- What makes a range of the number before it, if there is something: two points and the end, which
may be missing unless it belongs to the range. -/
def skipRangeEnd : Reader Unit := do
  if ← skip? "..=" then skipNumber
  else if ← skip? ".." then skipNumber <|> .pure ()
  else .pure ()

def skipNumberOrRange : Reader Unit := do
  if !(← ahead (startsWith "..")) then skipNumber
  skipRangeEnd

/-! ## What parentheses hold -/

inductive Content
  | nothing
  | fields
  | items
  | value
  deriving DecidableEq, Repr

/-- Looks at what is left and leaves it. -/
def peek {α : Type} (r : Reader α) : Reader α := fun cs => (r cs).map fun (a, _) => (a, cs)

/-- Skips a literal that may be next. One that opens and never ends is an error. -/
def passOver (literal : Reader Unit) : Reader Unit := fun cs =>
  match literal cs with
  | some r => some r
  | none =>
    let opens := ["\"", "r", "b"].any (startsWith · cs)
    if opens && (literal (cs ++ '"' :: List.replicate cs.length '#')).isSome then none
    else some ((), cs)

/-- Whether a comma with something after it stands before the closing of a parenthesis in which `depth`
brackets are open. Brackets of all kinds count alike. -/
def severalItems : Nat → (depth : Nat) → Reader Bool
  | 0, _ => .fail
  | n + 1, depth => do
    blanks
    passOver skipCharacter
    passOver skipString
    passOver skipBytes
    let c ← next
    if ['(', '[', '\x7b'].contains c then severalItems n (depth + 1)
    else if [')', ']', '\x7d'].contains c then
      match depth with
      | 0 => .pure false
      | depth + 1 => severalItems n depth
    else if c == ',' && depth == 0 then
      blanks
      ahead fun cs => !startsWith ")" cs
    else severalItems n depth

/-- Tells what a variant holds whose one payload may stand without parentheses of its own. -/
def content : Reader Content := do
  let several : Reader Bool := fun cs => severalItems (cs.length + 1) 0 cs
  let scan : Reader Content := do
    if ← several then .pure .items else .pure .value
  blanks
  if ← ahead (startsWith ")") then .pure .nothing
  else
    match ← identifier? with
    | none => scan
    | some _ => do
      blanks
      if ← ahead (startsWith ":") then .pure .fields else scan

/-- Tells whether the parenthesis ahead opens named fields. -/
def opensFields : Reader Bool := do
  expect "("
  blanks
  match ← identifier? with
  | some _ => do
    blanks
    ahead (startsWith ":")
  | none => .pure false

/-! ## Values -/

/-- Skips a value. `nests` tells whether it may be a collection, `item` skips an item of one and
`inner` the content of an option; `unwrapped` tells that the value is such a content and may stand
without its parentheses. -/
def skipValue (e : Extensions) (nests : Bool) (item : Reader Unit) (inner : Bool → Reader Unit)
    (unwrapped : Bool) : Reader Unit := do
  let field : Reader Unit := do
    let _ ← entry identifier fun _ => item
  let collection (r : Reader (List Unit)) : Reader Unit :=
    if nests then do
      let _ ← r
    else .fail
  let skipStruct : Reader Unit := do
    if ← ahead (startsWith "(") then
      collection (delimited "(" ")" (if ← peek opensFields then field else item))
    else .pure ()
  match ← if unwrapped then peek content else .pure .value with
  | .nothing => .pure ()
  | .fields => collection (items ")" field)
  | .items => collection (items ")" item)
  | .value =>
    if ← skipWord? "true" then .pure ()
    else if ← skipWord? "false" then .pure ()
    else if ← skipWord? "None" then .pure ()
    else if ← skipWord? "Some" then
      blanks
      if ← skip? "(" then
        blanks
        inner e.unwrapVariants
        let _ ← comma?
        expect ")"
      else if e.implicitSome then inner false
      else .fail
    else if ← skip? "()" then .pure ()
    else if ← ahead (fun cs => (namedFloat? floatSuffixes cs).isSome) then skipNumberOrRange
    else
      match ← identifier? with
      | some _ => do
        blanks
        skipStruct
      | none =>
        match ← (fun cs => some (cs, cs) : Reader (List Char)) with
        | '(' :: _ => skipStruct
        | '[' :: _ => collection (delimited "[" "]" item)
        | '\x7b' :: _ => collection (delimited "\x7b" "\x7d" do let _ ← entry item fun _ => item)
        | '"' :: _ | 'r' :: _ => skipString
        | 'b' :: c :: _ => if c == '\'' then skipNumberOrRange else skipBytes
        | '\'' :: _ => skipCharacter
        | _ => skipNumberOrRange

def skipAny (e : Extensions) : (depth : Nat) → (unwrapped : Bool) → Reader Unit
  | 0 => skipValue e false .fail fun _ => .fail
  | 1 => skipValue e true .fail (skipAny e 0)
  | depth + 2 => skipValue e true (skipAny e depth false) (skipAny e (depth + 1))

end Ron

end Vivarium
