import Vivarium.Number.Binary64

/-! # Shortest decimal text

A finite number is written with the fewest digits that are read back as the same number, and of
those the nearest to it. The text is positional, however large or small the number is.
-/

namespace Vivarium

namespace Binary64

/-- The reals that round to a number: their ends over a common denominator, and whether the ends
belong to them. -/
structure Interval where
  low : Nat
  centre : Nat
  high : Nat
  denominator : Nat
  closed : Bool
  deriving Repr

/-- The ends lie half-way to the neighbours; below a power of two the neighbour is closer by half.
An end rounds to the even significand. -/
def interval (x : Binary64) : Interval :=
  let m := x.significand
  let low := if m = hiddenBit ∧ -1074 < x.exponent then 4 * m - 1 else 4 * m - 2
  let (scale, denominator) := match x.exponent - 2 with
    | .ofNat k => (1 <<< k, 1)
    | .negSucc k => (1, 1 <<< (k + 1))
  ⟨low * scale, 4 * m * scale, (4 * m + 2) * scale, denominator, m % 2 = 0⟩

def decimalLength (n : Nat) : Nat := (Nat.toDigits 10 n).length

/-- The least `p` with `n / d < 10 ^ p`, for positive `n` and `d`. -/
def decimalPoint (n d : Nat) : Int :=
  if d ≤ n then decimalLength (n / d) else 1 - decimalLength ((d - 1) / n)

/-- The multiple of `10 ^ k` nearest to the centre that lies in the interval, if one does. -/
def Interval.multiple? (i : Interval) (k : Int) : Option Nat :=
  let (up, down) := match k with
    | .ofNat k => (Nat.pow 10 k, 1)
    | .negSucc k => (1, Nat.pow 10 (k + 1))
  let unit := i.denominator * up
  let below := i.centre * down / unit
  let within (a b : Nat) : Bool := if i.closed then a ≤ b else a < b
  let lowFits := within (i.low * down) (below * unit)
  let highFits := within ((below + 1) * unit) (i.high * down)
  if lowFits && highFits then
    some (if 2 * (i.centre * down) < (2 * below + 1) * unit then below else below + 1)
  else if lowFits then some below
  else if highFits then some (below + 1)
  else none

/-- Tries one digit more at a time; seventeen are always enough. -/
def Interval.shortest (i : Interval) (point : Int) : Nat → Nat → Nat × Int
  | 0, digits => (i.centre / i.denominator, point - digits)
  | n + 1, digits =>
    match i.multiple? (point - digits) with
    | some d => (d, point - digits)
    | none => i.shortest point n (digits + 1)

/-- The shortest decimal of a finite positive number: `digits * 10 ^ exponent`. -/
def shortest (x : Binary64) : Nat × Int :=
  let i := x.interval
  i.shortest (decimalPoint i.centre i.denominator) 17 1

/-- `digits * 10 ^ exponent` in positional notation, without zeros at the end of the fraction. -/
def positional (digits : Nat) (exponent : Int) : String :=
  match exponent with
  | .ofNat k => toString (digits * Nat.pow 10 k)
  | .negSucc k =>
    let places := k + 1
    let unit := Nat.pow 10 places
    let whole := digits / unit
    let fraction := Nat.toDigits 10 (digits % unit)
    let padded := List.replicate (places - fraction.length) '0' ++ fraction
    match (padded.reverse.dropWhile (· == '0')).reverse with
    | [] => toString whole
    | cs => toString whole ++ "." ++ String.ofList cs

def text (x : Binary64) : String :=
  if x.isNaN then "NaN"
  else
    let unsigned :=
      if x.isInfinite then "inf"
      else if x.isZero then "0"
      else let (digits, exponent) := x.shortest; positional digits exponent
    if x.negative then "-" ++ unsigned else unsigned

end Binary64

end Vivarium
