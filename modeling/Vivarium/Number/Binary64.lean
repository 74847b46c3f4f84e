/-! # Double-precision numbers

A number is its 64 bits, so that comparison, rounding and printing are all decided in integer
arithmetic. `Binary64.equal` is the comparison of the floating-point standard: no NaN equals
anything, and the two zeros are equal. `Binary64.ofRatio` rounds a quotient to the nearest number,
a tie to the even neighbour.
-/

namespace Vivarium

structure Binary64 where
  bits : UInt64
  deriving DecidableEq, Repr, Inhabited

namespace Binary64

/-- The weight of the bit that holds the sign. -/
def signBit : Nat := 1 <<< 63

/-- The weight of the leading bit of a significand, which normal numbers do not store. -/
def hiddenBit : Nat := 1 <<< 52

def negative (x : Binary64) : Bool := signBit ≤ x.bits.toNat

/-- The bits without the sign. -/
def magnitude (x : Binary64) : Nat := x.bits.toNat % signBit

/-- The magnitude of the infinities: all exponent bits set and no other. -/
def infinityBits : Nat := 2047 * hiddenBit

def isNaN (x : Binary64) : Bool := infinityBits < x.magnitude

def isInfinite (x : Binary64) : Bool := x.magnitude = infinityBits

def isZero (x : Binary64) : Bool := x.magnitude = 0

def equal (x y : Binary64) : Bool :=
  !x.isNaN && !y.isNaN && (x.bits == y.bits || x.isZero && y.isZero)

/-- The significand and the binary exponent of a finite number: it is `significand * 2 ^ exponent`. -/
def significand (x : Binary64) : Nat :=
  if x.magnitude < hiddenBit then x.magnitude else hiddenBit + x.magnitude % hiddenBit

def exponent (x : Binary64) : Int :=
  if x.magnitude < hiddenBit then -1074 else x.magnitude / hiddenBit - 1075

/-- The bits as sixteen hexadecimal digits. -/
def hex (x : Binary64) : String :=
  String.ofList ((List.range 16).reverse.map fun i => Nat.digitChar (x.bits.toNat >>> (4 * i) % 16))

/-- The number of which the text is the bits in hexadecimal; a letter that is no digit counts as
zero. -/
def ofHex (text : String) : Binary64 :=
  ⟨UInt64.ofNat (text.toList.foldl (fun n c =>
    16 * n + (if c.isDigit then c.toNat - 48 else if 'a' ≤ c ∧ c ≤ 'f' then c.toNat - 87 else 0)) 0)⟩

def ofMagnitude (negative : Bool) (magnitude : Nat) : Binary64 :=
  ⟨UInt64.ofNat (if negative then signBit + magnitude else magnitude)⟩

def nan : Binary64 := ofMagnitude false (infinityBits + hiddenBit / 2)

def infinity (negative : Bool) : Binary64 := ofMagnitude negative infinityBits

/-- The whole number nearest to `n / d`, the even one of two. -/
def divNearest (n d : Nat) : Nat :=
  if 2 * (n % d) < d ∨ (2 * (n % d) = d ∧ n / d % 2 = 0) then n / d else n / d + 1

/-- `n / d` over `2 ^ e`, as a fraction again. -/
def scaleDown (n d : Nat) (e : Int) : Nat × Nat :=
  match e with
  | .ofNat k => (n, d <<< k)
  | .negSucc k => (n <<< (k + 1), d)

/-- The exponent at which `n / d` has a significand of 53 bits, or the least exponent there is. -/
def exponentOfRatio (n d : Nat) : Int :=
  let guess : Int := n.log2 - d.log2 - 52
  let (n', d') := scaleDown n d guess
  max (if n' < hiddenBit * d' then guess - 1 else guess) (-1074)

/-- The number nearest to `n / d`, the even one of two; too large a quotient is infinite. -/
def ofRatio (negative : Bool) (n d : Nat) : Binary64 :=
  if n = 0 then ofMagnitude negative 0
  else
    let e := exponentOfRatio n d
    let (n', d') := scaleDown n d e
    ofMagnitude negative (min ((e + 1074).toNat * hiddenBit + divNearest n' d') infinityBits)

def ofInt (i : Int) : Binary64 := ofRatio (i < 0) i.natAbs 1

/-- The number nearest to `digits * 10 ^ exponent`. Exponents beyond the range of the numbers are
answered without forming the power. -/
def ofDecimal (negative : Bool) (digits : Nat) (exponent : Int) : Binary64 :=
  if digits = 0 then ofMagnitude negative 0
  else if 400 < exponent then infinity negative
  else if exponent + (digits.log2 / 3 + 1 : Nat) < -400 then ofMagnitude negative 0
  else match exponent with
    | .ofNat k => ofRatio negative (digits * Nat.pow 10 k) 1
    | .negSucc k => ofRatio negative digits (Nat.pow 10 (k + 1))

end Binary64

end Vivarium
