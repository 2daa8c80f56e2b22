/-!
# Binary floating point, exactly

Finite numbers of the 64-bit binary format, and rounding to it in exact arithmetic. A number is a
mantissa below `2 ^ 53` times a power of two, so every operation is a statement about natural
numbers.
-/

namespace SourceAtlas

/-- The number `mantissa * 2 ^ exponent`, negated if `negative`. -/
structure Binary64 where
  negative : Bool
  mantissa : Nat
  exponent : Int
  deriving DecidableEq, Repr

namespace Binary64

/-- The least exponent, which subnormal numbers and zero have. -/
def minExponent : Int := -1074

/-- The greatest exponent of a finite number. -/
def maxExponent : Int := 971

def zero : Binary64 :=
  ⟨false, 0, minExponent⟩

def neg (x : Binary64) : Binary64 :=
  { x with negative := !x.negative }

def isZero (x : Binary64) : Bool :=
  x.mantissa == 0

/-- Quotient and remainder of `num / den` after scaling by `2 ^ (-e)`, with the divisor. -/
def scaledDiv (num den : Nat) (e : Int) : Nat × Nat × Nat :=
  if 0 ≤ e then
    let d := den * Nat.pow 2 e.toNat
    (num / d, num % d, d)
  else
    let n := num * Nat.pow 2 (-e).toNat
    (n / den, n % den, den)

/--
The exponent for `num / den`: the one that leaves a quotient of 53 bits, or the least exponent if
that is greater. The guess from the bit lengths is right or one too small.
-/
def exponentOf (num den : Nat) : Int :=
  let guess : Int := max ((num.log2 : Int) - den.log2 - 53) minExponent
  if (scaledDiv num den guess).1 < Nat.pow 2 53 then guess else guess + 1

/--
The number nearest to `num / den`, ties going to the even mantissa; `none` if it is too large.
-/
def ofRatio (num den : Nat) : Option Binary64 :=
  if num == 0 then some zero
  else
    let e := exponentOf num den
    let (q, r, d) := scaledDiv num den e
    let up := d < 2 * r || (2 * r == d && q % 2 == 1)
    let q := if up then q + 1 else q
    let (q, e) := if q == Nat.pow 2 53 then (Nat.pow 2 52, e + 1) else (q, e)
    if maxExponent < e then none else some ⟨false, q, e⟩

/-- The absolute value as a ratio of natural numbers. -/
def toRatio (x : Binary64) : Nat × Nat :=
  if 0 ≤ x.exponent then (x.mantissa * Nat.pow 2 x.exponent.toNat, 1)
  else (x.mantissa, Nat.pow 2 (-x.exponent).toNat)

/-- The rounded product of two absolute values. -/
def mul (x y : Binary64) : Option Binary64 :=
  let (a, b) := x.toRatio
  let (c, d) := y.toRatio
  ofRatio (a * c) (b * d)

/-- The rounded quotient of two absolute values. -/
def div (x y : Binary64) : Option Binary64 :=
  let (a, b) := x.toRatio
  let (c, d) := y.toRatio
  ofRatio (a * d) (b * c)

end Binary64

end SourceAtlas
