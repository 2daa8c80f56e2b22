import SourceAtlas.Decimal.Binary64

/-!
# The fewest digits that read back

A decimal stands for a binary number when it lies in the interval of reals that round to it. Of the
decimals with the fewest digits in that interval, the nearest to the number is taken.
-/

namespace SourceAtlas.Binary64

/-- The decimal `0.d₁d₂… * 10 ^ scale` with the digits of `digits`, no zero at either end. -/
structure Decimal where
  digits : Nat
  scale : Int
  deriving DecidableEq, Repr

/--
The half-open ends of the reals that round to `x`, over a common denominator: `(low, value, high,
denominator)`. Just above a power of two the gap below is half as wide.
-/
def interval (x : Binary64) : Nat × Nat × Nat × Nat :=
  let (num, den) := x.toRatio
  let step := if 0 ≤ x.exponent then Nat.pow 2 x.exponent.toNat else 1
  let below := if x.mantissa == Nat.pow 2 52 && minExponent < x.exponent then step else 2 * step
  (4 * num - below, 4 * num, 4 * num + 2 * step, 4 * den)

/-- `10 ^ k` as a ratio. -/
def tenPow (k : Int) : Nat × Nat :=
  if 0 ≤ k then (Nat.pow 10 k.toNat, 1) else (1, Nat.pow 10 (-k).toNat)

/-- The least `k` with `num / den < 10 ^ k`, searched upwards from `k` in `fuel` steps. -/
def scaleFrom (num den : Nat) : Nat → Int → Int
  | 0, k => k
  | fuel + 1, k =>
    let (a, b) := tenPow k
    if num * b < a * den then k else scaleFrom num den fuel (k + 1)

/-- The multiple `q` of `10 ^ (k - n)` if it lies among the reals that round to `x`. -/
def candidate? (x : Binary64) (unit : Nat × Nat) (q : Nat) : Option Nat :=
  let (low, _, high, den) := interval x
  let (a, b) := unit
  let here := q * a * den
  let even := x.mantissa % 2 == 0
  let aboveLow := if even then low * b ≤ here else low * b < here
  let belowHigh := if even then here ≤ high * b else here < high * b
  if aboveLow && belowHigh then some q else none

/-- The nearest decimal with `n` digits, if one rounds to `x`; ties go to the even digit. -/
def withDigits? (x : Binary64) (k : Int) (n : Nat) : Option Nat :=
  let unit := tenPow (k - n)
  let (_, value, _, den) := interval x
  let (a, b) := unit
  let q := value * b / (den * a)
  match candidate? x unit q, candidate? x unit (q + 1) with
  | some q, none => some q
  | none, some q' => some q'
  | none, none => none
  | some q, some q' =>
    let down := value * b - q * a * den
    let up := q' * a * den - value * b
    if down < up || (down == up && q % 2 == 0) then some q else some q'

/-- Drops the zeros at the end of a decimal numeral. -/
def dropZeros : Nat → Nat → Nat
  | 0, n => n
  | fuel + 1, n => if n != 0 && n % 10 == 0 then dropZeros fuel (n / 10) else n

/-- The first digit count in `n, n + 1, …` that has a decimal, with that decimal. -/
def shortestFrom (x : Binary64) (k : Int) : Nat → Nat → Nat × Nat
  | 0, n => (n, (withDigits? x k n).getD 0)
  | fuel + 1, n =>
    match withDigits? x k n with
    | some q => (n, q)
    | none => shortestFrom x k fuel (n + 1)

/-- The shortest decimal that reads back as `x`, for a number other than zero. -/
def shortest (x : Binary64) : Decimal :=
  let (num, den) := x.toRatio
  let k := scaleFrom num den 700 (-330)
  let (n, q) := shortestFrom x k 16 1
  -- a carry into a further digit raises the scale by one
  let k := if Nat.pow 10 n ≤ q then k + 1 else k
  ⟨dropZeros 20 q, k⟩

end SourceAtlas.Binary64
