/-!
# Decimal text of binary floating point numbers

A finite number is written with the fewest decimal digits that read back as the same
number, the nearest such decimal if there are several, the larger one if two are equally
near.

Main definitions:

- `Binary64`: the sign, mantissa and exponent of a finite number.
- `Binary64.shortest`: its digits, found on the decimal grids of 1 to 17 digits by exact
  arithmetic on natural numbers.
- `FloatStyle` and `FloatStyle.text`: where the point stands and when an exponent is used.
-/

namespace SqlCompiler.Text

/-! ## Decoding -/

/-- The finite number `(-1)^negative * mantissa * 2^exponent`. -/
structure Binary64 where
  negative : Bool
  mantissa : Nat
  exponent : Int
  /-- The gap to the next smaller number is half as wide as the gap to the next larger. -/
  narrowBelow : Bool
  deriving Repr, DecidableEq

/-- Read the fields of a number's bit pattern; meaningful for finite numbers. -/
def Binary64.ofBits (bits : UInt64) : Binary64 :=
  let fraction := (bits &&& 0xfffffffffffff).toNat
  let biased := ((bits >>> 52) &&& 0x7ff).toNat
  let negative := (bits >>> 63) == 1
  if biased == 0 then ⟨negative, fraction, -1074, false⟩
  else ⟨negative, fraction + Nat.pow 2 52, (biased : Int) - 1075, fraction == 0 && biased > 1⟩

/-! ## The shortest digits -/

/-- The digits `digits` stand for `0.digits * 10^point`. -/
structure Decimal where
  digits : Nat
  point : Int
  deriving Repr, DecidableEq

/-- A non-negative rational number. -/
structure Ratio where
  num : Nat
  den : Nat
  deriving Repr

namespace Ratio

/-- The number `m * 2^q`. -/
def scaled (m : Nat) (q : Int) : Ratio :=
  if q ≥ 0 then ⟨m * Nat.pow 2 q.toNat, 1⟩ else ⟨m, Nat.pow 2 (-q).toNat⟩

/-- Multiply by `10^k`. -/
def shift (r : Ratio) (k : Int) : Ratio :=
  if k ≥ 0 then ⟨r.num * Nat.pow 10 k.toNat, r.den⟩
  else ⟨r.num, r.den * Nat.pow 10 (-k).toNat⟩

/-- Comparison with a natural number, or with another ratio. -/
def lt (a b : Ratio) : Bool :=
  a.num * b.den < b.num * a.den

/-- At most. -/
def le (a b : Ratio) : Bool :=
  a.num * b.den ≤ b.num * a.den

end Ratio

/-- The number of decimal digits of a natural number, 0 for 0. -/
def decimalLength (n : Nat) : Nat :=
  if n = 0 then 0 else decimalLength (n / 10) + 1

/-- The number of zeros after the point of a ratio below 1, looking at `fuel` places. -/
def leadingZeros (num den : Nat) : Nat → Nat
  | 0 => 0
  | fuel + 1 => if num * 10 ≥ den then 0 else leadingZeros (num * 10) den fuel + 1

/-- The power `p` with `10^(p-1) ≤ r < 10^p`. -/
def Ratio.magnitude (r : Ratio) : Int :=
  if r.num ≥ r.den then decimalLength (r.num / r.den)
  else -(leadingZeros r.num r.den 400 : Int)

/-- The reals that round to a number: closed if its mantissa is even, else open. -/
structure RoundingInterval where
  low : Ratio
  high : Ratio
  closed : Bool

/-- Membership of a ratio. -/
def RoundingInterval.contains (i : RoundingInterval) (r : Ratio) : Bool :=
  if i.closed then i.low.le r && r.le i.high else i.low.lt r && r.lt i.high

/-- The rounding interval of a finite number, by its absolute value. -/
def Binary64.interval (x : Binary64) : RoundingInterval :=
  { low := .scaled (4 * x.mantissa - (if x.narrowBelow then 1 else 2)) (x.exponent - 2)
    high := .scaled (4 * x.mantissa + 2) (x.exponent - 2)
    closed := x.mantissa % 2 == 0 }

/-- Drop the trailing zeros of a digit sequence, which stand behind the point. -/
def dropZeros : Nat → Nat → Nat
  | 0, n => n
  | fuel + 1, n => if n ≠ 0 ∧ n % 10 = 0 then dropZeros fuel (n / 10) else n

/-- The neighbour of `value` on the grid of `count` digits that lies in the interval; the
nearer one if both do, the upper one if both are equally near. -/
def gridPoint (value : Ratio) (interval : RoundingInterval) (magnitude : Int)
    (count : Nat) : Option Decimal :=
  let unit := magnitude - count
  let onGrid := value.shift (-unit)
  let below := onGrid.num / onGrid.den
  let inside (n : Nat) : Bool := interval.contains (Ratio.shift ⟨n, 1⟩ unit)
  let upper : Option Nat := if inside (below + 1) then some (below + 1) else none
  let lower : Option Nat := if inside below && below != 0 then some below else none
  let chosen :=
    match lower, upper with
    | some a, some b => some (if 2 * (onGrid.num % onGrid.den) < onGrid.den then a else b)
    | some a, none => some a
    | none, found => found
  chosen.map fun n => ⟨dropZeros 17 n, unit + decimalLength n⟩

/-- The first grid, from `count` digits on, that has a point in the interval. -/
def searchGrids (value : Ratio) (interval : RoundingInterval) (magnitude : Int) :
    Nat → Nat → Decimal
  | 0, _ => ⟨0, 0⟩
  | fuel + 1, count =>
    match gridPoint value interval magnitude count with
    | some found => found
    | none => searchGrids value interval magnitude fuel (count + 1)

/-- The fewest digits that read back as the number's absolute value. -/
def Binary64.shortest (x : Binary64) : Decimal :=
  if x.mantissa = 0 then ⟨0, 1⟩
  else
    let value := Ratio.scaled x.mantissa x.exponent
    searchGrids value x.interval value.magnitude 20 1

/-! ## Layout -/

/-- How a number is laid out around its digits. -/
structure FloatStyle where
  /-- Numbers of at least `10^16` or below `10^-4` are written with an exponent. -/
  scientific : Bool
  /-- A whole number keeps `.0`. -/
  fraction : Bool

namespace FloatStyle

/-- The style of literals: exponents for extreme magnitudes, always a fraction. -/
def literal : FloatStyle := ⟨true, true⟩

/-- The style of plain text: no exponents, a fraction only where there is one. -/
def plain : FloatStyle := ⟨false, false⟩

/-- `count` zeros. -/
def zeros (count : Nat) : String :=
  String.ofList (List.replicate count '0')

/-- The digits with a point in their place. -/
def positional (style : FloatStyle) (d : Decimal) : String :=
  let digits := toString d.digits
  let count : Int := digits.length
  if d.point ≤ 0 then "0." ++ zeros (-d.point).toNat ++ digits
  else if d.point ≥ count then
    digits ++ zeros (d.point - count).toNat ++ (if style.fraction then ".0" else "")
  else
    String.ofList (digits.toList.take d.point.toNat) ++ "." ++
      String.ofList (digits.toList.drop d.point.toNat)

/-- One digit, the point, the other digits and an exponent. -/
def withExponent (d : Decimal) : String :=
  match (toString d.digits).toList with
  | [] => ""
  | first :: [] => String.singleton first ++ "e" ++ toString (d.point - 1)
  | first :: rest =>
    String.singleton first ++ "." ++ String.ofList rest ++ "e" ++ toString (d.point - 1)

/-- The text of a number. -/
def text (style : FloatStyle) (x : Float) : String :=
  if x.isNaN then "NaN"
  else if x.isInf then (if x < 0 then "-inf" else "inf")
  else
    let binary := Binary64.ofBits x.toBits
    let decimal := binary.shortest
    let body :=
      if style.scientific && binary.mantissa != 0 && (decimal.point > 16 || decimal.point < -3)
      then withExponent decimal
      else style.positional decimal
    (if binary.negative then "-" else "") ++ body

end FloatStyle

end SqlCompiler.Text
