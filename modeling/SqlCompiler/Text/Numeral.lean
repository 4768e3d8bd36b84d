/-!
# Numbers and bytes written in digits

Main definitions:

- `Text.readCount?`: the count a text stands for, below `2^64`.
- `Text.readFloat?`: the double nearest to a decimal number.
- `Text.hexOf` and `Text.readHex?`: bytes in hexadecimal digits.
-/

namespace SqlCompiler.Text

/-- The number of some digits. -/
def digitsNumber (digits : List Char) : Nat :=
  digits.foldl (fun n c => n * 10 + (c.toNat - '0'.toNat)) 0

/-! ## Counts -/

/-- The number a sequence of digits stands for; none if it is empty or holds anything else. -/
def digitsValue? (digits : List Char) : Option Nat :=
  if digits.isEmpty || !digits.all Char.isDigit then none else some (digitsNumber digits)

/-- The number a text stands for: digits after an optional plus sign, below `2^64`. -/
def readCount? (text : String) : Option Nat := do
  let digits :=
    match text.toList with
    | '+' :: rest => rest
    | all => all
  let n ← digitsValue? digits
  if n < Nat.pow 2 64 then some n else none

/-! ## Doubles -/

/-- The exponent a number ends with: its sign and its digits. -/
def readExponent? : List Char → Option (Bool × List Char)
  | [] => some (false, [])
  | c :: rest =>
    if c != 'e' && c != 'E' then none
    else
      let (negative, digits) :=
        match rest with
        | '-' :: digits => (true, digits)
        | '+' :: digits => (false, digits)
        | digits => (false, digits)
      if digits.isEmpty || !digits.all Char.isDigit then none else some (negative, digits)

/-- A decimal number without sign.  Exponents beyond any double are cut. -/
def readMagnitude? (body : List Char) : Option Float := do
  let whole := body.takeWhile Char.isDigit
  let (fraction, rest) :=
    match body.dropWhile Char.isDigit with
    | '.' :: rest => (rest.takeWhile Char.isDigit, rest.dropWhile Char.isDigit)
    | rest => ([], rest)
  let (negative, digits) ← readExponent? rest
  if whole.isEmpty && fraction.isEmpty then none
  else
    let power : Int := min (digitsNumber digits) 5000
    let scale : Int := (if negative then -power else power) - fraction.length
    let mantissa := digitsNumber (whole ++ fraction)
    return if scale < 0 then Float.ofScientific mantissa true scale.natAbs
      else Float.ofScientific mantissa false scale.natAbs

/-- The double a text stands for; infinities and what is not a number go by their names. -/
def readFloat? (s : String) : Option Float := do
  let (negative, body) :=
    match s.toList with
    | '-' :: rest => (true, rest)
    | '+' :: rest => (false, rest)
    | rest => (false, rest)
  let magnitude ←
    match String.ofList (body.map Char.toLower) with
    | "inf" | "infinity" => some (1.0 / 0.0)
    | "nan" => some (0.0 / 0.0)
    | _ => readMagnitude? body
  return if negative then -magnitude else magnitude

/-! ## Hexadecimal digits -/

/-- A hexadecimal digit, in lower case. -/
def hexDigit (n : Nat) : Char :=
  if n < 10 then Char.ofNat (48 + n) else Char.ofNat (87 + n)

/-- Two hexadecimal digits for each byte. -/
def hexOf (bytes : List UInt8) : String :=
  String.ofList (bytes.flatMap fun b => [hexDigit (b.toNat / 16), hexDigit (b.toNat % 16)])

/-- The value of a hexadecimal digit. -/
def hexValue? (c : Char) : Option Nat :=
  if c.isDigit then some (c.toNat - 48)
  else if 'a' ≤ c && c ≤ 'f' then some (c.toNat - 87)
  else if 'A' ≤ c && c ≤ 'F' then some (c.toNat - 55)
  else none

/-- The bytes of hexadecimal digits. -/
def readHex? : List Char → Option (List UInt8)
  | [] => some []
  | [_] => none
  | a :: b :: rest => do
    let byte := UInt8.ofNat ((← hexValue? a) * 16 + (← hexValue? b))
    return byte :: (← readHex? rest)

end SqlCompiler.Text
