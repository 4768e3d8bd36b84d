import SqlCompiler.Json.Basic
import SqlCompiler.Text.Numeral

/-!
# Reading JSON

A strict reader: one value between blanks, no comments, no trailing commas, no leading zeros
and no byte order mark.  Half a surrogate pair is only an error where the text is read.

Main definitions:

- `Json.parse?`: the value of a text.
-/

namespace SqlCompiler.Json

/-- A blank between tokens. -/
def isBlank (c : Char) : Bool :=
  c == ' ' || c == '\n' || c == '\t' || c == '\r'

/-- The characters after the leading blanks. -/
def skipBlanks (cs : List Char) : List Char := cs.dropWhile isBlank

/-! ## Texts -/

/-- The value of four hexadecimal digits, and the characters after them. -/
def readUnit? : List Char → Option (Nat × List Char)
  | a :: b :: c :: d :: rest => do
    let high := (← Text.hexValue? a) * 16 + (← Text.hexValue? b)
    let low := (← Text.hexValue? c) * 16 + (← Text.hexValue? d)
    return (high * 256 + low, rest)
  | _ => none

/-- Whether a unit is the first half of a surrogate pair. -/
def isHighHalf (n : Nat) : Bool := 0xD800 ≤ n && n < 0xDC00

/-- Whether a unit is the second half of a surrogate pair. -/
def isLowHalf (n : Nat) : Bool := 0xDC00 ≤ n && n < 0xE000

/-- The character of an escape that is a single letter. -/
def simpleEscape? : Char → Option Char
  | '"' => some '"'
  | '\\' => some '\\'
  | '/' => some '/'
  | 'b' => some '\x08'
  | 'f' => some '\x0c'
  | 'n' => some '\n'
  | 'r' => some '\r'
  | 't' => some '\t'
  | _ => none

/-- The character of an escaped unit, and what follows it: the second half of a pair belongs
to the first.  Without its other half a unit stands for no character. -/
def unitChar (unit : Nat) (rest : List Char) : Option Char × List Char :=
  if isHighHalf unit then
    match rest with
    | '\\' :: 'u' :: more =>
      match readUnit? more with
      | some (low, after) =>
        if isLowHalf low then
          (some (Char.ofNat (0x10000 + (unit - 0xD800) * 0x400 + (low - 0xDC00))), after)
        else (none, rest)
      | none => (none, rest)
    | _ => (none, rest)
  else if isLowHalf unit then (none, rest)
  else (some (Char.ofNat unit), rest)

/-- The rest of a text after its opening quote, reading at most `fuel` characters.  `read` is
what was read so far in reverse, or nothing once half a pair was met. -/
def textFrom? : Nat → Option (List Char) → List Char → Option (Option String × List Char)
  | 0, _, _ => none
  | _, _, [] => none
  | fuel + 1, read, c :: rest =>
    if c == '"' then some (read.map fun cs => String.ofList cs.reverse, rest)
    else if c.toNat < 32 then none
    else if c != '\\' then textFrom? fuel (read.map (c :: ·)) rest
    else
      match rest with
      | 'u' :: more => do
        let (unit, after) ← readUnit? more
        let (char, after) := unitChar unit after
        textFrom? fuel (do return (← char) :: (← read)) after
      | e :: more => do
        let char ← simpleEscape? e
        textFrom? fuel (read.map (char :: ·)) more
      | [] => none

/-- The rest of a text after its opening quote. -/
def readText? (cs : List Char) : Option (Option String × List Char) :=
  textFrom? (cs.length + 1) (some []) cs

/-! ## Numbers -/

/-- The characters after a fraction, if there is one; whether there is one. -/
def readFraction? : List Char → Option (Bool × List Char)
  | '.' :: rest =>
    if (rest.takeWhile Char.isDigit).isEmpty then none
    else some (true, rest.dropWhile Char.isDigit)
  | cs => some (false, cs)

/-- The characters after the digits of an exponent. -/
def readExponentDigits? (cs : List Char) : Option (Bool × List Char) :=
  let rest :=
    match cs with
    | '+' :: rest | '-' :: rest => rest
    | _ => cs
  if (rest.takeWhile Char.isDigit).isEmpty then none
  else some (true, rest.dropWhile Char.isDigit)

/-- The characters after an exponent, if there is one; whether there is one. -/
def readExponent? : List Char → Option (Bool × List Char)
  | 'e' :: rest | 'E' :: rest => readExponentDigits? rest
  | cs => some (false, cs)

/-- A whole number; what does not fit into 64 bits, and a negative zero, is no integer. -/
def wholeNumber (negative : Bool) (n : Nat) : Json :=
  if negative then
    if n == 0 || n > Nat.pow 2 63 then real else integer (-n)
  else if n < Nat.pow 2 64 then integer n
  else real

/-- A number and the characters after it. -/
def readNumber? (cs : List Char) : Option (Json × List Char) := do
  let (negative, body) :=
    match cs with
    | '-' :: rest => (true, rest)
    | _ => (false, cs)
  let digits := body.takeWhile Char.isDigit
  if digits.isEmpty || (digits.head? == some '0' && digits.length > 1) then none
  else
    let (hasFraction, rest) ← readFraction? (body.dropWhile Char.isDigit)
    let (hasExponent, rest) ← readExponent? rest
    let whole := wholeNumber negative (Text.digitsNumber digits)
    return (if hasFraction || hasExponent then real else whole, rest)

/-! ## Values -/

/-- The characters after a word. -/
def readWord? (word : String) (cs : List Char) : Option (List Char) :=
  if word.toList.isPrefixOf cs then some (cs.drop word.length) else none

/-- The object of some members; keys that were not read make it unreadable. -/
def ofMembers (members : List (Option String × Json)) : Json :=
  if members.all (·.1.isSome) then
    object (members.filterMap fun (key, j) => key.map (·, j))
  else broken

mutual

/-- A value and the characters after it.  Every step takes a character. -/
def valueFrom? : Nat → List Char → Option (Json × List Char)
  | 0, _ => none
  | fuel + 1, cs =>
    match skipBlanks cs with
    | '\x7b' :: rest =>
      match skipBlanks rest with
      | '\x7d' :: rest => some (object [], rest)
      | rest => do
        let (members, rest) ← membersFrom? fuel rest
        return (ofMembers members, rest)
    | '[' :: rest =>
      match skipBlanks rest with
      | ']' :: rest => some (list [], rest)
      | rest => do
        let (items, rest) ← itemsFrom? fuel rest
        return (list items, rest)
    | '"' :: rest => do
      let (s, rest) ← readText? rest
      return (s.elim broken text, rest)
    | 'n' :: rest => (readWord? "ull" rest).map (null, ·)
    | 't' :: rest => (readWord? "rue" rest).map (bool true, ·)
    | 'f' :: rest => (readWord? "alse" rest).map (bool false, ·)
    | rest => readNumber? rest

/-- The items of a list up to its closing bracket. -/
def itemsFrom? : Nat → List Char → Option (List Json × List Char)
  | 0, _ => none
  | fuel + 1, cs => do
    let (j, rest) ← valueFrom? fuel cs
    match skipBlanks rest with
    | ',' :: rest =>
      let (items, rest) ← itemsFrom? fuel rest
      return (j :: items, rest)
    | ']' :: rest => return ([j], rest)
    | _ => none

/-- The members of an object up to its closing brace. -/
def membersFrom? : Nat → List Char → Option (List (Option String × Json) × List Char)
  | 0, _ => none
  | fuel + 1, cs =>
    match skipBlanks cs with
    | '"' :: rest => do
      let (key, rest) ← readText? rest
      match skipBlanks rest with
      | ':' :: rest =>
        let (j, rest) ← valueFrom? fuel rest
        match skipBlanks rest with
        | ',' :: rest =>
          let (members, rest) ← membersFrom? fuel rest
          return ((key, j) :: members, rest)
        | '\x7d' :: rest => return ([(key, j)], rest)
        | _ => none
      | _ => none
    | _ => none

end

/-- The value of a text. -/
def parse? (s : String) : Option Json := do
  let cs := s.toList
  let (j, rest) ← valueFrom? (2 * cs.length + 2) cs
  if (skipBlanks rest).isEmpty then some j else none

end SqlCompiler.Json
