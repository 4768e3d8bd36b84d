import SqlCompiler.Text.CaseData

/-!
# Character classes and letter case

White space, ASCII case folding and full case conversion of text.

Main definitions:

- `isBlank` and `trim`, `trimStart`, `trimEnd`: the blank characters and their removal
  at the ends of a text.
- `lower` and `upper`: full case conversion, including characters whose other case is
  several characters and the word-final form of sigma.
- `lowerAscii` and `equalAscii`: the conversions that only touch ASCII letters.
-/

namespace SqlCompiler.Text

/-! ## Blank characters -/

/-- The characters with the `White_Space` property. -/
def isBlank (c : Char) : Bool :=
  let n := c.toNat
  (9 ≤ n && n ≤ 13) || n == 0x20 || n == 0x85 || n == 0xa0 || n == 0x1680 ||
    (0x2000 ≤ n && n ≤ 0x200a) || n == 0x2028 || n == 0x2029 || n == 0x202f ||
    n == 0x205f || n == 0x3000

/-- Drop the blanks at the start. -/
def trimStart (s : String) : String :=
  String.ofList (s.toList.dropWhile isBlank)

/-- Drop the blanks at the end. -/
def trimEnd (s : String) : String :=
  String.ofList (s.toList.reverse.dropWhile isBlank).reverse

/-- Drop the blanks at both ends. -/
def trim (s : String) : String :=
  trimEnd (trimStart s)

/-! ## ASCII letters -/

/-- Lower every ASCII letter and keep every other character. -/
def lowerAscii (s : String) : String :=
  s.map Char.toLower

/-- Equality that ignores the case of ASCII letters. -/
def equalAscii (s t : String) : Bool :=
  lowerAscii s == lowerAscii t

/-! ## Full case conversion -/

/-- Whether a sorted table of closed ranges covers the code point. -/
def inRanges (ranges : Array (Nat × Nat)) (code : Nat) : Bool :=
  ranges.any fun (first, last) => first ≤ code && code ≤ last

/-- The code point moved by the first run that lists it. -/
def shifted (runs : Array CaseRun) (c : Char) : Char :=
  match runs.find? (·.contains c.toNat) with
  | some run => Char.ofNat (c.toNat + run.shift).toNat
  | none => c

/-- The first character that is not skipped by a word scan is a cased one. -/
def meetsCased : List Char → Bool
  | [] => false
  | c :: rest =>
    if inRanges caseIgnorableRanges c.toNat then meetsCased rest
    else inRanges casedRanges c.toNat

/-- Lower case of a character, given the characters before it (nearest first) and after
it.  A capital sigma that ends a word has its own form. -/
def lowerChar (before : List Char) (c : Char) (after : List Char) : List Char :=
  if c.toNat < 0x80 then [c.toLower]
  else if c.toNat == 0x130 then ['i', Char.ofNat 0x307]
  else if c.toNat == 0x3a3 then
    [Char.ofNat (if meetsCased before && !meetsCased after then 0x3c2 else 0x3c3)]
  else [shifted lowerRuns c]

/-- Lower case of the text that follows `before` (nearest character first). -/
def lowerFrom (before : List Char) : List Char → List Char
  | [] => []
  | c :: after => lowerChar before c after ++ lowerFrom (c :: before) after

/-- Upper case of a character. -/
def upperChar (c : Char) : List Char :=
  if c.toNat < 0x80 then [c.toUpper]
  else
    match upperExpansions.find? (·.1 == c.toNat) with
    | some (_, codes) => codes.map Char.ofNat
    | none => [shifted upperRuns c]

/-- The text in lower case. -/
def lower (s : String) : String :=
  String.ofList (lowerFrom [] s.toList)

/-- The text in upper case. -/
def upper (s : String) : String :=
  String.ofList (s.toList.flatMap upperChar)

end SqlCompiler.Text
