import SqlCompiler.Text.Numeral

/-!
# Replacement of text and templates

In a replacement every occurrence of a pattern, from left to right and without overlaps, is
replaced.  The empty pattern occurs before every character and at the end.

A template is a text in which `{0}`, `{1}`, ... stand for arguments.  Braces around anything
else than a count are plain text, and so is an opening brace without a closing one.

Main definitions:

- `Text.replaceAll`: a text with a pattern replaced.
- `Text.Piece` and `Text.pieces`: a template taken apart.
-/

namespace SqlCompiler.Text

/-! ## Replacement -/

/-- Replace a non-empty pattern, after dropping the `skip` characters of an occurrence. -/
def replaceFrom (pattern new : List Char) : Nat → List Char → List Char
  | _, [] => []
  | skip + 1, _ :: rest => replaceFrom pattern new skip rest
  | 0, c :: rest =>
    if pattern.isPrefixOf (c :: rest) then
      new ++ replaceFrom pattern new (pattern.length - 1) rest
    else c :: replaceFrom pattern new 0 rest

/-- Replace every occurrence of a pattern. -/
def replaceAll (s pattern new : String) : String :=
  if pattern.isEmpty then
    String.ofList (new.toList ++ s.toList.flatMap fun c => c :: new.toList)
  else String.ofList (replaceFrom pattern.toList new.toList 0 s.toList)

/-- Whether a text begins with another one. -/
def startsWith (s start : String) : Bool :=
  start.toList.isPrefixOf s.toList

/-- Whether the text occurs in a list of characters. -/
def occursIn (pattern : List Char) : List Char → Bool
  | [] => pattern.isEmpty
  | c :: rest => pattern.isPrefixOf (c :: rest) || occursIn pattern rest

/-- Whether a text contains another one. -/
def contains (s pattern : String) : Bool :=
  occursIn pattern.toList s.toList

/-! ## Templates -/

/-- A part of a template. -/
inductive Piece where
  | literal (text : String)
  /-- The place of an argument. -/
  | argument (index : Nat)
  deriving DecidableEq, Repr, Inhabited

/-- The piece of the characters read so far, the last one first. -/
def literalOf (reversed : List Char) : Piece :=
  .literal (String.ofList reversed.reverse)

/-- The pieces of a template after the plain text `before` and, if a brace is open, what was
read since; both are kept in reverse. -/
def piecesFrom (before : List Char) (inside : Option (List Char)) : List Char → List Piece
  | [] =>
    match inside with
    | none => [literalOf before]
    | some hole => [literalOf (hole ++ '\x7b' :: before)]
  | c :: rest =>
    match inside with
    | none =>
      if c == '\x7b' then piecesFrom before (some []) rest
      else piecesFrom (c :: before) none rest
    | some hole =>
      if c != '\x7d' then piecesFrom before (some (c :: hole)) rest
      else
        match readCount? (String.ofList hole.reverse) with
        | some index => literalOf before :: .argument index :: piecesFrom [] none rest
        | none => piecesFrom ('\x7d' :: hole ++ '\x7b' :: before) none rest

/-- A template taken apart. -/
def pieces (template : String) : List Piece :=
  piecesFrom [] none template.toList

end SqlCompiler.Text
