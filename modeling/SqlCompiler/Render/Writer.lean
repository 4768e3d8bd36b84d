import SqlCompiler.Data.Constant
import SqlCompiler.Provider.Dialect
import SqlCompiler.Text.Letters
import SqlCompiler.Text.Template

/-!
# Text under construction

A writer holds the text of a command written so far, the parameters the text refers to in
order of their first use, what each placeholder in the text stands for, and the depth of
indentation.

Main definitions:

- `Quoting.identifier`: an identifier as a dialect writes it.
- `Writer` with `add`, `newline`, `indentation`, `identifier`, `column`, `parameter`.
- `Writer.nested` and `Writer.append`: a part written on its own and put at the end.
-/

namespace SqlCompiler

/-! ## Identifiers -/

/-- Put an identifier between marks, the closing mark inside it written twice. -/
def enclosed (first last : Char) (s : String) : String :=
  String.singleton first ++ Dialect.doubled last s ++ String.singleton last

/-- A lower case ASCII word, which needs no quotes. -/
def isPlainName (s : String) : Bool :=
  match s.toList with
  | [] => false
  | c :: rest =>
    (c.isLower || c == '_') && rest.all fun c => c.isLower || c.isDigit || c == '_'

/-- An identifier as it is written. -/
def Quoting.identifier (quoting : Quoting) (s : String) : String :=
  match quoting with
  | .none => s
  | .brackets => enclosed '[' ']' s
  | .doubleQuotes => enclosed '"' '"' s
  | .doubleQuotesWhenNeeded => if isPlainName s then s else enclosed '"' '"' s

/-! ## Writers -/

/-- Text under construction. -/
structure Writer where
  text : String := ""
  /-- The parameters referred to, in order of first use; each name is bound once. -/
  params : List Parameter := []
  /-- What each placeholder was written for, in the order they were written. -/
  placeholders : List Parameter := []
  quoting : Quoting
  parameterPrefix : Char
  indent : Nat := 0
  deriving Inhabited

namespace Writer

/-- An empty writer. -/
def new (quoting : Quoting) (parameterPrefix : Char) : Writer := { quoting, parameterPrefix }

/-- An empty writer with the conventions and the indentation of another one. -/
def nested (w : Writer) : Writer :=
  { quoting := w.quoting, parameterPrefix := w.parameterPrefix, indent := w.indent }

/-- Add a text. -/
def add (w : Writer) (s : String) : Writer := { w with text := w.text ++ s }

/-- Start a new line. -/
def newline (w : Writer) : Writer := w.add "\n"

/-- A tab for each level of indentation. -/
def indentation (w : Writer) : Writer :=
  w.add (String.ofList (List.replicate w.indent '\t'))

/-- One level deeper. -/
def deeper (w : Writer) : Writer := { w with indent := w.indent + 1 }

/-- One level back. -/
def shallower (w : Writer) : Writer := { w with indent := w.indent - 1 }

/-- Add an identifier. -/
def identifier (w : Writer) (s : String) : Writer := w.add (w.quoting.identifier s)

/-- Add a column behind its qualifier, which is written as it is. -/
def column (w : Writer) (qualifier : Option String) (name : String) : Writer :=
  let w := match qualifier with
    | some q => w.add (q ++ ".")
    | none => w
  w.identifier name

/-- Bind a parameter, unless its name is bound. -/
def bind (params : List Parameter) (p : Parameter) : List Parameter :=
  if params.any (·.name == p.name) then params else params ++ [p]

/-- Add a placeholder for a parameter and bind it. -/
def parameter (w : Writer) (p : Parameter) : Writer :=
  { w.add (String.singleton w.parameterPrefix ++ p.name) with
    params := bind w.params p
    placeholders := w.placeholders ++ [p] }

/-- Add identifiers with a separator between them. -/
def identifiers (w : Writer) (names : List String) (separator : String) : Writer :=
  w.add (separator.intercalate (names.map w.quoting.identifier))

/-- The number of bytes of the text. -/
def length (w : Writer) : Nat := w.text.utf8ByteSize

/-- The number of bytes since the last line break. -/
def lineLength (w : Writer) : Nat :=
  (w.text.toList.reverse.takeWhile (· != '\n')).foldl (fun n c => n + c.utf8Size) 0

/-- No text. -/
def isEmpty (w : Writer) : Bool := w.text.isEmpty

/-- Add the text of another writer and bind its parameters. -/
def append (w other : Writer) : Writer :=
  { w with
    text := w.text ++ other.text
    params := other.params.foldl bind w.params
    placeholders := w.placeholders ++ other.placeholders }

/-- Replace a text in everything written so far. -/
def replaceAll (w : Writer) (pattern new : String) : Writer :=
  { w with text := Text.replaceAll w.text pattern new }

/-- Put a text at the front. -/
def prepend (w : Writer) (s : String) : Writer := { w with text := s ++ w.text }

/-- Drop the blanks at the end. -/
def trimEnd (w : Writer) : Writer := { w with text := Text.trimEnd w.text }

end Writer

end SqlCompiler
