import SqlCompiler.Term.Basic
import SqlCompiler.Text.Decimal

/-!
# Terms as text

Terms are written in method syntax, `Person.Where(x => (x.Age > 18))`.

Main definitions:

- `Constant.termText`: a constant inside a term.
- `Term.text`.
-/

namespace SqlCompiler

/-- Named members in braces. -/
def bracedMembers (members : List (String × String)) : String :=
  "\x7b " ++ ", ".intercalate (members.map fun (name, text) => name ++ " = " ++ text) ++ " \x7d"

/-- A call in method syntax: the first argument stands in front. -/
def methodCall (name : String) (args : List String) : String :=
  match args with
  | [] => name ++ "()"
  | receiver :: rest => receiver ++ "." ++ name ++ "(" ++ ", ".intercalate rest ++ ")"

namespace Constant

mutual

/-- A constant inside a term. -/
def termText : Constant → String
  | null => "null"
  | boolean b => if b then "true" else "false"
  | integer n => toString n
  | float f => Text.FloatStyle.plain.text f
  | decimal digits => digits ++ "m"
  | text s => "\"" ++ s ++ "\""
  | binary bytes => "byte[" ++ toString bytes.length ++ "]"
  | date d => d.text
  | time t => t.text
  | timestamp t => t.text
  | list items => "[" ++ ", ".intercalate (termTexts items) ++ "]"
  | record members => bracedMembers (memberTexts members)
termination_by structural c => c

/-- A list of constants inside a term. -/
def termTexts : List Constant → List String
  | [] => []
  | c :: rest => c.termText :: termTexts rest
termination_by structural cs => cs

/-- The members of a record inside a term. -/
def memberTexts : List (String × Constant) → List (String × String)
  | [] => []
  | (name, c) :: rest => (name, c.termText) :: memberTexts rest
termination_by structural ms => ms

end

end Constant

namespace Term

mutual

/-- A term in method syntax. -/
def text : Term → String
  | constant value => value.termText
  | parameter name _ => name
  | bound name => name
  | table name => name
  | member owner name => owner.text ++ "." ++ name
  | call operator args => methodCall operator.text (texts args)
  | function name args => methodCall name (texts args)
  | lambda [param] body => param ++ " => " ++ body.text
  | lambda params body => "(" ++ ", ".intercalate params ++ ") => " ++ body.text
  | binary operator left right =>
    "(" ++ left.text ++ " " ++ operator.sign ++ " " ++ right.text ++ ")"
  | not operand => "!" ++ operand.text
  | negate operand => "-" ++ operand.text
  | conditional test yes no =>
    "(" ++ test.text ++ " ? " ++ yes.text ++ " : " ++ no.text ++ ")"
  | convert operand target => "Convert(" ++ operand.text ++ ", " ++ target.name ++ ")"
  | record members => "new " ++ bracedMembers (textsOfMembers members)
  | entity name members => "new " ++ name ++ " " ++ bracedMembers (textsOfMembers members)
  | quote body => body.text
termination_by structural t => t

/-- Terms in method syntax. -/
def texts : List Term → List String
  | [] => []
  | t :: rest => t.text :: texts rest
termination_by structural ts => ts

/-- Members in method syntax. -/
def textsOfMembers : List (String × Term) → List (String × String)
  | [] => []
  | (name, t) :: rest => (name, t.text) :: textsOfMembers rest
termination_by structural ms => ms

end

end Term

end SqlCompiler
