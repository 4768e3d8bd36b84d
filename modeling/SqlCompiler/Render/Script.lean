import SqlCompiler.Options
import SqlCompiler.Render.Writer

/-!
# Parameters as a script

Parameters written as statements that declare and set them, for a log.  Long texts and byte
strings are cut.

Main definitions:

- `Constant.outline`: a text for any constant, also for those without a literal form.
- `Dialect.parameterScript`: the script of a list of parameters.
-/

namespace SqlCompiler

namespace Constant

/-- A text in double quotes, with quotes, backslashes and line breaks escaped. -/
def outlineText (s : String) : String :=
  let escaped (c : Char) : List Char :=
    match c with
    | '"' => ['\\', '"']
    | '\\' => ['\\', '\\']
    | '\n' => ['\\', 'n']
    | '\r' => ['\\', 'r']
    | '\t' => ['\\', 't']
    | c => [c]
  "\"" ++ String.ofList (s.toList.flatMap escaped) ++ "\""

mutual

/-- A text that shows the kind and the value of a constant. -/
def outline : Constant → String
  | null => "Null"
  | boolean b => "Boolean(" ++ (if b then "true" else "false") ++ ")"
  | integer i => "Integer(" ++ toString i ++ ")"
  | float f => "Float(" ++ Text.FloatStyle.literal.text f ++ ")"
  | decimal digits => "Decimal(" ++ outlineText digits ++ ")"
  | text s => "String(" ++ outlineText s ++ ")"
  | binary bytes => "Binary([" ++ ", ".intercalate (bytes.map fun b => toString b.toNat) ++ "])"
  | date value => "Date(" ++ value.text ++ ")"
  | time value => "Time(" ++ value.text ++ ")"
  | timestamp value => "DateTime(" ++ value.text ++ ")"
  | list items => "List([" ++ ", ".intercalate (outlines items) ++ "])"
  | record members => "Record([" ++ ", ".intercalate (outlineMembers members) ++ "])"
termination_by structural c => c

/-- The texts of a list of constants. -/
def outlines : List Constant → List String
  | [] => []
  | c :: rest => c.outline :: outlines rest
termination_by structural cs => cs

/-- The texts of the members of a record. -/
def outlineMembers : List (String × Constant) → List String
  | [] => []
  | (name, c) :: rest => (outlineText name ++ ": " ++ c.outline) :: outlineMembers rest
termination_by structural ms => ms

end

end Constant

/-- A constant cut to the length that is logged, and the length it had if it was cut. -/
def Options.cut (options : Options) (value : Constant) : Constant × Option Nat :=
  match value with
  | .text s =>
    if s.length > options.maxTextLength then
      (.text (String.ofList (s.toList.take options.maxTextLength)), some s.length)
    else (value, none)
  | .binary bytes =>
    if bytes.length > options.maxBinaryLength then
      (.binary (bytes.take options.maxBinaryLength), some bytes.length)
    else (value, none)
  | _ => (value, none)

/-- The statements that declare and set one parameter. -/
def Dialect.declaration (d : Dialect) (options : Options) (p : Parameter) : String :=
  let type := if p.type.kind == .undefined then p.value.naturalType else p.type
  let name := String.singleton d.parameterPrefix ++ p.name
  let (value, length) := options.cut p.value
  let literal := (d.literal? value type).getD value.outline
  let remark :=
    match length with
    | some n => "\n-- value above truncated for logging, actual length is " ++ toString n
    | none => ""
  "DECLARE " ++ name ++ " " ++ d.typeName type ++ " -- " ++ type.kind.name ++ "\n" ++
    "SET     " ++ name ++ " = " ++ literal ++ remark ++ "\n\n"

/-- The script of a list of parameters. -/
def Dialect.parameterScript (d : Dialect) (options : Options) (params : List Parameter) : String :=
  String.join (params.map (d.declaration options))

end SqlCompiler
