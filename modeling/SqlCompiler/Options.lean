import SqlCompiler.Error
import SqlCompiler.Text.Letters
import SqlCompiler.Text.Numeral

/-!
# Options

Switches and limits read by the compiler, taken from an environment of named texts.

Main definitions:

- `Options` and its defaults.
- `Options.ofEnvironment`: options from named texts; the first text that cannot be read is an
  error.
-/

namespace SqlCompiler

/-- Switches and limits of a compilation. -/
structure Options where
  /-- Write `as alias` for the columns of the outermost select even where it says nothing. -/
  finalAliases : Bool := false
  /-- Trace the shape of every compiled query. -/
  trace : Bool := false
  /-- Longer binary parameters are cut when they are printed. -/
  maxBinaryLength : Nat := 100
  /-- Longer text parameters are cut when they are printed. -/
  maxTextLength : Nat := 200
  /-- Overrides the provider's limit on the length of a value list. -/
  maxInListValues : Option Nat := none
  deriving DecidableEq, Repr, Inhabited

namespace Options

/-- The key of `finalAliases`. -/
def finalAliasesKey : String := "LINQ_SQL_GENERATE_FINAL_ALIASES"

/-- The key of `trace`. -/
def traceKey : String := "LINQ_SQL_TRACE_MAPPER_EXPRESSION"

/-- The key of `maxBinaryLength`. -/
def maxBinaryKey : String := "LINQ_SQL_MAX_BINARY_PARAMETER_LENGTH_LOGGING"

/-- The key of `maxTextLength`. -/
def maxTextKey : String := "LINQ_SQL_MAX_STRING_PARAMETER_LENGTH_LOGGING"

/-- The key of `maxInListValues`. -/
def maxInListKey : String := "LINQ_SQL_MAX_IN_LIST_VALUES"

/-- A switch: `true`, `1`, `false` or `0`, in any case, between blanks. -/
def readFlag (env : String → Option String) (key : String) (default : Bool) :
    Except OptionError Bool :=
  match env key with
  | none => .ok default
  | some text =>
    match Text.lowerAscii (Text.trim text) with
    | "true" | "1" => .ok true
    | "false" | "0" => .ok false
    | _ => .error (.invalidFlag key text)

/-- A count between blanks, if the key is set. -/
def readCount (env : String → Option String) (key : String) : Except OptionError (Option Nat) :=
  match env key with
  | none => .ok none
  | some text =>
    match Text.readCount? (Text.trim text) with
    | some n => .ok (some n)
    | none => .error (.invalidCount key text)

/-- The options an environment sets, the others at their defaults. -/
def ofEnvironment (env : String → Option String) : Except OptionError Options := do
  let defaults : Options := {}
  let finalAliases ← readFlag env finalAliasesKey defaults.finalAliases
  let trace ← readFlag env traceKey defaults.trace
  let maxBinary ← readCount env maxBinaryKey
  let maxText ← readCount env maxTextKey
  let maxInListValues ← readCount env maxInListKey
  return {
    finalAliases, trace, maxInListValues
    maxBinaryLength := maxBinary.getD defaults.maxBinaryLength
    maxTextLength := maxText.getD defaults.maxTextLength }

end Options

end SqlCompiler
