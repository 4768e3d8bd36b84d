import SqlCompiler.Error
import SqlCompiler.Exchange.Constant

/-!
# Errors as JSON

Main definitions:

- `describeError`: the kind and the wording of an error.
- `describeResult`: a value, or the error met instead.
-/

namespace SqlCompiler.Exchange

/-- The kind of an error. -/
def errorKind : SqlError → String
  | .unsupported .. => "Unsupported"
  | .resolution _ => "Resolution"
  | .ambiguousPattern .. => "AmbiguousPattern"
  | .sequenceNotConvertible _ => "SequenceNotConvertible"
  | .untranslatable .. | .unusableValue _ => "Translation"
  | .config _ => "Config"
  | .withContext .. => "WithContext"

/-- The kind and the wording of an error. -/
def describeError (e : SqlError) : Json :=
  .object [("error", .text (errorKind e)), ("message", .text e.message)]

/-- A value, or the error met instead. -/
def describeResult {α : Type} (write : α → Json) : Except SqlError α → Json
  | .ok a => write a
  | .error e => describeError e

/-- The kind of an option error. -/
def optionErrorKind : OptionError → String
  | .invalidFlag .. => "InvalidFlag"
  | .invalidCount .. => "InvalidCount"

/-- The kind and the wording of an option error, alone and as an error of a statement. -/
def describeOptionError (e : OptionError) : Json :=
  .object [("error", .text (optionErrorKind e)), ("message", .text e.message),
    ("wrapped", .text (SqlError.config e).message)]

/-- An error: its kind, then what it is about. -/
def readError (j : Json) : Decode SqlError := do
  let part (i : Nat) : Decode String := readText (j.item i)
  match ← part 0 with
  | "Unsupported" => return .unsupported (← part 1) (← part 2)
  | "Resolution" => return .resolution (← part 1)
  | "Translation" => return .untranslatable (← part 1) (← part 2)
  | "SequenceNotConvertible" => return .sequenceNotConvertible (← part 1)
  | "AmbiguousPattern" => return .ambiguousPattern (← part 1) (← readList readText (j.item 2))
  | other => .error ("unknown error " ++ other)

end SqlCompiler.Exchange
