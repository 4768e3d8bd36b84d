/-!
# Errors

Why a query, a statement or a set of options is refused.  Every error is final: nothing is
retried and no partial statement is handed out.

Main definitions:

- `OptionError`: an option whose text is not of the expected form.
- `SqlError`: the causes met while building, legalizing and rendering, with
  `SqlError.message`.
-/

namespace SqlCompiler

/-- An option with a text that cannot be read. -/
inductive OptionError where
  | invalidFlag (key value : String)
  | invalidCount (key value : String)
  deriving DecidableEq, Repr, Inhabited

/-- The wording of an option error. -/
def OptionError.message : OptionError → String
  | invalidFlag key value => "Option " ++ key ++ " expects true or false, found '" ++ value ++ "'."
  | invalidCount key value => "Option " ++ key ++ " expects a count, found '" ++ value ++ "'."

/-- Why a statement is refused. -/
inductive SqlError where
  /-- A construct has no legal form on the provider. -/
  | unsupported (construct provider : String)
  /-- A field, column or table cannot be resolved, or lacks an alias it needs. -/
  | resolution (detail : String)
  /-- Several candidates match equally well. -/
  | ambiguousPattern (name : String) (candidates : List String)
  /-- No rule accepts the sequence. -/
  | sequenceNotConvertible (sequence : String)
  /-- An expression has no form in SQL. -/
  | untranslatable (expression reason : String)
  /-- A value cannot stand where it does. -/
  | unusableValue (reason : String)
  | config (cause : OptionError)
  | withContext (context : String) (cause : SqlError)
  deriving DecidableEq, Repr, Inhabited

namespace SqlError

/-- The wording of an error. -/
def message : SqlError → String
  | unsupported construct provider =>
    construct ++ " is not supported by the '" ++ provider ++ "' provider."
  | resolution detail => detail
  | ambiguousPattern name candidates =>
    "Ambiguous match for '" ++ name ++ "': " ++ ", ".intercalate candidates
  | sequenceNotConvertible sequence => "Sequence '" ++ sequence ++ "' cannot be converted to SQL."
  | untranslatable expression reason => "Cannot translate '" ++ expression ++ "': " ++ reason
  | unusableValue reason => reason
  | config cause => "Configuration error: " ++ cause.message
  | withContext context cause => context ++ " " ++ cause.message

end SqlError

end SqlCompiler
