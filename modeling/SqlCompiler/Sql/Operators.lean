/-!
# Operators and their binding strength

Main definitions:

- `Precedence`: how tightly operators bind, and `Precedence.needsWrap`, the rule by which an
  operand is put in parentheses.
- `BinaryOperator`, `Comparison`, `SearchKind`: the operators of scalars and predicates.
-/

namespace SqlCompiler

/-- Binding strength; a higher one binds tighter. -/
abbrev Precedence := Int

namespace Precedence

/-- Literals, names and calls. -/
def primary : Precedence := 100

/-- A sign. -/
def unary : Precedence := 90

/-- Multiplication, division and remainder. -/
def multiplicative : Precedence := 80

/-- Subtraction, which binds tighter than addition. -/
def subtraction : Precedence := 70

/-- Addition and concatenation. -/
def additive : Precedence := 60

/-- Comparisons and the other predicates. -/
def comparison : Precedence := 50

/-- Bit operators. -/
def bitwise : Precedence := 40

/-- `NOT`. -/
def logicalNegation : Precedence := 30

/-- `AND`. -/
def logicalConjunction : Precedence := 20

/-- `OR`. -/
def logicalDisjunction : Precedence := 10

/-- Nothing is known; always in parentheses as an operand, never as a parent. -/
def unknown : Precedence := 0

/-- Whether an operand of strength `inner` is put in parentheses under a parent of strength
`parent`.  Operands of the same strength are wrapped where grouping matters. -/
def needsWrap (inner parent : Precedence) : Bool :=
  inner == unknown || inner < parent ||
    (inner == parent &&
      (parent == subtraction || parent == multiplicative || parent == logicalNegation))

end Precedence

/-- Infix operators of scalars. -/
inductive BinaryOperator where
  | add | subtract | multiply | divide | modulo | bitAnd | bitOr | bitXor | concat
  deriving DecidableEq, Repr, Inhabited

namespace BinaryOperator

/-- Every operator. -/
def all : List BinaryOperator :=
  [add, subtract, multiply, divide, modulo, bitAnd, bitOr, bitXor, concat]

/-- The operator's sign. -/
def sign : BinaryOperator → String
  | add => "+"
  | subtract => "-"
  | multiply => "*"
  | divide => "/"
  | modulo => "%"
  | bitAnd => "&"
  | bitOr => "|"
  | bitXor => "^"
  | concat => "||"

/-- The operator's binding strength. -/
def precedence : BinaryOperator → Precedence
  | multiply | divide | modulo => .multiplicative
  | subtract => .subtraction
  | add | concat => .additive
  | bitAnd | bitOr | bitXor => .bitwise

end BinaryOperator

/-- Operators of comparison predicates. -/
inductive Comparison where
  | equal | notEqual | greater | greaterOrEqual | notGreater | less | lessOrEqual | notLess
  | overlaps
  deriving DecidableEq, Repr, Inhabited

namespace Comparison

/-- Every operator. -/
def all : List Comparison :=
  [equal, notEqual, greater, greaterOrEqual, notGreater, less, lessOrEqual, notLess, overlaps]

/-- The operator's sign. -/
def sign : Comparison → String
  | equal => "="
  | notEqual => "<>"
  | greater => ">"
  | greaterOrEqual => ">="
  | notGreater => "!>"
  | less => "<"
  | lessOrEqual => "<="
  | notLess => "!<"
  | overlaps => "OVERLAPS"

/-- The operator that yields the same result with the operands swapped. -/
def swap : Comparison → Comparison
  | greater => less
  | greaterOrEqual => lessOrEqual
  | less => greater
  | lessOrEqual => greaterOrEqual
  | notGreater => notLess
  | notLess => notGreater
  | other => other

/-- `=` and `<>`. -/
def isEquality : Comparison → Bool
  | equal | notEqual => true
  | _ => false

/-- Swapping twice gives the operator back. -/
@[simp] theorem swap_swap (op : Comparison) : op.swap.swap = op := by
  cases op <;> rfl

end Comparison

/-- Where a search string has to occur. -/
inductive SearchKind where
  | startsWith | endsWith | contains
  deriving DecidableEq, Repr, Inhabited

end SqlCompiler
