import SqlCompiler.Lowering.Standard
import SqlCompiler.Lowering.Statement
import SqlCompiler.Render.Statement
import SqlCompiler.Store.Reach
import SqlCompiler.Term.Normalize

/-!
# Compiling terms

A term is normalized, lowered to a statement, rid of unused columns, legalized for its provider
and rendered.

Main definitions:

- `Compiler`: a schema, a provider and options.
- `Compiler.compile`: the commands of a term and how their result is read.
-/

namespace SqlCompiler

/-- What terms are compiled for. -/
structure Compiler where
  schema : Schema
  provider : Provider
  options : Options := {}
  rules : List Rule := standardRules

/-- The commands of a term and how their result is read. -/
structure Compiled where
  rendered : Rendered
  shape : ResultShape

namespace Compiler

variable (c : Compiler)

/-- Run lowering steps on an empty store, with the order of rules that earlier terms led to. -/
def runLowering {α : Type} (r : Ranking) (steps : LowerM α) : Except SqlError α × LowerState :=
  (steps.run { schema := c.schema, provider := c.provider }).run.run { ranking := r }

/-- The order in which the rules of the compiler are asked at first. -/
def initialRanking : Ranking := Ranking.ofRules c.rules

/-- Legalize and render a statement that was lowered. -/
def finish (s : Store) (statement : Statement) : Except SqlError Rendered :=
  let (t, s) := s.addStatement statement
  ((compileStatement c.provider c.options t).runOn (s.pruneColumns t)).1

/-- Compile a term.  The uses of rules count for later terms also if the term is refused. -/
def compile (r : Ranking) (t : Term) : Except SqlError Compiled × Ranking :=
  let t := t.normalize
  let (result, state) := c.runLowering r do (← lowerSequence c.rules t).toStatement
  let compiled := do
    let (statement, shape) ← result
    return { rendered := ← c.finish state.store statement, shape : Compiled }
  (compiled, state.ranking.reorder)

end Compiler

/-- The provider of a name. -/
def ProviderRegistry.get (registry : ProviderRegistry) (name : String) :
    Except SqlError Provider :=
  match registry.find? name with
  | some p => .ok p
  | none => .error (.resolution ("No data provider named '" ++ name ++ "' is registered."))

end SqlCompiler
