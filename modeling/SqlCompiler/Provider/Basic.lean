import SqlCompiler.Provider.Functions

/-!
# Providers

A provider is a dialect under a name, with what it can express.  Statements are legalized by
the rules of the dialect, which may go by capabilities of their own.

Main definitions:

- `Provider`, `Provider.ofDialect` and `Provider.generic`.
- `ProviderRegistry`: the providers known by name, the built-in ones to begin with.
-/

namespace SqlCompiler

/-- A named dialect with its capabilities. -/
structure Provider where
  name : String
  dialect : Dialect
  capabilities : Capabilities
  /-- The name the legalization rules report. -/
  rulesName : String
  /-- The capabilities the legalization rules go by. -/
  rules : Capabilities
  functions : FunctionCatalog

namespace Provider

/-- A dialect as it is. -/
def ofDialect (d : Dialect) : Provider :=
  { name := d.name
    dialect := d
    capabilities := d.capabilities
    rulesName := d.name
    rules := d.capabilities
    functions := d.functions }

/-- The generic dialect under a name and with given capabilities. -/
def generic (name : String) (capabilities : Capabilities) : Provider :=
  { ofDialect .generic with name, capabilities, rulesName := name, rules := capabilities }

/-- The error of a construct the provider does not support. -/
def unsupported (p : Provider) (construct : String) : SqlError :=
  .unsupported construct p.name

/-- The error the legalization rules report for a construct. -/
def rulesUnsupported (p : Provider) (construct : String) : SqlError :=
  .unsupported construct p.rulesName

end Provider

/-- Providers by name. -/
structure ProviderRegistry where
  providers : Members Provider

namespace ProviderRegistry

/-- The built-in dialects. -/
def builtin : ProviderRegistry :=
  ⟨Dialect.all.map fun d => (d.name, .ofDialect d)⟩

/-- The provider of that name. -/
def find? (registry : ProviderRegistry) (name : String) : Option Provider :=
  Members.get? name registry.providers

/-- Add a provider under its name; the one it replaces is handed back. -/
def register (registry : ProviderRegistry) (provider : Provider) :
    Option Provider × ProviderRegistry :=
  (registry.find? provider.name, ⟨Members.insert provider.name provider registry.providers⟩)

/-- The names, sorted. -/
def names (registry : ProviderRegistry) : List String :=
  (Members.names registry.providers).mergeSort fun a b => decide (a ≤ b)

end ProviderRegistry

end SqlCompiler
