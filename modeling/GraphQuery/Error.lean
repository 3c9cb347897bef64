import GraphQuery.Expr.Shape

/-!
# Errors

The causes for which a query cannot be compiled, with one message for each. An expression that cannot run on the
server is no error: it is left to the client.
-/

namespace GraphQuery

/-- Why a read cannot be written as text. -/
inductive RenderError where
  | unsupportedExpression (kind : ExprKind)
  | unaliasedNode (property : String)
  | noStarNode
  | nestedRead
  | invalidIdentifier (name : String)
  | noLiteral (type : ValueType)
  | missingParameter (name : String)
  deriving DecidableEq

/-- The text of a rendering error. -/
def RenderError.message : RenderError → String
  | unsupportedExpression kind => "cannot render " ++ kind.text ++ " expression"
  | unaliasedNode property =>
    "storage expression for '" ++ property ++ "' references a node without an alias"
  | noStarNode => "return star is set but no node can be returned"
  | nestedRead => "nested read clause cannot be rendered"
  | invalidIdentifier name =>
    "invalid identifier '" ++ name
      ++ "': must be a letter or underscore followed by letters, digits or underscores"
  | noLiteral type => "no literal mapping for value of type " ++ type.text
  | missingParameter name => "missing value for parameter '" ++ name ++ "'"

/-- Why a read is not well formed. -/
inductive ReadError where
  | duplicateAlias (name : String)
  | emptyPattern (index : Nat)
  | unaliasedStorage (property : String)
  deriving DecidableEq

/-- The text of an error in a read. -/
def ReadError.message : ReadError → String
  | duplicateAlias name => "duplicate return alias '" ++ name ++ "'"
  | emptyPattern index => "reading clause " ++ toString index ++ " has an empty pattern"
  | unaliasedStorage property =>
    "storage expression for '" ++ property ++ "' is bound to a node without an alias"

/-- Why settings cannot be used. -/
inductive SettingsError where
  /-- The settings file cannot be read. -/
  | unreadable
  /-- The text is not a settings document. -/
  | malformed
  | emptyAliasPrefix
  | emptyParameterPrefix
  | indentNotBlank
  deriving DecidableEq

/-- The text of an error in settings. -/
def SettingsError.message : SettingsError → String
  | unreadable => "the settings file cannot be read"
  | malformed => "the settings are malformed"
  | emptyAliasPrefix => "Invalid value for binding.default_alias_prefix: must not be empty"
  | emptyParameterPrefix => "Invalid value for generation.parameter_prefix: must not be empty"
  | indentNotBlank => "Invalid value for generation.indent: must contain only whitespace"

/-- The query shapes that are not compiled. -/
inductive UnsupportedShape where
  /-- A source takes its items from another query. -/
  | nestedSource (itemName : String)
  /-- A join names neither a relationship nor both keys. -/
  | keylessJoin (itemName : String)
  /-- A condition stands where there is no pattern to attach it to. -/
  | unattachedPredicate
  deriving DecidableEq

/-- The text of an unsupported query shape. -/
def UnsupportedShape.message : UnsupportedShape → String
  | nestedSource itemName => "source '" ++ itemName ++ "' wraps a nested query"
  | keylessJoin itemName =>
    "join of '" ++ itemName ++ "' has neither a relationship nor key selectors"
  | unattachedPredicate => "predicate without a match clause"

/-- Why a query cannot be compiled. -/
inductive CompileError where
  | unknownEntity (name : String)
  | unknownSource (id : SourceId)
  | unsupported (shape : UnsupportedShape)
  | invalidSettings (cause : SettingsError)
  | invalidRead (cause : ReadError)
  | render (cause : RenderError)
  deriving DecidableEq

/-- The text of a compilation error. -/
def CompileError.message : CompileError → String
  | unknownEntity name => "unknown entity '" ++ name ++ "'"
  | unknownSource id => id.text ++ " is not registered with any read"
  | unsupported shape => "unsupported query shape: " ++ shape.message
  | invalidSettings cause => "invalid configuration: " ++ cause.message
  | invalidRead cause => cause.message
  | render cause => cause.message

end GraphQuery
