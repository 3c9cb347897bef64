import GraphQuery.Error
import GraphQuery.Text

/-!
# Settings

What can be chosen about the text of a query and about the binding of its expressions.
-/

namespace GraphQuery

/-- Settings for the text of a query. -/
structure TextSettings where
  /-- The mark around property names and output names. -/
  identifierQuote : Char := '\x22'
  /-- The text between an expression and its output name. -/
  aliasSeparator : String := " AS "
  /-- One level of indent. -/
  indent : String := "    "
  /-- The text for a branch that is the constant `true`. -/
  trueLiteral : String := "true"
  /-- The text for a branch that is the constant `false`. -/
  falseLiteral : String := "false"
  /-- Whether constants are sent as parameters instead of being written as literals. -/
  parameterizeLiterals : Bool := false
  /-- The start of the names of parameters for constants. -/
  parameterPrefix : String := "p"

/-- Settings for the binding of expressions. -/
structure BindingSettings where
  /-- The output name of an item that has no name of its own. -/
  defaultAliasPrefix : String := "s"
  /-- Whether the constant members of a constructed object are sent to the server. -/
  projectConstants : Bool := false

/-- All settings of a compiler. -/
structure Settings where
  text : TextSettings := {}
  binding : BindingSettings := {}

namespace Settings

/-- Whether settings can be used: both prefixes hold something, and an indent holds white space only. -/
def check (s : Settings) : Except SettingsError Unit :=
  if s.binding.defaultAliasPrefix.isEmpty then .error .emptyAliasPrefix
  else if s.text.parameterPrefix.isEmpty then .error .emptyParameterPrefix
  else if s.text.indent.toList.all Text.isBlank then .ok ()
  else .error .indentNotBlank

end Settings

end GraphQuery
