import Relink.Extension.Table
import Relink.Json.Value

/-!
# Options

Model of `RewriteOptions` and of what it is serialized to. What a user may choose: the extension table.
Options are written as a JSON object with the single field `extensionMapping`, whose members are the
rules in order.
-/

namespace Relink

/-- The choices that govern relinking. -/
structure Options where
  table : Extension.Table := .typeScript
deriving DecidableEq, Inhabited

namespace Options

/-- The name of the options' field. -/
def fieldName : String := "extensionMapping"

/-- The rules as an object. -/
def rulesJson (rules : List (String × String)) : Json :=
  .object (rules.map fun rule => (rule.1, .string rule.2))

/-- The options as an object. -/
def toJson (o : Options) : Json :=
  .object [(fieldName, rulesJson o.table.rules)]

/-- The options as compact text. -/
def text (o : Options) : String :=
  o.toJson.text

end Options

end Relink
