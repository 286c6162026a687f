import Relink.Json.Value

/-!
# Package manifests

Model of what `package_main` makes of a text. A directory may hold a manifest that names its main file.
A manifest that is no JSON object, or has no text worth a name under `main`, names none.
-/

namespace Relink.Manifest

/-- The name of a manifest's file. -/
def fileName : String := "package.json"

/-- How many arrays and objects may lie inside one another in a manifest. -/
def maxDepth : Nat := 127

/-- The main file that a manifest's value names. -/
def mainOf (v : Json) : Option String :=
  match v.member? "main" with
  | some (.string main) => if main = "" then none else some main
  | _ => none

/-- The main file that a manifest names. -/
def main? (contents : String) : Option String :=
  match Json.ofText maxDepth contents with
  | .ok v => mainOf v
  | .error _ => none

end Relink.Manifest
