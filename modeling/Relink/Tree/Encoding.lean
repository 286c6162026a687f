import Relink.Json.Value
import Relink.Tree.Label

/-!
# Trees as JSON

Model of how `TopLevel`, `Stmt` and `Expr` are serialized. A node is an object that gives its label
under `$t` and then its parts. Parts that are absent are `null`, and extents are left out.
-/

namespace Relink

/-- A text or `null`. -/
def optionalText : Option String → Json
  | some s => .string s
  | none => .null

/-- A node's object: its label, then its parts. -/
def labelled (label : String) (parts : List (String × Json)) : Json :=
  .object (("$t", .string label) :: parts)

mutual

/-- An expression as JSON. -/
def Expr.toJson (e : Expr) : Json :=
  labelled e.label <| match e with
    | .call _ callee args => [("callee", callee.toJson), ("arguments", .array (toJsons args))]
    | .id _ name => [("name", .string name)]
    | .dynamicImport _ m => [("module", m.toJson)]
    | .string _ value => [("value", .string value)]
    | .template _ quasis subs =>
      [("quasis", .array (quasis.map .string)), ("substitutions", .array (toJsons subs))]

/-- Expressions as JSON. -/
def Expr.toJsons : List Expr → List Json
  | [] => []
  | e :: rest => e.toJson :: toJsons rest

end

/-- An expression or `null`. -/
def optionalExpr : Option Expr → Json
  | some e => e.toJson
  | none => .null

/-- One name of an import as JSON. -/
def ImportBinding.toJson (n : ImportBinding) : Json :=
  .object [("type_only", .bool n.typeOnly), ("importable", .string n.name),
    ("alias", .string n.asName)]

/-- The names of an import as JSON. -/
def ImportClause.toJson : ImportClause → Json
  | .all name => .object [("All", .string name)]
  | .specific names => .object [("Specific", .array (names.map ImportBinding.toJson))]

/-- One name of an export as JSON. -/
def ExportBinding.toJson (n : ExportBinding) : Json :=
  .object [("type_only", .bool n.typeOnly), ("exportable", .string n.name),
    ("alias", .string n.asName)]

/-- The names of an export as JSON. -/
def ExportClause.toJson : ExportClause → Json
  | .all name => .object [("All", optionalText name)]
  | .specific names => .object [("Specific", .array (names.map ExportBinding.toJson))]

/-- The parts of an import. -/
def ImportDecl.parts (d : ImportDecl) : List (String × Json) :=
  [("type_only", .bool d.typeOnly), ("default", optionalText d.default),
    ("names", (d.names.map ImportClause.toJson).getD .null), ("module", d.module.toJson)]

/-- The parts of an export. -/
def ExportDecl.parts (d : ExportDecl) : List (String × Json) :=
  [("type_only", .bool d.typeOnly), ("names", d.names.toJson), ("from", optionalExpr d.source)]

/-- The name of a scope that has one. -/
def Scope.parts : Scope → List (String × Json)
  | .block => []
  | .function name => [("name", .string name)]
  | .namespaced name => [("name", .string name)]

mutual

/-- A statement as JSON. -/
def Stmt.toJson (s : Stmt) : Json :=
  labelled s.label <| match s with
    | .scope _ kind body => kind.parts ++ [("body", .array (toJsons body))]
    | .importing _ decl => decl.parts
    | .exporting _ decl => decl.parts
    | .expr _ e => [("expr", e.toJson)]
    | .var _ name initializer =>
      [("name", .string name), ("initializer", optionalExpr initializer)]

/-- Statements as JSON. -/
def Stmt.toJsons : List Stmt → List Json
  | [] => []
  | s :: rest => s.toJson :: toJsons rest

end

/-- A module as JSON. -/
def ModuleTree.toJson (m : ModuleTree) : Json :=
  .object [("body", .array (Stmt.toJsons m.body))]

/-- A module as compact text. -/
def ModuleTree.text (m : ModuleTree) : String :=
  m.toJson.text

end Relink
