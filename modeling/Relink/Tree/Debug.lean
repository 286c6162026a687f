import Relink.Text.Quoted
import Relink.Tree.Basic

/-!
# Trees for debugging

Model of the debug text of `TopLevel`, `Stmt` and `Expr`. The text that a developer sees of a tree:
constructors with their fields by name, texts quoted, extents left out. It is made of three forms only,
`record`, `applied` and `listed`.
-/

namespace Relink.Debug

/-- Texts with commas between them. -/
def separated (texts : List String) : String :=
  String.intercalate ", " texts

/-- A record with its fields by name. -/
def record (name : String) (fields : List (String × String)) : String :=
  name ++ " \x7b " ++ separated (fields.map fun f => f.1 ++ ": " ++ f.2) ++ " \x7d"

/-- A constructor and its argument. -/
def applied (name argument : String) : String :=
  name ++ "(" ++ argument ++ ")"

/-- A list. -/
def listed (items : List String) : String :=
  "[" ++ separated items ++ "]"

/-- A value or none. -/
def optional : Option String → String
  | some text => applied "Some" text
  | none => "None"

/-- A truth value. -/
def bool (b : Bool) : String :=
  if b then "true" else "false"

/-- A list of texts. -/
def quotedList (texts : List String) : String :=
  listed (texts.map Text.quoted)

end Relink.Debug

namespace Relink

open Debug Text

mutual

/-- The debugging text of an expression. -/
def Expr.debug : Expr → String
  | .call _ callee args =>
    applied "Call" (record "CallExpr"
      [("callee", callee.debug), ("arguments", listed (debugs args))])
  | .id _ name => applied "Id" (record "IdExpr" [("name", quoted name)])
  | .dynamicImport _ m => applied "Import" (record "ImportExpr" [("module", m.debug)])
  | .string _ value => applied "LitStr" (record "LitStrExpr" [("value", quoted value)])
  | .template _ quasis subs =>
    applied "LitTemplate" (record "LitTemplateExpr"
      [("quasis", quotedList quasis), ("substitutions", listed (debugs subs))])

/-- The debugging texts of expressions. -/
def Expr.debugs : List Expr → List String
  | [] => []
  | e :: rest => e.debug :: debugs rest

end

/-- The debugging text of one name of an import. -/
def ImportBinding.debug (n : ImportBinding) : String :=
  record "ImportName"
    [("type_only", bool n.typeOnly), ("importable", quoted n.name), ("alias", quoted n.asName)]

/-- The debugging text of an import's names. -/
def ImportClause.debug : ImportClause → String
  | .all name => applied "All" (quoted name)
  | .specific names => applied "Specific" (listed (names.map ImportBinding.debug))

/-- The debugging text of one name of an export. -/
def ExportBinding.debug (n : ExportBinding) : String :=
  record "ExportName"
    [("type_only", bool n.typeOnly), ("exportable", quoted n.name), ("alias", quoted n.asName)]

/-- The debugging text of an export's names. -/
def ExportClause.debug : ExportClause → String
  | .all name => applied "All" (optional (name.map quoted))
  | .specific names => applied "Specific" (listed (names.map ExportBinding.debug))

/-- The debugging text of an import. -/
def ImportDecl.debug (d : ImportDecl) : String :=
  applied "Import" (record "ImportStmt"
    [("type_only", bool d.typeOnly), ("default", optional (d.default.map quoted)),
      ("names", optional (d.names.map ImportClause.debug)), ("module", d.module.debug)])

/-- The debugging text of an export. -/
def ExportDecl.debug (d : ExportDecl) : String :=
  applied "ExportList" (record "ExportListStmt"
    [("type_only", bool d.typeOnly), ("names", d.names.debug),
      ("from", optional (d.source.map Expr.debug))])

/-- The debugging text of a scope around the texts of its statements. -/
def Scope.debug (body : List String) : Scope → String
  | .block => applied "Block" (record "BlockStmt" [("body", listed body)])
  | .function name =>
    applied "FunctionDecl" (record "FuncDecl" [("name", quoted name), ("body", listed body)])
  | .namespaced name =>
    applied "NamespaceDecl" (record "NamespaceDecl" [("name", quoted name), ("body", listed body)])

mutual

/-- The debugging text of a statement. -/
def Stmt.debug : Stmt → String
  | .scope _ kind body => kind.debug (debugs body)
  | .importing _ decl => decl.debug
  | .exporting _ decl => decl.debug
  | .expr _ e => applied "Expr" (record "ExprStmt" [("expr", e.debug)])
  | .var _ name initializer =>
    applied "VarDecl" (record "VarDecl"
      [("name", quoted name), ("initializer", optional (initializer.map Expr.debug))])

/-- The debugging texts of statements. -/
def Stmt.debugs : List Stmt → List String
  | [] => []
  | s :: rest => s.debug :: debugs rest

end

/-- The debugging text of a module. -/
def ModuleTree.debug (m : ModuleTree) : String :=
  record "TopLevel" [("body", listed (Stmt.debugs m.body))]

end Relink
