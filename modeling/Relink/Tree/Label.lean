import Relink.Tree.Basic

/-!
# Labels and extents

Every kind of node has a label, the `$t` of `Stmt` and `Expr`, and every `Node` a `loc`.
`ModuleTree.marks` lists the label and the extent of every node, each before those inside it;
`withoutExtents` forgets the extents and keeps everything else.
-/

namespace Relink

/-- The label of an expression in written trees. -/
def Expr.label : Expr → String
  | .call .. => "Call"
  | .id .. => "Id"
  | .dynamicImport .. => "Import"
  | .string .. => "LitStr"
  | .template .. => "LitTemplate"

/-- The label of a statement in written trees. -/
def Stmt.label : Stmt → String
  | .scope _ .block _ => "Block"
  | .scope _ (.function _) _ => "FunctionDecl"
  | .scope _ (.namespaced _) _ => "NamespaceDecl"
  | .importing .. => "Import"
  | .exporting .. => "ExportList"
  | .expr .. => "Expr"
  | .var .. => "VarDecl"

/-- A node's label and extent. The two kinds of import have different labels here. -/
structure Mark where
  label : String
  extent : Extent
deriving DecidableEq, Repr

/-- The mark of an expression itself. -/
def Expr.mark (e : Expr) : Mark :=
  match e with
  | .dynamicImport extent _ => ⟨"ImportExpr", extent⟩
  | e => ⟨e.label, e.extent⟩

/-- The mark of a statement itself. -/
def Stmt.mark (s : Stmt) : Mark :=
  ⟨s.label, s.extent⟩

mutual

/-- The marks of an expression and of those in it. -/
def Expr.marks (e : Expr) : List Mark :=
  e.mark :: match e with
    | .call _ callee args => callee.marks ++ marksOf args
    | .dynamicImport _ m => m.marks
    | .template _ _ subs => marksOf subs
    | _ => []

/-- The marks of a list of expressions. -/
def Expr.marksOf : List Expr → List Mark
  | [] => []
  | e :: rest => e.marks ++ marksOf rest

end

mutual

/-- The marks of a statement and of all nodes in it. -/
def Stmt.marks (s : Stmt) : List Mark :=
  s.mark :: match s with
    | .scope _ _ body => marksOf body
    | .importing _ decl => decl.module.marks
    | .exporting _ decl => (decl.source.map Expr.marks).getD []
    | .expr _ e => e.marks
    | .var _ _ initializer => (initializer.map Expr.marks).getD []

/-- The marks of a list of statements. -/
def Stmt.marksOf : List Stmt → List Mark
  | [] => []
  | s :: rest => s.marks ++ marksOf rest

end

/-- The marks of all nodes of a module. -/
def ModuleTree.marks (m : ModuleTree) : List Mark :=
  Stmt.marksOf m.body

mutual

/-- The expression with no extents. -/
def Expr.withoutExtents : Expr → Expr
  | .call _ callee args => .call {} callee.withoutExtents (withoutExtentsOf args)
  | .id _ name => .id {} name
  | .dynamicImport _ m => .dynamicImport {} m.withoutExtents
  | .string _ value => .string {} value
  | .template _ quasis subs => .template {} quasis (withoutExtentsOf subs)

/-- The expressions with no extents. -/
def Expr.withoutExtentsOf : List Expr → List Expr
  | [] => []
  | e :: rest => e.withoutExtents :: withoutExtentsOf rest

end

mutual

/-- The statement with no extents. -/
def Stmt.withoutExtents : Stmt → Stmt
  | .scope _ kind body => .scope {} kind (withoutExtentsOf body)
  | .importing _ decl => .importing {} { decl with module := decl.module.withoutExtents }
  | .exporting _ decl => .exporting {} { decl with source := decl.source.map Expr.withoutExtents }
  | .expr _ e => .expr {} e.withoutExtents
  | .var _ name initializer => .var {} name (initializer.map Expr.withoutExtents)

/-- The statements with no extents. -/
def Stmt.withoutExtentsOf : List Stmt → List Stmt
  | [] => []
  | s :: rest => s.withoutExtents :: withoutExtentsOf rest

end

/-- The module with no extents: what is left when only the locations are forgotten. -/
def ModuleTree.withoutExtents (m : ModuleTree) : ModuleTree :=
  ⟨{}, Stmt.withoutExtentsOf m.body⟩

end Relink
