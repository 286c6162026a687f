/-!
# Syntax trees

Model of `TopLevel`, `Stmt` and `Expr` with the `Node` around each of them and the `Loc` of each `Node`.

The tree of a module, as far as its specifiers are concerned: statements that hold statements, the two
declarations that name other modules, and expressions. Each node carries its extent in the text, once
for the node and once for what the node holds: the `loc` of the outer and the inner `Node`.
-/

namespace Relink

/-- A range of bytes of the text. A node that was made up has an empty one. -/
structure Span where
  start : Nat := 0
  stop : Nat := 0
deriving DecidableEq, Repr, Inhabited

/-- Where a node lies: its own range, and the range recorded for what it holds. -/
structure Extent where
  outer : Span := {}
  inner : Span := {}
deriving DecidableEq, Repr, Inhabited

/-- An expression. -/
inductive Expr where
  | call (extent : Extent) (callee : Expr) (arguments : List Expr)
  | id (extent : Extent) (name : String)
  /-- `import(module)`, which is an expression and no declaration. -/
  | dynamicImport (extent : Extent) (module : Expr)
  | string (extent : Extent) (value : String)
  | template (extent : Extent) (quasis : List String) (substitutions : List Expr)
deriving Repr, Inhabited

/-- One name of an import: the name in the other module, and the one it gets here. -/
structure ImportBinding where
  typeOnly : Bool
  name : String
  asName : String
deriving DecidableEq, Repr

/-- The names of an import: all of the module under one name, or some. -/
inductive ImportClause where
  | all (name : String)
  | specific (names : List ImportBinding)
deriving DecidableEq, Repr

/-- One name of an export: the name here, and the one it is known by outside. -/
structure ExportBinding where
  typeOnly : Bool
  name : String
  asName : String
deriving DecidableEq, Repr

/-- The names of an export: all of a module, under a name or not, or some. -/
inductive ExportClause where
  | all (name : Option String)
  | specific (names : List ExportBinding)
deriving DecidableEq, Repr

/-- An import declaration. The module is a string in correct text; a recovered tree may hold
anything there. -/
structure ImportDecl where
  typeOnly : Bool
  default : Option String
  names : Option ImportClause
  module : Expr
deriving Repr

/-- An export declaration, of another module's names if it has a source. -/
structure ExportDecl where
  typeOnly : Bool
  names : ExportClause
  source : Option Expr
deriving Repr

/-- What kind of statement holds a list of statements. -/
inductive Scope where
  | block
  | function (name : String)
  | namespaced (name : String)
deriving DecidableEq, Repr

/-- A statement. -/
inductive Stmt where
  | scope (extent : Extent) (kind : Scope) (body : List Stmt)
  | importing (extent : Extent) (decl : ImportDecl)
  | exporting (extent : Extent) (decl : ExportDecl)
  | expr (extent : Extent) (expr : Expr)
  | var (extent : Extent) (name : String) (initializer : Option Expr)
deriving Repr, Inhabited

/-- The tree of a module. -/
structure ModuleTree where
  span : Span := {}
  body : List Stmt
deriving Repr, Inhabited

/-- Where the expression lies. -/
def Expr.extent : Expr → Extent
  | .call e _ _ | .id e _ | .dynamicImport e _ | .string e _ | .template e _ _ => e

/-- The expression moved: its own range is another, that of what it holds is kept. -/
def Expr.withOuter (span : Span) : Expr → Expr
  | .call e callee args => .call { e with outer := span } callee args
  | .id e name => .id { e with outer := span } name
  | .dynamicImport e m => .dynamicImport { e with outer := span } m
  | .string e value => .string { e with outer := span } value
  | .template e quasis subs => .template { e with outer := span } quasis subs

/-- Where the statement lies. -/
def Stmt.extent : Stmt → Extent
  | .scope e _ _ | .importing e _ | .exporting e _ | .expr e _ | .var e _ _ => e

mutual

/-- How deep statements lie inside one another. -/
def Stmt.height : Stmt → Nat
  | .scope _ _ body => heightOf body + 1
  | _ => 1

/-- The height of the highest statement of a list. -/
def Stmt.heightOf : List Stmt → Nat
  | [] => 0
  | s :: rest => max s.height (heightOf rest)

end

mutual

/-- The statement and all that lie in it, each before those inside it. -/
def Stmt.preorder (s : Stmt) : List Stmt :=
  match s with
  | .scope e k body => .scope e k body :: preorderOf body
  | s => [s]

/-- The statements of a list and all that lie in them. -/
def Stmt.preorderOf : List Stmt → List Stmt
  | [] => []
  | s :: rest => s.preorder ++ preorderOf rest

end

/-- All statements of a module, each before those inside it. -/
def ModuleTree.statements (m : ModuleTree) : List Stmt :=
  Stmt.preorderOf m.body

end Relink
