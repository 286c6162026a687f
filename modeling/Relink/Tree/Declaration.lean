import Relink.Specifier
import Relink.Tree.Basic

/-!
# Declarations that name modules

Model of `ModuleDeclView`, `eligible_decl`, `AstFactory` and `module_specifiers`.

Imports and exports are looked at through their specifier: `Specifier.Form` is how it is given, and
`completable?` (`eligible_decl`) picks the declarations whose specifier can be completed. `Expr.literal`
(`create_string_literal`) makes a specifier, and `Stmt.withSpecifier` (`update_module_specifier`) puts
it into a declaration and leaves the rest of that alone.
-/

namespace Relink

/-- The two declarations that name modules. -/
inductive DeclarationKind where
  | importing
  | exporting
deriving DecidableEq, Repr

/-- How a specifier is given: as a text, or by an expression that is no text. -/
inductive Specifier.Form where
  | text (specifier : String)
  | computed
deriving DecidableEq, Repr

/-- A declaration whose specifier can be completed. -/
structure Completable where
  kind : DeclarationKind
  specifier : String
deriving DecidableEq, Repr

/-- A declaration can be completed if its specifier is a text that can. -/
def completable? : Option DeclarationKind → Option Specifier.Form → Option Completable
  | some kind, some (.text s) => if Specifier.isCompletable s then some ⟨kind, s⟩ else none
  | _, _ => none

/-- The expression as a specifier. -/
def Expr.form : Expr → Specifier.Form
  | .string _ value => .text value
  | _ => .computed

/-- The string expression of a text, lying nowhere. -/
def Expr.literal (text : String) : Expr :=
  .string {} text

namespace Stmt

/-- The kind of a declaration. -/
def declarationKind? : Stmt → Option DeclarationKind
  | .importing _ _ => some .importing
  | .exporting _ _ => some .exporting
  | _ => none

/-- How the module of a declaration is given; an export may name none. -/
def form? : Stmt → Option Specifier.Form
  | .importing _ decl => some decl.module.form
  | .exporting _ decl => decl.source.map Expr.form
  | _ => none

/-- The specifier of a declaration that gives it as a text. -/
def specifier? (s : Stmt) : Option String :=
  match s.form? with
  | some (.text specifier) => some specifier
  | _ => none

/-- The declaration as one whose specifier can be completed. -/
def completable? (s : Stmt) : Option Completable :=
  Relink.completable? s.declarationKind? s.form?

/-- The declaration with another specifier, which takes the place of the one it had. Other
statements stay as they are. -/
def withSpecifier (s : Stmt) (specifier : Expr) : Stmt :=
  match s with
  | .importing e decl =>
    .importing e { decl with module := specifier.withOuter decl.module.extent.outer }
  | .exporting e decl =>
    let placed := match decl.source with
      | some old => specifier.withOuter old.extent.outer
      | none => specifier
    .exporting e { decl with source := some placed }
  | s => s

end Stmt

/-- The specifiers that a module's declarations give as texts, in order. -/
def ModuleTree.specifiers (m : ModuleTree) : List String :=
  m.statements.filterMap Stmt.specifier?

end Relink
