import Relink.Path.Containing
import Relink.Session.Basic
import Relink.Tree.Declaration
import Relink.Tree.Walk

/-!
# Relinking a module

Model of `rewrite_module`, which is `rewrite_specifiers` for the trees here. A session relinks a module
by walking its tree: each declaration whose specifier can be completed gets the one that
`Session.relink` gives for it, and everything else stays.
-/

namespace Relink.Session

/-- What the walk does with a statement of a module in the directory `dir`. -/
def visit (resolve : Resolver) (dir : Path) : Visitor Session := fun stmt s =>
  match stmt.completable? with
  | none => (none, s)
  | some decl =>
    let (r, s) := s.relink resolve dir decl.specifier
    let s := s.note (.replacing decl.specifier r.specifier)
    (some (stmt.withSpecifier (.literal r.specifier)), s)

/-- Relinks the module whose text is in `file`. -/
def relinkModule (resolve : Resolver) (file : Path) (m : ModuleTree) (s : Session) :
    ModuleTree × Session :=
  let s := (s.note (.opened file)).note .entered
  let (m, s) := m.walk (visit resolve file.containingDir) s
  (m, s.note .left)

end Relink.Session
