import Relink.Path.Normal

/-!
# The directory a module is in

Model of `source_dir`. The specifiers of a module are read from the directory that holds its file.
`containingDir` gives that directory as an absolute path, taking a relative file to lie below the root.
An absolute one keeps its spelling.
-/

namespace Relink.Path

/-- The root directory. -/
def root : Path := ⟨[slash]⟩

/-- The directory part of a file's path: its parent, or `.` where the parent is not spelled. -/
def directoryPart (file : Path) : Path :=
  match file.parent? with
  | some dir => if dir.bytes = [] then ⟨dot⟩ else dir
  | none => ⟨dot⟩

/-- The absolute directory from which the specifiers of `file` are read. -/
def containingDir (file : Path) : Path :=
  let dir := file.directoryPart
  if dir.isAbsolute then dir else (root.join dir).normal

end Relink.Path
