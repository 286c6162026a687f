import Relink.Proofs.Path.Containing
import Relink.Proofs.Session.Substitution

/-!
# The spelling of a file does not matter

The same file can be named with `.`, `..` and slashes to spare, from the root or from the working
directory. What `rewrite_module` makes of its specifiers depends on where its directory leads, and that
is the parent of the file's place.

Results:
* `relinkModule_congr`: files whose directories lead to the same place give the same module.
* `relinkModule_spelling`: the directory of a file, and modules by the parent of their file's place.
-/

namespace Relink.Session

/-- Files whose directories lead to the same place give the same module. -/
theorem relinkModule_congr (search : Search) (options : Options) {file file' : Path}
    (h : file.containingDir.route = file'.containingDir.route) (m : ModuleTree) :
    ((new options).relinkModule search.resolver file m).1 =
      ((new options).relinkModule search.resolver file' m).1 := by
  rw [relinkModule_eq_substitute, relinkModule_eq_substitute]
  refine congrArg (fun f => m.substitute f) (funext fun v => ?_)
  rw [replacement_new, replacement_new, search.replacement_congr options.table h]

/-- **The spelling of a file does not matter.** Whatever the file, its directory is an absolute path.
If the file ends in a name, the normal form of its directory is the parent of the normal form that the
file has when it is read from the root. So two files that end in names and have the same parent there
give the same module in new sessions, for any search, options and module. -/
theorem relinkModule_spelling :
    (∀ file : Path, file.containingDir.isAbsolute = true) ∧
      (∀ file : Path, file.fileName?.isSome = true →
        (Path.root.join file).normal.parent? = some file.containingDir.normal) ∧
      ∀ (search : Search) (options : Options) (m : ModuleTree) (file file' : Path),
        file.fileName?.isSome = true → file'.fileName?.isSome = true →
        (Path.root.join file).normal.parent? = (Path.root.join file').normal.parent? →
          ((new options).relinkModule search.resolver file m).1 =
            ((new options).relinkModule search.resolver file' m).1 := by
  refine ⟨Path.isAbsolute_containingDir, fun _ => Path.parent?_normal_join, ?_⟩
  intro search options m file file' hfile hfile' hparent
  rw [Path.parent?_normal_join hfile, Path.parent?_normal_join hfile'] at hparent
  exact relinkModule_congr search options (Path.normal_eq_iff.mp (Option.some.inj hparent)) m

/-- One file spelled from the working directory and another from the root, with `..` at the root and
slashes to spare. Both lie in `/a`, and their specifiers become the same. -/
theorem relinkModule_spelling_of_slashes :
    let search : Search := ⟨((FileTree.empty.insert (Path.ofText "/a/c.ts") "").insert
      (Path.ofText "/d/index.ts") "").store, true⟩
    let file := Path.ofText "./a/./b/../x.ts//"
    let file' := Path.ofText "/../a//y.ts"
    let importOf (text : String) := Stmt.importing {} ⟨false, none, none, .string {} text⟩
    let m := ModuleTree.mk {}
      [importOf "./c", .scope {} .block [importOf "../d"], importOf "./gone"]
    let relinked (file : Path) := ((new {}).relinkModule search.resolver file m).1
    (file.fileName?.isSome = true ∧ file'.fileName?.isSome = true ∧
        (Path.root.join file).normal.parent? = (Path.root.join file').normal.parent?) ∧
      (file.containingDir.isAbsolute = true ∧
        (Path.root.join file).normal.parent? = some file.containingDir.normal) ∧
      relinked file = relinked file' ∧
      (relinked file).specifiers = ["./c.js", "../d/index.js", "./gone"] := by
  intro search file file' importOf m relinked
  have hfile : file.fileName?.isSome = true := by decide +kernel
  have hfile' : file'.fileName?.isSome = true := by decide +kernel
  have hparent : (Path.root.join file).normal.parent? = (Path.root.join file').normal.parent? := by
    decide +kernel
  obtain ⟨habs, hdir, hsame⟩ := relinkModule_spelling
  exact ⟨⟨hfile, hfile', hparent⟩, ⟨habs file, hdir file hfile⟩,
    hsame search {} m file file' hfile hfile' hparent, by decide +kernel⟩

end Relink.Session
