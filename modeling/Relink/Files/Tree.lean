import Relink.Files.Store
import Relink.Path.Normal

/-!
# File trees in memory

Model of `MemoryFs`: a tree is a list of files under normal paths, each path once. Directories are there
because a file lies below them.

* `contents?_insert_self`, `contents?_insert_of_ne`: a file that is put into the tree is found at
  every spelling of its path, and all others are left alone.
-/

namespace Relink

/-- The files, each with its normal path. -/
structure FileTree where
  files : List (Path × String)
deriving Inhabited

namespace FileTree

/-- No files. -/
def empty : FileTree := ⟨[]⟩

/-- The contents of the file at a path, however it is spelled. -/
def contents? (t : FileTree) (p : Path) : Option String :=
  let place := p.normal
  (t.files.find? fun file => file.1 = place).map Prod.snd

/-- Puts a file into the tree; one that was there is replaced. -/
def insert (t : FileTree) (p : Path) (contents : String) : FileTree :=
  let place := p.normal
  ⟨(place, contents) :: t.files.filter fun file => file.1 ≠ place⟩

/-- There is a file at the path. -/
def isFile (t : FileTree) (p : Path) : Bool :=
  (t.contents? p).isSome

/-- Some file lies below the path. -/
def isDir (t : FileTree) (p : Path) : Bool :=
  let dir := p.normal
  t.files.any fun file => file.1 ≠ dir && file.1.startsWith dir

/-- The tree as a store. It has no links, so every path is canonical as it is spelled. -/
def store (t : FileTree) : FileStore where
  isFile := t.isFile
  isDir := t.isDir
  read? := t.contents?
  canonical? := some

theorem contents?_insert_self (t : FileTree) {p q : Path} (contents : String)
    (h : q.normal = p.normal) : (t.insert p contents).contents? q = some contents := by
  simp [contents?, insert, h]

theorem contents?_insert_of_ne (t : FileTree) {p q : Path} (contents : String)
    (h : q.normal ≠ p.normal) : (t.insert p contents).contents? q = t.contents? q := by
  simp only [contents?, insert]
  rw [List.find?_cons_of_neg (by simpa using fun e => h e.symm), List.find?_filter]
  congr 2
  funext file
  by_cases e : file.1 = q.normal
  · simp [e, h]
  · simp [e]

end FileTree

end Relink
