import Relink.Path.Basic

/-!
# File stores

Model of `ResolveFs`, which is what the search for a module asks of the files: four questions about a
path. A store may be a tree in memory, a disk, or any other functions.
-/

namespace Relink

/-- The questions that can be asked about files. -/
structure FileStore where
  /-- There is a file at the path. -/
  isFile : Path → Bool
  /-- There is a directory at the path. -/
  isDir : Path → Bool
  /-- The contents of the file at the path, if it can be read as text. -/
  read? : Path → Option String
  /-- The path with all links followed. -/
  canonical? : Path → Option Path

namespace FileStore

/-- The store with given answers for the canonical path of some paths: of several rows for one path
the last counts. -/
def withCanonical (store : FileStore) (rows : List (Path × Option Path)) : FileStore :=
  { store with
    canonical? := fun p =>
      match rows.reverse.find? fun row => row.1.Same p with
      | some row => row.2
      | none => store.canonical? p }

/-- The store with files that cannot be read. -/
def withoutContents (store : FileStore) : FileStore :=
  { store with read? := fun _ => none }

end FileStore

end Relink
