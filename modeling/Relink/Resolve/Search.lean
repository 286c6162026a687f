import Relink.Files.Store
import Relink.Path.Normal
import Relink.Resolve.Manifest
import Relink.Resolve.Resolver
import Relink.Specifier

/-!
# The search for a module's file

Model of `FsResolver`: `asFile`, `asIndex` and `asDirectory` are `load_as_file`, `load_index` and
`load_as_directory`, `mainPath?` is `package_main`, `answerFor` is `finish` and `resolver` is `resolve`.

A specifier names a target, and the target may be a file, a file but for its extension, or a
directory with a manifest or an index file. The search tries these in turn.

`candidates` lists beforehand all that the search may look at, in order; it is the search without
its asking for files.
-/

namespace Relink

/-- A search in a file store; `keepLinks` leaves links in the answers as they are. -/
structure Search where
  store : FileStore
  keepLinks : Bool := true

namespace Search

/-- The path a specifier leads to from a directory. -/
def target (dir : Path) (specifier : String) : Path :=
  (dir.join (Path.ofText specifier)).normal

/-- The specifier can only mean a directory. -/
def meansDirectory (specifier : String) : Bool :=
  specifier == "." || specifier == ".." || specifier.toList.getLast? == some '/'

/-- The manifest of a directory. -/
def manifestPath (dir : Path) : Path :=
  dir.join (Path.ofText Manifest.fileName)

/-- The index file of a directory with an extension. -/
def indexPath (dir : Path) (ext : String) : Path :=
  dir.join (Path.ofText ("index" ++ ext))

variable (s : Search)

/-- The file at a path, or else at the path with the first extension that gives one. -/
def asFile (path : Path) (extensions : List String) : Option Path :=
  if s.store.isFile path then some path
  else extensions.findSome? fun ext =>
    if s.store.isFile (path.append ext) then some (path.append ext) else none

/-- The index file of a directory with the first extension that gives one. -/
def asIndex (dir : Path) (extensions : List String) : Option Path :=
  extensions.findSome? fun ext =>
    if s.store.isFile (indexPath dir ext) then some (indexPath dir ext) else none

/-- The path that the manifest of a directory names as its main file. -/
def mainPath? (dir : Path) : Option Path :=
  if s.store.isFile (manifestPath dir) then
    ((s.store.read? (manifestPath dir)).bind Manifest.main?).map fun main =>
      (dir.join (Path.ofText main)).normal
  else none

/-- The file that a directory stands for: its main file, or an index file there, or its own. -/
def asDirectory (dir : Path) (extensions : List String) : Option Path :=
  let main := (s.mainPath? dir).bind fun main =>
    (s.asFile main extensions).or (s.asIndex main extensions)
  main.or (s.asIndex dir extensions)

/-- The file that a target stands for. -/
def locate (target : Path) (directoryOnly : Bool) (extensions : List String) : Option Path :=
  let file := if directoryOnly then none else s.asFile target extensions
  file.or (if s.store.isDir target then s.asDirectory target extensions else none)

/-- The file as it is answered. One whose links cannot be followed is answered as it was found. -/
def answerFor (found : Path) : Path :=
  if s.keepLinks then found else (s.store.canonical? found).getD found

/-- The search as a resolver. -/
def resolver : Resolver := fun dir specifier extensions =>
  if !Specifier.isPath specifier then .error (.notPath specifier)
  else
    match s.locate (target dir specifier) (meansDirectory specifier) extensions with
    | some found => .ok (s.answerFor found)
    | none => .error (.notFound specifier dir)

/-! ## The candidates -/

/-- A path and the path with each extension. -/
def fileCandidates (path : Path) (extensions : List String) : List Path :=
  path :: extensions.map path.append

/-- The index files of a directory. -/
def indexCandidates (dir : Path) (extensions : List String) : List Path :=
  extensions.map (indexPath dir)

/-- The paths below a main file's path. -/
def mainCandidates (main : Path) (extensions : List String) : List Path :=
  fileCandidates main extensions ++ indexCandidates main extensions

/-- All paths that may be answered, in order of preference. -/
def candidates (target : Path) (directoryOnly : Bool) (extensions : List String) : List Path :=
  (if directoryOnly then [] else fileCandidates target extensions) ++
    if s.store.isDir target then
      (s.mainPath? target).toList.flatMap (mainCandidates · extensions) ++
        indexCandidates target extensions
    else []

end Search

end Relink
