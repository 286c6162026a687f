import Relink.Files.Store
import Relink.Path.Normal

/-!
# Disks

Model of what `RealFs` asks of the operating system, with `Disk.store` for `RealFs` itself.

A disk holds directories, files and symbolic links. A path is followed step by step as the operating
system does it: every step but the last needs a directory, `..` leaves the directory that links have
led to, and a link is replaced by its target. What is too long, holds a NUL byte or meets too many
links leads nowhere.

`Disk.locate` is that walk. It ends because each link uses up one of the links allowed and every
other step shortens the way that is left. A disk is filled by the same walk: `Disk.makeWay` makes
the directories that are still missing, and what is added lies where the links before it lead.
-/

namespace Relink

/-- What lies at a place of a disk. -/
inductive Disk.Node where
  | directory
  | file (contents : Bytes)
  | link (target : Path)
deriving DecidableEq, Repr

/-- The places of a disk below the root, each given by its names, deepest first. -/
structure Disk where
  nodes : List (List Bytes × Disk.Node)
deriving Inhabited

namespace Disk

/-- The greatest number of bytes of a name. -/
def maxName : Nat := 255

/-- The greatest number of bytes of a path. -/
def maxPath : Nat := 4095

/-- The greatest number of links that are followed on one way. -/
def maxLinks : Nat := 40

/-- Nothing but the root. -/
def empty : Disk := ⟨[]⟩

/-- What lies at a place. -/
def node? (d : Disk) (place : List Bytes) : Option Node :=
  if place = [] then some .directory
  else (d.nodes.find? fun node => node.1 = place).map Prod.snd

/-- A step that the system takes for a segment: an empty one and `.` only ask for a directory. -/
def stepOf (segment : Bytes) : Component :=
  (Component.ofSegment? segment).getD .current

/-- The steps of a path. -/
def stepsOf (p : Path) : List Component :=
  (if p.isAbsolute then [.root] else []) ++ (Path.segments p.body).map stepOf

/-- Where the steps lead from a place, with at most `links` links on the way. -/
def locate (d : Disk) (links : Nat) (place : List Bytes) (steps : List Component) :
    Option (List Bytes) :=
  match steps with
  | [] => if (d.node? place).isSome then some place else none
  | step :: rest =>
    if d.node? place ≠ some .directory then none
    else match step with
      | .root => d.locate links [] rest
      | .current => d.locate links place rest
      | .parent => d.locate links place.tail rest
      | .name n =>
        if maxName < n.length then none
        else match d.node? (n :: place), links with
          | some (.link _), 0 => none
          | some (.link target), links + 1 => d.locate links place (stepsOf target ++ rest)
          | some _, links => d.locate links (n :: place) rest
          | none, _ => none
termination_by (links, steps.length)

/-- The system accepts a path that is neither empty nor too long and holds no NUL byte. -/
def accepts (p : Path) : Bool :=
  p.bytes ≠ [] ∧ p.bytes.length ≤ maxPath ∧ 0 ∉ p.bytes

/-- Where a path leads. Relative paths are read from the root. -/
def find? (d : Disk) (p : Path) : Option (List Bytes) :=
  if accepts p then d.locate maxLinks [] (stepsOf p) else none

/-- What lies where a path leads. -/
def at? (d : Disk) (p : Path) : Option Node :=
  (d.find? p).bind d.node?

/-! ## Filling a disk -/

/-- The disk with something new in the directory at a place, where no other thing has the name. -/
def create? (d : Disk) (place : List Bytes) (name : Bytes) (node : Node) : Option Disk :=
  if d.node? place = some .directory ∧ name.length ≤ maxName ∧ d.node? (name :: place) = none then
    some ⟨(name :: place, node) :: d.nodes⟩
  else none

/-- The disk on which the steps lead to a directory, and the place of that directory. Links on the
way are followed, and a name that is still free becomes a directory; a file or a link that leads
nowhere is in the way. -/
def makeWay (d : Disk) (place : List Bytes) (steps : List Component) : Option (Disk × List Bytes) :=
  if d.node? place ≠ some .directory then none
  else match steps with
  | [] => some (d, place)
  | .root :: rest => d.makeWay [] rest
  | .current :: rest => d.makeWay place rest
  | .parent :: rest => d.makeWay place.tail rest
  | .name n :: rest =>
    match d.locate maxLinks place [.name n] with
    | some inner => d.makeWay inner rest
    | none => (d.create? place n .directory).bind fun d => d.makeWay (n :: place) rest

/-- The disk with the directory that the last name of a path lies in, the place of that directory,
and the name. -/
def makeParent (d : Disk) (p : Path) : Option (Disk × List Bytes × Bytes) :=
  match (stepsOf p).getLast? with
  | some (.name n) =>
    if accepts p then (d.makeWay [] (stepsOf p).dropLast).map fun way => (way.1, way.2, n) else none
  | _ => none

/-- The disk with a directory and the directories above it. -/
def addDir (d : Disk) (p : Path) : Option Disk :=
  if accepts p then (d.makeWay [] (stepsOf p)).map Prod.fst else none

/-- The disk with a file and the directories above it. A file that is there already gets the new
contents. -/
def addFile (d : Disk) (p : Path) (contents : Bytes) : Option Disk := do
  let (d, place, name) ← d.makeParent p
  match d.locate maxLinks place [.name name] with
  | none => d.create? place name (.file contents)
  | some found =>
    if d.node? found = some .directory then none
    else some ⟨(found, .file contents) :: d.nodes.filter fun other => other.1 ≠ found⟩

/-- The disk with a link and the directories above it. The link lies in the directory that its path
leads to, so it is seen from every other way to that directory. -/
def addLink (d : Disk) (p target : Path) : Option Disk := do
  let (d, place, name) ← d.makeParent p
  if accepts target then d.create? place name (.link target) else none

/-! ## Reading a disk -/

/-- The disk as a store. -/
def store (d : Disk) : FileStore where
  isFile p := match d.at? p with
    | some (.file _) => true
    | _ => false
  isDir p := d.at? p = some .directory
  read? p := match d.at? p with
    | some (.file contents) => (Utf8.decode? contents).map String.ofList
    | _ => none
  canonical? p := (d.find? p).map fun place => (Route.mk true 0 place).toPath

end Disk

end Relink
