import Relink.Extension.Output
import Relink.Options.Basic
import Relink.Session.Cache
import Relink.Session.Event

/-!
# Sessions

Model of `RewriteSession` and `SessionStats`. `Session.relink` is `rewrite_specifier`; `Session.lookup` and
`Session.compute` are what `get_or_compute` and `compute_rewrite` do for it.

A session relinks specifiers under one extension table. It asks its resolver once for each specifier
in each directory, remembers what came of it, counts, and keeps a log. The resolver is handed to each
step, since files may come and go between two steps.
-/

namespace Relink

/-- The counts of a session. -/
structure Stats where
  /-- Specifiers relinked, those included that stayed as they were. -/
  relinked : Nat := 0
  /-- Specifiers that changed. -/
  changed : Nat := 0
  /-- Specifiers whose file was not found. -/
  misses : Nat := 0
  /-- Specifiers whose replacement was known. -/
  cacheHits : Nat := 0
deriving DecidableEq, Repr

/-- The state of a session. -/
structure Session where
  table : Extension.Table
  cache : Cache := {}
  relinked : Nat := 0
  changed : Nat := 0
  misses : Nat := 0
  /-- What the session did so far, in order. -/
  log : List Event := []

namespace Session

/-- A session that has done nothing yet. -/
def new (options : Options) : Session :=
  { table := options.table }

/-- The counts so far. -/
def stats (s : Session) : Stats :=
  ⟨s.relinked, s.changed, s.misses, s.cache.hits⟩

/-- Notes an event. -/
def note (s : Session) (e : Event) : Session :=
  { s with log := s.log ++ [e] }

/-- Asks the resolver, with the source extensions of the table in order. -/
def ask (resolve : Resolver) (dir : Path) (specifier : String) (s : Session) :
    Except ResolveFault Path × Session :=
  (resolve dir specifier s.table.sources, s.note (.asked dir specifier s.table.sources))

/-- Notes why an answer does not count, if it does not. -/
def noteAnswer (dir : Path) (specifier : String) (answer : Except ResolveFault Path) (s : Session) :
    Session :=
  match answer with
  | .ok p => if p.isAbsolute then s else s.note (.relativeAnswer dir specifier p)
  | .error fault => s.note (.missed dir specifier fault)

/-- What an answer makes of a specifier: the compiled file relative to the directory, or the
specifier itself. -/
def replacementOf (table : Extension.Table) (dir : Path) (specifier : String) :
    Resolution → Replacement
  | .file p => .resolved (relativeSpecifier dir (table.outputPath p))
  | .miss => .miss specifier

/-- Works out a replacement that is not known, and remembers it. -/
def compute (resolve : Resolver) (dir : Path) (specifier : String) (s : Session) :
    Replacement × Session :=
  let (answer, s) := s.ask resolve dir specifier
  let r := replacementOf s.table dir specifier (.ofAnswer answer)
  let s := s.noteAnswer dir specifier answer
  (r, { s with cache := s.cache.store dir specifier r })

/-- The replacement of a specifier, known or worked out. -/
def lookup (resolve : Resolver) (dir : Path) (specifier : String) (s : Session) :
    Replacement × Session :=
  match s.cache.get? dir specifier with
  | some r => (r, { s with cache := s.cache.countHit }.note (.cacheHit dir specifier))
  | none => s.compute resolve dir specifier

/-- Counts a replacement of this specifier. -/
def count (specifier : String) (r : Replacement) (s : Session) : Session :=
  { s with
    relinked := s.relinked + 1
    misses := s.misses + if r.isMiss then 1 else 0
    changed := s.changed + if !r.isMiss && r.specifier != specifier then 1 else 0 }

/-- Relinks a specifier of a module in a directory. -/
def relink (resolve : Resolver) (dir : Path) (specifier : String) (s : Session) :
    Replacement × Session :=
  let (r, s) := s.lookup resolve dir specifier
  (r, s.count specifier r)

end Session

end Relink
