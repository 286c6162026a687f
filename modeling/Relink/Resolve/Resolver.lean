import Relink.Path.Basic

/-!
# Resolvers

Model of `ModuleResolve`, `ResolveError` and `resolve_specifier`.

A resolver is asked for the file that a specifier means in a directory, and given the extensions to
try. It is any function: the search in a file store is one, a table of fixed answers another.
`Resolution.ofAnswer` is what a session makes of an answer, which it trusts only if it is an absolute
path.
-/

namespace Relink

/-- Why there is no file. -/
inductive ResolveFault where
  | notFound (specifier : String) (dir : Path)
  | notPath (specifier : String)
  | unreadable (reason : String)
deriving DecidableEq, Repr

/-- What the user is told. -/
def ResolveFault.message : ResolveFault → String
  | .notFound specifier dir => "cannot find module `" ++ specifier ++ "` from `" ++ dir.display ++ "`"
  | .notPath specifier => "`" ++ specifier ++ "` is not a relative or absolute specifier"
  | .unreadable reason => reason

/-- The file that a specifier means in a directory, the extensions being tried in order. -/
abbrev Resolver := (dir : Path) → (specifier : String) → (extensions : List String) →
  Except ResolveFault Path

/-- An answer laid down beforehand. -/
inductive Resolver.Reply where
  | file (path : Path)
  | notFound
  | notPath
  | unreadable (reason : String)
deriving DecidableEq, Repr

/-- The reply to a question. -/
def Resolver.Reply.answer (dir : Path) (specifier : String) :
    Resolver.Reply → Except ResolveFault Path
  | .file path => .ok path
  | .notFound => .error (.notFound specifier dir)
  | .notPath => .error (.notPath specifier)
  | .unreadable reason => .error (.unreadable reason)

/-- One row of a table of replies; a row without directory is for all. -/
structure Resolver.Row where
  dir : Option Path
  specifier : String
  reply : Resolver.Reply

/-- The resolver that answers with the first row that fits, and knows no other files. -/
def Resolver.ofTable (rows : List Resolver.Row) : Resolver := fun dir specifier _ =>
  let row := rows.find? fun row => row.specifier = specifier && row.dir.all fun d => d.Same dir
  ((row.map Resolver.Row.reply).getD .notFound).answer dir specifier

/-- What comes of asking for a file. -/
inductive Resolution where
  | file (path : Path)
  | miss
deriving DecidableEq, Repr

/-- An answer counts if it is an absolute path. -/
def Resolution.ofAnswer : Except ResolveFault Path → Resolution
  | .ok p => if p.isAbsolute then .file p else .miss
  | .error _ => .miss

end Relink
