import Relink.Resolve.Resolver

/-!
# Events

Model of what `rewrite_specifiers`, `resolve_specifier` and `get_or_compute` trace.

What a session does that can be seen from outside: the questions it puts to its resolver, and the
records of its log. Both are kept in one list, in the order in which they happen.
-/

namespace Relink

/-- Something that a session did. -/
inductive Event where
  /-- The resolver was asked. -/
  | asked (dir : Path) (specifier : String) (extensions : List String)
  /-- The resolver found no file. -/
  | missed (dir : Path) (specifier : String) (fault : ResolveFault)
  /-- The resolver answered with a path that is not absolute. -/
  | relativeAnswer (dir : Path) (specifier : String) (answer : Path)
  /-- The replacement was known. -/
  | cacheHit (dir : Path) (specifier : String)
  /-- A specifier is replaced by another, or by itself. -/
  | replacing (source target : String)
  /-- The relinking of a module is announced. -/
  | opened (file : Path)
  | entered
  | left
deriving DecidableEq, Repr

/-- How important a record of the log is. -/
inductive Event.Level where
  | debug
  | trace
deriving DecidableEq, Repr

/-- A record of the log: its level, its text and its fields by name. -/
structure Event.Record where
  level : Event.Level
  text : String
  fields : List (String × String)
deriving DecidableEq, Repr

/-- The record of an event. Questions to the resolver are not logged, and the course of a span is
logged without level. -/
def Event.record? : Event → Option Event.Record
  | .missed dir specifier fault =>
    some ⟨.debug, "resolution miss",
      [("specifier", specifier), ("dir", dir.display), ("error", fault.message)]⟩
  | .relativeAnswer dir specifier answer =>
    some ⟨.debug, "resolver returned a relative path; treating as resolution miss",
      [("specifier", specifier), ("dir", dir.display), ("resolved", answer.display)]⟩
  | .cacheHit dir specifier =>
    some ⟨.trace, "resolution cache hit", [("specifier", specifier), ("dir", dir.display)]⟩
  | .replacing source target =>
    some ⟨.trace, "rewriting specifier", [("from", source), ("to", target)]⟩
  | _ => none

/-- The span in which a module is relinked, with its fields. -/
def Event.span? : Event → Option (Event.Level × String × List (String × String))
  | .opened file => some (.debug, "rewrite_specifiers", [("file", file.display)])
  | _ => none

end Relink
