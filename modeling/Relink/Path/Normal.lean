import Relink.Path.Basic

/-!
# Normal form

Model of `normalize_lexical`, which is `Path.normal`.

Read without looking at any file store, a path leads from its start, the root or a directory not
named, up some levels and then down through names. That is its `Route`; `Path.normal` spells the
route with single slashes. Going up undoes the last name; at the root there is nothing above.

* `Route.andThen` reads one route after another, as `Path.join` reads one path after another.
* `walk_names`, `walk_parents`: what the steps of a route do to a route.
-/

namespace Relink

/-- Where a path leads: from the root or from an unnamed directory, `ups` levels up, and then down
through `names`, which are listed deepest first. -/
structure Route where
  rooted : Bool
  ups : Nat
  names : List Bytes
deriving DecidableEq, Repr

namespace Route

/-- The unnamed directory itself. -/
def here : Route := ⟨false, 0, []⟩

/-- One step further. Above the root is the root. -/
def step (r : Route) : Component → Route
  | .root => ⟨true, 0, []⟩
  | .current => r
  | .parent =>
    match r.names with
    | _ :: rest => { r with names := rest }
    | [] => if r.rooted then r else { r with ups := r.ups + 1 }
  | .name n => { r with names := n :: r.names }

/-- Several steps further. -/
def walk (r : Route) (steps : List Component) : Route :=
  steps.foldl step r

/-- The route's own steps, in order. -/
def components (r : Route) : List Component :=
  (if r.rooted then [.root] else []) ++ List.replicate r.ups .parent ++ r.names.reverse.map .name

/-- One route read after another. -/
def andThen (r s : Route) : Route :=
  r.walk s.components

/-- The route spelled with single slashes; the unnamed directory is the empty path. -/
def toPath (r : Route) : Path :=
  ⟨(if r.rooted then [Path.slash] else []) ++
    Path.unsegments (List.replicate r.ups Path.dotDot ++ r.names.reverse)⟩

theorem walk_append (r : Route) (xs ys : List Component) :
    r.walk (xs ++ ys) = (r.walk xs).walk ys :=
  List.foldl_append

/-- Names only go down. -/
theorem walk_names (r : Route) (ns : List Bytes) :
    r.walk (ns.map .name) = { r with names := ns.reverse ++ r.names } := by
  induction ns generalizing r with
  | nil => rfl
  | cons n rest ih => simp only [List.map_cons, walk, List.foldl_cons] at ih ⊢; simp [ih, step]

/-- Going up from an unnamed directory is counted. -/
theorem walk_parents (ups n : Nat) :
    (Route.mk false ups []).walk (List.replicate n .parent) = ⟨false, ups + n, []⟩ := by
  induction n generalizing ups with
  | zero => rfl
  | succ n ih =>
    rw [List.replicate_succ, walk, List.foldl_cons]
    exact (ih (ups + 1)).trans (by rw [Nat.add_assoc, Nat.add_comm 1 n])

end Route

namespace Path

/-- Where the path leads. -/
def route (p : Path) : Route :=
  Route.here.walk p.components

/-- The path with `.` and empty segments removed and `..` carried out as far as the names allow. -/
def normal (p : Path) : Path :=
  p.route.toPath

end Path

end Relink
