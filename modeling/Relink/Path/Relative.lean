import Relink.Path.Normal

/-!
# From one directory to a path

Model of `relative_path`. `wayTo from to` is the text that leads from the directory `from` to `to`, both
taken in normal form: `..` for every step of `from` that the two do not share, then the remaining steps
of `to`, joined by slashes.
-/

namespace Relink

/-- Two lists without the beginning they share. -/
def dropShared {α : Type} [DecidableEq α] : List α → List α → List α × List α
  | x :: xs, y :: ys => if x = y then dropShared xs ys else (x :: xs, y :: ys)
  | xs, ys => (xs, ys)

/-- The lists differ only after something they share. -/
theorem dropShared_append {α : Type} [DecidableEq α] (xs ys : List α) :
    ∃ shared, xs = shared ++ (dropShared xs ys).1 ∧ ys = shared ++ (dropShared xs ys).2 := by
  fun_induction dropShared xs ys with
  | case1 _ _ _ ih =>
    obtain ⟨shared, hx, hy⟩ := ih
    exact ⟨_ :: shared, by rw [List.cons_append, ← hx], by rw [List.cons_append, ← hy]⟩
  | case2 => exact ⟨[], rfl, rfl⟩
  | case3 => exact ⟨[], rfl, rfl⟩

/-- Texts joined by slashes. -/
def slashed : List (List Char) → List Char
  | [] => []
  | [s] => s
  | s :: rest => s ++ '/' :: slashed rest

/-- The text of a step. -/
def Component.text (c : Component) : List Char :=
  Utf8.lossy c.spelling

namespace Path

/-- The steps that lead from `source` to `target`, as texts. -/
def waySegments (source target : Path) : List (List Char) :=
  let (up, down) := dropShared source.normal.components target.normal.components
  List.replicate up.length ['.', '.'] ++ down.map Component.text

/-- The slash-separated text that leads from the directory `source` to `target`; empty when they are
the same place. -/
def wayTo (source target : Path) : String :=
  String.ofList (slashed (waySegments source target))

end Path

end Relink
