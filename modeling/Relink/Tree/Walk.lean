import Relink.Tree.Basic

/-!
# Walking a tree

Model of `TreeWalk` for these trees: `ModuleTree.walkWithin` is `walk`.

A walk offers the statements of a module to a visitor, one after another, each before those inside
it. The visitor keeps a state and may answer with a statement that takes the place of the one
offered; the walk then goes on inside the new one.

A visitor that always answers with a larger statement would never come to an end, so a walk goes
down a given number of levels. `ModuleTree.walk` allows the height of the tree, which is enough for a
visitor whose answers hold no statements. `ModuleTree.edit` carries out a finite list of replacements
and allows for all of them.
-/

namespace Relink

variable {σ α β : Type}

/-- A function with a state carried along a list. -/
def carry (f : α → σ → β × σ) : List α → σ → List β × σ
  | [], st => ([], st)
  | a :: rest, st =>
    let (b, st) := f a st
    let (bs, st) := carry f rest st
    (b :: bs, st)

/-- What a visitor does with a statement: a replacement or none, and the state after. -/
abbrev Visitor (σ : Type) := Stmt → σ → Option Stmt × σ

/-- The walk through a statement, at most `levels` levels down. -/
def Stmt.walk (visit : Visitor σ) : (levels : Nat) → Stmt → σ → Stmt × σ
  | 0, s, st => (s, st)
  | levels + 1, s, st =>
    let (answer, st) := visit s st
    match answer.getD s with
    | .scope e k body =>
      let (body, st) := carry (Stmt.walk visit levels) body st
      (.scope e k body, st)
    | s => (s, st)

namespace ModuleTree

/-- The walk through a module, at most `levels` levels down. -/
def walkWithin (levels : Nat) (visit : Visitor σ) (m : ModuleTree) (st : σ) : ModuleTree × σ :=
  let (body, st) := carry (Stmt.walk visit levels) m.body st
  ({ m with body := body }, st)

/-- The walk through a module, for a visitor whose answers hold no statements. -/
def walk (visit : Visitor σ) (m : ModuleTree) (st : σ) : ModuleTree × σ :=
  m.walkWithin (Stmt.heightOf m.body) visit st

/-- Replacements for the statements that a walk offers, by their number from zero on. -/
abbrev Script := List (Nat × Stmt)

/-- The visitor that follows a script and notes what it is offered. -/
def Script.visitor (script : Script) : Visitor (List Stmt) := fun s seen =>
  ((script.find? fun row => row.1 = seen.length).map Prod.snd, seen ++ [s])

/-- The module after the replacements of a script, and the statements that the walk offered. Each
replacement is used once at most, so the walk goes no deeper than all of them stacked up. -/
def edit (script : Script) (m : ModuleTree) : ModuleTree × List Stmt :=
  let levels := script.foldr (fun row levels => row.2.height + levels) (Stmt.heightOf m.body)
  m.walkWithin levels script.visitor []

end ModuleTree

end Relink
