import Relink.Proofs.Tree.Exchange

/-!
# What a walk does to its state

A visitor of `walk` that leaves scopes alone and answers with statements that hold none is offered the
statements of a module as they were, each before those inside it. So its state afterwards is what comes
of showing it these statements one after another, and the tree need not be looked at again.

Results:
* `Stmt.state_walk`: a statement, if the walk may go down far enough.
* `ModuleTree.state_walk`: a module.
-/

namespace Relink

variable {σ : Type} {visit : Visitor σ}

/-- The visitor leaves scopes alone and answers with statements that hold none. -/
structure Visitor.Flat (visit : Visitor σ) : Prop where
  scope : ∀ e kind body st, (visit (.scope e kind body) st).1 = none
  isLeaf : ∀ s st answer, (visit s st).1 = some answer → answer.IsLeaf

/-- The state of a visitor that has been shown statements, one after another. -/
def Visitor.showAll (visit : Visitor σ) (stmts : List Stmt) (st : σ) : σ :=
  stmts.foldl (fun st s => (visit s st).2) st

theorem Visitor.showAll_append (visit : Visitor σ) (xs ys : List Stmt) (st : σ) :
    visit.showAll (xs ++ ys) st = visit.showAll ys (visit.showAll xs st) :=
  List.foldl_append

namespace Stmt

theorem state_walk_of_isLeaf (hflat : visit.Flat) {s : Stmt} (h : s.IsLeaf) (levels : Nat) (st : σ) :
    (s.walk visit (levels + 1) st).2 = visit.showAll s.preorder st := by
  rw [preorder_of_isLeaf h]
  have hleaf : ((visit s st).1.getD s).IsLeaf := by
    cases hanswer : (visit s st).1 with
    | none => exact h
    | some answer => exact hflat.isLeaf s st answer hanswer
  unfold walk
  dsimp only
  split
  · next e kind body hscope => exact absurd hscope (hleaf e kind body)
  · rfl

mutual

/-- **The walk through a statement** shows the visitor the statement and all that lie in it. -/
theorem state_walk (hflat : visit.Flat) (s : Stmt) (levels : Nat) (h : s.height ≤ levels) (st : σ) :
    (s.walk visit levels st).2 = visit.showAll s.preorder st := by
  cases levels with
  | zero => cases s <;> simp [Stmt.height] at h
  | succ levels =>
    cases s with
    | scope e kind body =>
      rw [Stmt.height] at h
      have hbody := state_carry_walk hflat body levels (by omega) (visit (.scope e kind body) st).2
      unfold walk
      dsimp only
      rw [hflat.scope]
      exact hbody
    | _ => exact state_walk_of_isLeaf hflat (fun _ _ _ he => by cases he) levels st

/-- The walk through a list of statements shows the visitor all of them. -/
theorem state_carry_walk (hflat : visit.Flat) (body : List Stmt) (levels : Nat)
    (h : heightOf body ≤ levels) (st : σ) :
    (carry (walk visit levels) body st).2 = visit.showAll (preorderOf body) st := by
  cases body with
  | nil => rfl
  | cons s rest =>
    rw [heightOf] at h
    have hs := state_walk hflat s levels (by omega) st
    have hrest := state_carry_walk hflat rest levels (by omega) (s.walk visit levels st).2
    rw [preorderOf, Visitor.showAll_append, ← hs]
    exact hrest

end

end Stmt

/-- **The walk through a module** shows the visitor the statements of the module. -/
theorem ModuleTree.state_walk (hflat : visit.Flat) (m : ModuleTree) (st : σ) :
    (m.walk visit st).2 = visit.showAll m.statements st :=
  Stmt.state_carry_walk hflat m.body (Stmt.heightOf m.body) (Nat.le_refl _) st

end Relink
