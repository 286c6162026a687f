import Relink.Proofs.Session.Lookup
import Relink.Proofs.Tree.Substitute
import Relink.Session.Module

/-!
# What relinking a module does to the module

`relinkEach` relinks specifiers one after another, without a module. Relinking a module
(`rewrite_module`) comes to relinking its specifiers that can be completed, in the order of the text,
and exchanging them for what came out; the walk itself leaves its records in the log and nothing else.

Results:
* `walk_follows`: the walk through a statement is an exchange, from any state of the session on.
* `relinkModule_follows`: the module that comes out and the session.
* `relinkModule_eq_exchange`: the same with the module's specifiers and its marks.
-/

namespace Relink

/-- What is looked up for these specifiers of a module in a directory. -/
def Specifier.requests (dir : Path) (specifiers : List String) : List (Path × String) :=
  (specifiers.filter isCompletable).map fun specifier => (dir, specifier)

/-- What is looked up for a module whose text is in `file`. -/
def ModuleTree.requests (m : ModuleTree) (file : Path) : List (Path × String) :=
  Specifier.requests file.containingDir m.specifiers

theorem Specifier.requests_append (dir : Path) (xs ys : List String) :
    requests dir (xs ++ ys) = requests dir xs ++ requests dir ys := by
  unfold requests
  rw [List.filter_append, List.map_append]

namespace Session

variable {resolve : Resolver} {dir : Path}

/-- Relinks specifiers, each in its directory, one after another. -/
def relinkEach (resolve : Resolver) (requests : List (Path × String)) (s : Session) :
    List Replacement × Session :=
  carry (fun request s => s.relink resolve request.1 request.2) requests s

theorem relinkEach_append (resolve : Resolver) (xs ys : List (Path × String)) (s : Session) :
    s.relinkEach resolve (xs ++ ys) =
      ((s.relinkEach resolve xs).1 ++ ((s.relinkEach resolve xs).2.relinkEach resolve ys).1,
        ((s.relinkEach resolve xs).2.relinkEach resolve ys).2) :=
  carry_append _ xs ys s

/-- Relinking specifiers neither reads nor writes records of walks. -/
theorem relinkEach_trimmed (resolve : Resolver) (requests : List (Path × String)) (s : Session) :
    s.trimmed.relinkEach resolve requests =
      ((s.relinkEach resolve requests).1, (s.relinkEach resolve requests).2.trimmed) := by
  induction requests generalizing s with
  | nil => rfl
  | cons request rest ih =>
    unfold relinkEach at ih ⊢
    simp only [carry, relink_trimmed, ih]

/-- Sessions that differ in records of walks alone relink alike. -/
theorem relinkEach_congr {s s' : Session} (h : s.trimmed = s'.trimmed)
    (requests : List (Path × String)) :
    (s.relinkEach resolve requests).1 = (s'.relinkEach resolve requests).1 ∧
      (s.relinkEach resolve requests).2.trimmed = (s'.relinkEach resolve requests).2.trimmed := by
  have hs := relinkEach_trimmed resolve requests s
  rw [h, relinkEach_trimmed] at hs
  exact ⟨(congrArg Prod.fst hs).symm, (congrArg Prod.snd hs).symm⟩

/-! ## The walk through a declaration -/

theorem walk_of_not_completable {s : Stmt} (h : s.IsLeaf) (hs : s.completable? = none)
    (levels : Nat) (st : Session) : s.walk (visit resolve dir) (levels + 1) st = (s, st) := by
  unfold Stmt.walk visit
  rw [hs]
  cases s with
  | scope e kind body => exact absurd rfl (h e kind body)
  | _ => rfl

theorem walk_of_completable {s : Stmt} {decl : Completable} (h : s.completable? = some decl)
    (levels : Nat) (st : Session) :
    s.walk (visit resolve dir) (levels + 1) st =
      (s.withSpecifier (.literal (st.relink resolve dir decl.specifier).1.specifier),
        (st.relink resolve dir decl.specifier).2.note
          (.replacing decl.specifier (st.relink resolve dir decl.specifier).1.specifier)) := by
  unfold Stmt.walk visit
  rw [h]
  cases s with
  | importing e d => rfl
  | exporting e d => rfl
  | _ => cases h

/-! ## The walk through a tree -/

/-- A walk gives what an exchange gives with the texts that relinking these specifiers gives, and
leaves the session as relinking them does. -/
def Follows {α : Type} (resolve : Resolver) (dir : Path) (specifiers : List String)
    (exchange : List String → α × List String) (walk : Session → α × Session) : Prop :=
  ∀ st : Session,
    (∀ more, exchange
        ((st.relinkEach resolve (Specifier.requests dir specifiers)).1.map Replacement.specifier ++
          more) = ((walk st).1, more)) ∧
      (walk st).2.trimmed =
        (st.relinkEach resolve (Specifier.requests dir specifiers)).2.trimmed

theorem walk_follows_of_isLeaf {s : Stmt} (h : s.IsLeaf) (levels : Nat) :
    Follows resolve dir s.specifiers s.exchange (s.walk (visit resolve dir) (levels + 1)) := by
  intro st
  rw [Stmt.specifiers_of_isLeaf h]
  cases hs : s.completable? with
  | none =>
    have hnone : Specifier.requests dir s.specifier?.toList = [] := by
      cases hv : s.specifier? with
      | none => rfl
      | some v => simp [Specifier.requests, Stmt.isCompletable_of_completable?_eq_none hs hv]
    rw [hnone, walk_of_not_completable h hs]
    exact ⟨Stmt.exchange_of_not_completable h hs, rfl⟩
  | some decl =>
    obtain ⟨hv, hc⟩ := Stmt.specifier?_of_completable? hs
    have hone : Specifier.requests dir s.specifier?.toList = [(dir, decl.specifier)] := by
      simp [Specifier.requests, hv, hc]
    rw [hone, walk_of_completable hs]
    exact ⟨Stmt.exchange_of_completable hs _, trimmed_note rfl _⟩

mutual

/-- **The walk through a statement**, from any state of the session on. -/
theorem walk_follows (s : Stmt) (levels : Nat) (h : s.height ≤ levels) :
    Follows resolve dir s.specifiers s.exchange (s.walk (visit resolve dir) levels) := by
  cases levels with
  | zero => cases s <;> simp [Stmt.height] at h
  | succ levels =>
    cases s with
    | scope e kind body =>
      intro st
      rw [Stmt.height] at h
      obtain ⟨hbody, hst⟩ := walks_follow body levels (by omega) st
      refine ⟨fun more => ?_, hst⟩
      rw [Stmt.specifiers_scope, Stmt.exchange, hbody more]
      rfl
    | _ => exact walk_follows_of_isLeaf (fun _ _ _ he => by cases he) levels

/-- The walk through a list of statements, from any state of the session on. -/
theorem walks_follow (body : List Stmt) (levels : Nat) (h : Stmt.heightOf body ≤ levels) :
    Follows resolve dir (Stmt.specifiersOf body) (Stmt.exchangeOf body)
      (carry (Stmt.walk (visit resolve dir) levels) body) := by
  cases body with
  | nil => exact fun st => ⟨fun more => rfl, rfl⟩
  | cons s rest =>
    intro st
    rw [Stmt.heightOf] at h
    obtain ⟨hs, hst⟩ := walk_follows s levels (by omega) st
    obtain ⟨hrest, hst'⟩ := walks_follow rest levels (by omega)
      (s.walk (visit resolve dir) levels st).2
    obtain ⟨hanswers, hlast⟩ := relinkEach_congr hst (Specifier.requests dir (Stmt.specifiersOf rest))
    rw [Stmt.specifiersOf_cons, Specifier.requests_append, relinkEach_append]
    refine ⟨fun more => ?_, hst'.trans hlast⟩
    rw [Stmt.exchangeOf, List.map_append, List.append_assoc, hs, ← hanswers]
    dsimp only
    rw [hrest]
    rfl

end

/-- A module comes out with the texts that relinking its specifiers gives, and the session is left as
relinking them leaves it. -/
theorem relinkModule_follows (resolve : Resolver) (file : Path) (m : ModuleTree) (s : Session) :
    (s.relinkModule resolve file m).1 =
        m.exchange ((s.relinkEach resolve (m.requests file)).1.map Replacement.specifier) ∧
      (s.relinkModule resolve file m).2.trimmed =
        (s.relinkEach resolve (m.requests file)).2.trimmed := by
  have hopened : s.trimmed = ((s.note (.opened file)).note .entered).trimmed := by
    rw [trimmed_note rfl, trimmed_note rfl]
  obtain ⟨hanswers, hlast⟩ := relinkEach_congr hopened (m.requests file)
  obtain ⟨hbody, hst⟩ := @walks_follow resolve file.containingDir m.body (Stmt.heightOf m.body)
    (Nat.le_refl _) ((s.note (.opened file)).note .entered)
  refine ⟨?_, (trimmed_note rfl _).trans (hst.trans hlast.symm)⟩
  have hall := hbody []
  rw [List.append_nil] at hall
  unfold ModuleTree.exchange
  rw [congrArg (List.map Replacement.specifier) hanswers]
  exact congrArg (fun p => { m with body := p.1 }) hall.symm

/-- **Relinking a module is an exchange of its specifiers.** For any resolver, file, module and
session: the module that comes out is the one that went in, with the texts that relinking its
specifiers that can be completed gives, in their order. Its specifiers are the old ones with the same
texts exchanged, its nodes keep their labels and all ranges but those of what the replaced specifiers
hold, and the session is left as relinking these specifiers leaves it. -/
theorem relinkModule_eq_exchange (resolve : Resolver) (file : Path) (m : ModuleTree) (s : Session) :
    let calls := s.relinkEach resolve (m.requests file)
    let texts := calls.1.map Replacement.specifier
    (s.relinkModule resolve file m).1 = m.exchange texts ∧
      (s.relinkModule resolve file m).1.specifiers = (Specifier.exchange m.specifiers texts).1 ∧
      (s.relinkModule resolve file m).1.marks = m.unrange.marks ∧
      (s.relinkModule resolve file m).2.trimmed = calls.2.trimmed := by
  intro calls texts
  obtain ⟨htree, hst⟩ := relinkModule_follows resolve file m s
  refine ⟨htree, ?_, ?_, hst⟩
  · rw [htree, ModuleTree.specifiers_exchange]
  · have hone : texts.length = (m.specifiers.filter Specifier.isCompletable).length := by
      rw [List.length_map]
      exact (length_carry _ _ s).trans (List.length_map _)
    rw [htree, m.marks_exchange hone]

end Session

end Relink
