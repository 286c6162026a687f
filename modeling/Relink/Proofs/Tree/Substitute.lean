import Relink.Proofs.Tree.Exchange

/-!
# One text for each specifier

`ModuleTree.substitute` puts what a function makes of a specifier in the place of each specifier that
can be completed. It is the exchange whose texts depend on nothing but the specifiers, and what
`rewrite_module` does once the session's answers are known.

`ModuleTree.restore` goes back on a part of it: some specifiers get the texts of another module, and
nothing else changes. Here that is the module before the substitution.

Results:
* `ModuleTree.exchange_map`: an exchange for the values of a function is a substitution.
* `ModuleTree.restore_substitute`: a substitution that is partly restored.
* `ModuleTree.marks_exchange`: an exchange with a text for each specifier forgets the ranges that
  `ModuleTree.unrange` does and no other.
* `ModuleTree.marks_substitute_iff`: a substitution leaves all ranges alone exactly where the strings
  it replaces hold nothing that has a range.
* `ModuleTree.substitute_eq_self_iff`: one that keeps all texts leaves a module alone under the same
  condition.
-/

namespace Relink

variable {f : String → String} {kept : String → Bool}

/-! ## Substituting -/

/-- A string that can be completed gives way to what `f` makes of it. The new one stays where the old
one was, and the range of what it holds is forgotten. -/
def Expr.substitute (f : String → String) : Expr → Expr
  | .string e v =>
    if Specifier.isCompletable v then .string { e with inner := {} } (f v) else .string e v
  | x => x

mutual

/-- The statement with what `f` makes of its specifiers that can be completed. -/
def Stmt.substitute (f : String → String) : Stmt → Stmt
  | .scope e kind body => .scope e kind (substituteOf f body)
  | .importing e decl => .importing e { decl with module := decl.module.substitute f }
  | .exporting e decl => .exporting e { decl with source := decl.source.map (Expr.substitute f) }
  | .expr e x => .expr e x
  | .var e name initializer => .var e name initializer

/-- The statements with what `f` makes of their specifiers that can be completed. -/
def Stmt.substituteOf (f : String → String) : List Stmt → List Stmt
  | [] => []
  | s :: rest => s.substitute f :: substituteOf f rest

end

/-- The module with what `f` makes of its specifiers that can be completed. -/
def ModuleTree.substitute (f : String → String) (m : ModuleTree) : ModuleTree :=
  { m with body := Stmt.substituteOf f m.body }

/-! ## Restoring -/

/-- The string `x`, with the text of `old` if that can be completed and is to be kept. -/
def Expr.restore (kept : String → Bool) (old x : Expr) : Expr :=
  match old, x with
  | .string _ v, .string e w =>
    .string e (if Specifier.isCompletable v && kept v then v else w)
  | _, x => x

mutual

/-- The statement `s`, with the specifiers of `old` that can be completed and are to be kept. -/
def Stmt.restore (kept : String → Bool) : (old s : Stmt) → Stmt
  | .scope _ _ body, .scope e kind body' => .scope e kind (restoreOf kept body body')
  | .importing _ old, .importing e decl =>
    .importing e { decl with module := old.module.restore kept decl.module }
  | .exporting _ old, .exporting e decl =>
    .exporting e { decl with
      source := decl.source.map fun x => (old.source.map (·.restore kept x)).getD x }
  | _, s => s

/-- The statements of the second list, with the specifiers of the first that can be completed and are
to be kept. -/
def Stmt.restoreOf (kept : String → Bool) : (old body : List Stmt) → List Stmt
  | old :: olds, s :: rest => old.restore kept s :: restoreOf kept olds rest
  | _, body => body

end

/-- The module `m`, with the specifiers of `old` that can be completed and are to be kept. -/
def ModuleTree.restore (kept : String → Bool) (old m : ModuleTree) : ModuleTree :=
  { m with body := Stmt.restoreOf kept old.body m.body }

/-! ## An exchange by a function -/

/-- The specifier that an expression gives as a text. -/
def Expr.specifiers (x : Expr) : List String :=
  match x.form with
  | .text v => [v]
  | .computed => []

theorem Expr.exchange_map (f : String → String) (x : Expr) (more : List String) :
    x.exchange ((x.specifiers.filter Specifier.isCompletable).map f ++ more) =
      (x.substitute f, more) := by
  cases x with
  | string e v =>
    cases h : Specifier.isCompletable v with
    | true => simp [specifiers, form, exchange, substitute, h]
    | false => cases more <;> simp [specifiers, form, exchange, substitute, h]
  | _ => rfl

namespace Stmt

theorem specifiers_importing (e : Extent) (decl : ImportDecl) :
    (Stmt.importing e decl).specifiers = decl.module.specifiers := by
  rw [specifiers_of_isLeaf (fun _ _ _ he => by cases he)]
  unfold specifier? Expr.specifiers form?
  dsimp only
  cases decl.module.form <;> rfl

theorem specifiers_exporting (e : Extent) (typeOnly : Bool) (names : ExportClause) (source : Expr) :
    (Stmt.exporting e ⟨typeOnly, names, some source⟩).specifiers = source.specifiers := by
  rw [specifiers_of_isLeaf (fun _ _ _ he => by cases he)]
  unfold specifier? Expr.specifiers form?
  dsimp only [Option.map_some]
  cases source.form <;> rfl

mutual

/-- An exchange in a statement for the values of a function, and the texts left. -/
theorem exchange_map (f : String → String) (s : Stmt) (more : List String) :
    s.exchange ((s.specifiers.filter Specifier.isCompletable).map f ++ more) =
      (s.substitute f, more) := by
  cases s with
  | scope e kind body =>
    rw [specifiers_scope, exchange, exchangeOf_map f body more]
    rfl
  | importing e decl =>
    rw [specifiers_importing, exchange, Expr.exchange_map]
    rfl
  | exporting e decl =>
    obtain ⟨typeOnly, names, _ | source⟩ := decl
    · rfl
    · rw [specifiers_exporting]
      dsimp only [exchange]
      rw [Expr.exchange_map]
      rfl
  | expr e x => rfl
  | var e name initializer => rfl

/-- An exchange in a list of statements for the values of a function, and the texts left. -/
theorem exchangeOf_map (f : String → String) (body : List Stmt) (more : List String) :
    exchangeOf body (((specifiersOf body).filter Specifier.isCompletable).map f ++ more) =
      (substituteOf f body, more) := by
  cases body with
  | nil => rfl
  | cons s rest =>
    rw [specifiersOf_cons, List.filter_append, List.map_append, List.append_assoc, exchangeOf,
      exchange_map f s _]
    dsimp only
    rw [exchangeOf_map f rest more]
    rfl

end

end Stmt

/-- **An exchange for the values of a function is a substitution.** -/
theorem ModuleTree.exchange_map (f : String → String) (m : ModuleTree) :
    m.exchange ((m.specifiers.filter Specifier.isCompletable).map f) = m.substitute f := by
  have h := Stmt.exchangeOf_map f m.body []
  rw [List.append_nil] at h
  exact congrArg (fun p => { m with body := p.1 }) h

/-! ## A substitution that is partly restored -/

theorem Expr.restore_substitute (x : Expr) :
    x.restore kept (x.substitute f) = x.substitute fun v => if kept v then v else f v := by
  cases x with
  | string e v => cases h : Specifier.isCompletable v <;> simp [restore, substitute, h]
  | _ => rfl

namespace Stmt

mutual

theorem restore_substitute (s : Stmt) :
    s.restore kept (s.substitute f) = s.substitute fun v => if kept v then v else f v := by
  cases s with
  | scope e kind body => exact congrArg (Stmt.scope e kind) (restoreOf_substituteOf body)
  | importing e decl => simp only [substitute, restore, Expr.restore_substitute]
  | exporting e decl =>
    obtain ⟨typeOnly, names, _ | source⟩ := decl
    · rfl
    · simp only [substitute, restore, Option.map_some, Option.getD_some, Expr.restore_substitute]
  | expr e x => rfl
  | var e name initializer => rfl

theorem restoreOf_substituteOf (body : List Stmt) :
    restoreOf kept body (substituteOf f body) =
      substituteOf (fun v => if kept v then v else f v) body := by
  cases body with
  | nil => rfl
  | cons s rest =>
    rw [substituteOf, restoreOf, restore_substitute s, restoreOf_substituteOf rest]
    rfl

end

end Stmt

/-- **Restoring some specifiers** is to substitute the others only. -/
theorem ModuleTree.restore_substitute (m : ModuleTree) :
    m.restore kept (m.substitute f) = m.substitute fun v => if kept v then v else f v :=
  congrArg (fun body => { m with body := body }) (Stmt.restoreOf_substituteOf m.body)

/-! ## Ranges -/

/-- A string that is replaced holds nothing that has a range. -/
def Expr.Unranged (x : Expr) : Prop :=
  ∀ e v, x = .string e v → Specifier.isCompletable v = true → e.inner = {}

/-- The expression that gives a declaration's specifier. -/
def Stmt.specifierExpr? : Stmt → Option Expr
  | .importing _ decl => some decl.module
  | .exporting _ decl => decl.source
  | _ => none

/-- A specifier that is replaced holds nothing that has a range. -/
def Stmt.Unranged (s : Stmt) : Prop :=
  ∀ x, s.specifierExpr? = some x → x.Unranged

/-- No specifier that is replaced in the module holds anything that has a range. -/
def ModuleTree.Unranged (m : ModuleTree) : Prop :=
  ∀ s ∈ m.statements, s.Unranged

/-- The module after each specifier that can be completed gave way to itself. The ranges of what these
strings hold are forgotten, and everything else is as it was. -/
def ModuleTree.unrange (m : ModuleTree) : ModuleTree :=
  m.substitute fun v => v

/-- **An exchange with a text for each specifier** that can be completed forgets the ranges of what
these specifiers hold, and no others. -/
theorem ModuleTree.marks_exchange (m : ModuleTree) {texts : List String}
    (h : texts.length = (m.specifiers.filter Specifier.isCompletable).length) :
    (m.exchange texts).marks = m.unrange.marks := by
  unfold unrange
  rw [← exchange_map, m.marks_exchange_congr (h.trans (List.length_map _).symm)]

theorem Expr.marks_substitute_iff (f : String → String) (x : Expr) :
    (x.substitute f).marks = x.marks ↔ x.Unranged := by
  cases x with
  | string e v =>
    cases h : Specifier.isCompletable v with
    | true =>
      have hsame : (Expr.string e v).Unranged ↔ { e with inner := {} } = e := by
        refine ⟨fun hx => ?_, fun he d w hd _ => ?_⟩
        · rw [← hx e v rfl h]
        · cases hd
          rw [← he]
      simp [substitute, marks, mark, label, extent, h, hsame]
    | false => simp [substitute, Unranged, h]
  | _ => exact iff_of_true rfl fun e v he => by cases he

theorem Expr.length_marks_substitute (f : String → String) (x : Expr) :
    (x.substitute f).marks.length = x.marks.length := by
  cases x with
  | string e v =>
    dsimp only [substitute]
    split <;> rfl
  | _ => rfl

namespace Stmt

theorem marks_substitute_iff_of_isLeaf {s : Stmt} (h : s.IsLeaf) (f : String → String) :
    (s.substitute f).marks = s.marks ↔ s.Unranged := by
  have hcons {mark : Mark} {xs ys : List Mark} : mark :: xs = mark :: ys ↔ xs = ys := by simp
  unfold Unranged
  cases s with
  | scope e kind body => exact absurd rfl (h e kind body)
  | importing e decl =>
    refine hcons.trans ((Expr.marks_substitute_iff f decl.module).trans ?_)
    simp [specifierExpr?]
  | exporting e decl =>
    obtain ⟨typeOnly, names, _ | source⟩ := decl
    · exact iff_of_true rfl fun x hx => by cases hx
    · refine hcons.trans ((Expr.marks_substitute_iff f source).trans ?_)
      simp [specifierExpr?]
  | expr e x => exact iff_of_true rfl fun x hx => by cases hx
  | var e name initializer => exact iff_of_true rfl fun x hx => by cases hx

mutual

theorem length_marks_substitute (f : String → String) (s : Stmt) :
    (s.substitute f).marks.length = s.marks.length := by
  cases s with
  | scope e kind body => exact congrArg (· + 1) (length_marksOf_substituteOf f body)
  | importing e decl => exact congrArg (· + 1) (Expr.length_marks_substitute f decl.module)
  | exporting e decl =>
    obtain ⟨typeOnly, names, _ | source⟩ := decl
    · rfl
    · exact congrArg (· + 1) (Expr.length_marks_substitute f source)
  | expr e x => rfl
  | var e name initializer => rfl

theorem length_marksOf_substituteOf (f : String → String) (body : List Stmt) :
    (marksOf (substituteOf f body)).length = (marksOf body).length := by
  cases body with
  | nil => rfl
  | cons s rest =>
    rw [substituteOf, marksOf, marksOf, List.length_append, List.length_append,
      length_marks_substitute f s, length_marksOf_substituteOf f rest]

end

mutual

theorem marks_substitute_iff (f : String → String) (s : Stmt) :
    (s.substitute f).marks = s.marks ↔ ∀ t ∈ s.preorder, t.Unranged := by
  cases s with
  | scope e kind body =>
    have hscope : (Stmt.scope e kind body).Unranged := fun x hx => by cases hx
    rw [preorder, List.forall_mem_cons, and_iff_right hscope, ← marksOf_substituteOf_iff f body]
    cases kind <;> simp [substitute, marks, mark, label, extent]
  | _ =>
    exact (marks_substitute_iff_of_isLeaf (fun _ _ _ he => by cases he) f).trans
      List.forall_mem_singleton.symm

theorem marksOf_substituteOf_iff (f : String → String) (body : List Stmt) :
    marksOf (substituteOf f body) = marksOf body ↔ ∀ t ∈ preorderOf body, t.Unranged := by
  cases body with
  | nil => exact iff_of_true rfl (by simp [preorderOf])
  | cons s rest =>
    rw [substituteOf, marksOf, marksOf, preorderOf, List.forall_mem_append,
      ← marks_substitute_iff f s, ← marksOf_substituteOf_iff f rest]
    exact ⟨fun h => List.append_inj h (length_marks_substitute f s),
      fun h => congr (congrArg _ h.1) h.2⟩

end

end Stmt

/-- **A substitution leaves all ranges alone** exactly where no specifier that it replaces holds
anything that has a range. -/
theorem ModuleTree.marks_substitute_iff (f : String → String) (m : ModuleTree) :
    (m.substitute f).marks = m.marks ↔ m.Unranged :=
  Stmt.marksOf_substituteOf_iff f m.body

/-! ## Texts that stay -/

theorem Expr.substitute_id {x : Expr} (h : x.Unranged) : x.substitute (fun v => v) = x := by
  cases x with
  | string e v =>
    cases hv : Specifier.isCompletable v with
    | true => simp [substitute, hv, ← h e v rfl hv]
    | false => simp [substitute, hv]
  | _ => rfl

namespace Stmt

mutual

theorem substitute_id {s : Stmt} (h : ∀ t ∈ s.preorder, t.Unranged) :
    s.substitute (fun v => v) = s := by
  cases s with
  | scope e kind body =>
    rw [preorder, List.forall_mem_cons] at h
    exact congrArg (Stmt.scope e kind) (substituteOf_id h.2)
  | importing e decl =>
    have hx := Expr.substitute_id (List.forall_mem_singleton.mp h decl.module rfl)
    simp only [substitute, hx]
  | exporting e decl =>
    obtain ⟨typeOnly, names, _ | source⟩ := decl
    · rfl
    · have hx := Expr.substitute_id (List.forall_mem_singleton.mp h source rfl)
      simp only [substitute, Option.map_some, hx]
  | expr e x => rfl
  | var e name initializer => rfl

theorem substituteOf_id {body : List Stmt} (h : ∀ t ∈ preorderOf body, t.Unranged) :
    substituteOf (fun v => v) body = body := by
  cases body with
  | nil => rfl
  | cons s rest =>
    rw [preorderOf, List.forall_mem_append] at h
    rw [substituteOf, substitute_id h.1, substituteOf_id h.2]

end

end Stmt

namespace ModuleTree

theorem specifiers_substitute (f : String → String) (m : ModuleTree) :
    (m.substitute f).specifiers =
      m.specifiers.map fun v => if Specifier.isCompletable v then f v else v := by
  rw [← exchange_map, specifiers_exchange, Specifier.exchange_map]

/-- **Where all texts stay as they are**, the module does so too exactly where no specifier that is
replaced holds anything that has a range. -/
theorem substitute_eq_self_iff {m : ModuleTree} (h : (m.substitute f).specifiers = m.specifiers) :
    m.substitute f = m ↔ m.Unranged := by
  have hid : m.substitute f = m.unrange := by
    unfold unrange
    rw [← exchange_map, ← exchange_map]
    refine congrArg m.exchange (List.map_congr_left fun v hv => ?_)
    obtain ⟨hmem, hc⟩ := List.mem_filter.mp hv
    rw [specifiers_substitute] at h
    have hsame := List.map_eq_map_iff.mp (h.trans (List.map_id _).symm) v hmem
    rwa [if_pos hc] at hsame
  refine ⟨fun e => (marks_substitute_iff f m).mp (by rw [e]), fun hm => ?_⟩
  rw [hid]
  exact congrArg (fun body => { m with body := body }) (Stmt.substituteOf_id hm)

end ModuleTree

end Relink
