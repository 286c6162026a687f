import Relink.Tree.Declaration
import Relink.Tree.Label
import Relink.Tree.Walk

/-!
# Other texts for the specifiers of a module

`ModuleTree.exchange` puts the texts of a list in the places of the specifiers that can be completed,
one after another in the order of the text, and leaves everything else alone. It says what the result of
a relinking (`rewrite_module`) is without walking and without a session.

Results:
* `exchange_of_isLeaf`: an exchange in one declaration is `Stmt.withSpecifier`.
* `ModuleTree.specifiers_exchange`: the specifiers after an exchange are those before it, exchanged.
* `ModuleTree.marks_exchange_congr`: where the nodes lie afterwards depends on the number of the texts
  alone.
* `Specifier.exchange_map`: an exchange by a function of the specifiers is a map.
-/

namespace Relink

variable {σ α β : Type}

theorem carry_append (f : α → σ → β × σ) (xs ys : List α) (st : σ) :
    carry f (xs ++ ys) st =
      ((carry f xs st).1 ++ (carry f ys (carry f xs st).2).1, (carry f ys (carry f xs st).2).2) := by
  induction xs generalizing st with
  | nil => rfl
  | cons x rest ih =>
    simp only [List.cons_append, carry, ih]

theorem length_carry (f : α → σ → β × σ) (xs : List α) (st : σ) :
    (carry f xs st).1.length = xs.length := by
  induction xs generalizing st with
  | nil => rfl
  | cons x rest ih => exact congrArg (· + 1) (ih (f x st).2)

/-! ## Exchanging texts -/

/-- A specifier that can be completed takes the next text. -/
def Specifier.takeNext (specifier : String) : List String → String × List String
  | [] => (specifier, [])
  | text :: rest =>
    if isCompletable specifier then (text, rest) else (specifier, text :: rest)

/-- The specifiers with texts for those that can be completed, and the texts that are left. -/
def Specifier.exchange (specifiers texts : List String) : List String × List String :=
  carry takeNext specifiers texts

/-- A string that can be completed takes the next text. It stays where it was, and the range of what
it holds is forgotten. -/
def Expr.exchange : Expr → List String → Expr × List String
  | .string e v, text :: rest =>
    if Specifier.isCompletable v then (.string { e with inner := {} } text, rest)
    else (.string e v, text :: rest)
  | e, texts => (e, texts)

mutual

/-- The statement with texts for the specifiers in it, and the texts that are left. -/
def Stmt.exchange : Stmt → List String → Stmt × List String
  | .scope e kind body, texts =>
    let (body, texts) := exchangeOf body texts
    (.scope e kind body, texts)
  | .importing e decl, texts =>
    let (module, texts) := decl.module.exchange texts
    (.importing e { decl with module := module }, texts)
  | .exporting e decl, texts =>
    match decl.source with
    | some source =>
      let (source, texts) := source.exchange texts
      (.exporting e { decl with source := some source }, texts)
    | none => (.exporting e decl, texts)
  | .expr e x, texts => (.expr e x, texts)
  | .var e name initializer, texts => (.var e name initializer, texts)

/-- The statements with texts for the specifiers in them, and the texts that are left. -/
def Stmt.exchangeOf : List Stmt → List String → List Stmt × List String
  | [], texts => ([], texts)
  | s :: rest, texts =>
    let (s, texts) := s.exchange texts
    let (rest, texts) := exchangeOf rest texts
    (s :: rest, texts)

end

/-- The module with texts for its specifiers that can be completed. -/
def ModuleTree.exchange (m : ModuleTree) (texts : List String) : ModuleTree :=
  { m with body := (Stmt.exchangeOf m.body texts).1 }

/-! ## Specifiers -/

/-- The specifiers in a statement, in order. -/
def Stmt.specifiers (s : Stmt) : List String :=
  s.preorder.filterMap Stmt.specifier?

/-- The specifiers in a list of statements, in order. -/
def Stmt.specifiersOf (body : List Stmt) : List String :=
  (Stmt.preorderOf body).filterMap Stmt.specifier?

/-- What stands first takes its texts first. -/
theorem Specifier.exchange_append (xs ys texts : List String) :
    exchange (xs ++ ys) texts =
      ((exchange xs texts).1 ++ (exchange ys (exchange xs texts).2).1,
        (exchange ys (exchange xs texts).2).2) :=
  carry_append takeNext xs ys texts

/-- One text for each specifier that can be completed, by a function: an exchange is a map. -/
theorem Specifier.exchange_map (f : String → String) (specifiers : List String) :
    exchange specifiers ((specifiers.filter isCompletable).map f) =
      (specifiers.map fun s => if isCompletable s then f s else s, []) := by
  unfold exchange
  induction specifiers with
  | nil => rfl
  | cons s rest ih =>
    cases h : isCompletable s with
    | true =>
      rw [List.filter_cons_of_pos h, List.map_cons]
      simp only [carry, takeNext, h, if_true, ih, List.map_cons]
    | false =>
      rw [List.filter_cons_of_neg (by simp [h])]
      have hnext (texts : List String) : takeNext s texts = (s, texts) := by
        cases texts <;> simp [takeNext, h]
      simp [carry, hnext, ih, h]

namespace Stmt

/-- The statement holds no statements. -/
def IsLeaf (s : Stmt) : Prop :=
  ∀ e kind body, s ≠ .scope e kind body

theorem specifiers_scope (e : Extent) (kind : Scope) (body : List Stmt) :
    (Stmt.scope e kind body).specifiers = specifiersOf body := rfl

theorem specifiersOf_cons (s : Stmt) (rest : List Stmt) :
    specifiersOf (s :: rest) = s.specifiers ++ specifiersOf rest :=
  List.filterMap_append

theorem preorder_of_isLeaf {s : Stmt} (h : s.IsLeaf) : s.preorder = [s] := by
  cases s with
  | scope e kind body => exact absurd rfl (h e kind body)
  | importing e decl => rfl
  | exporting e decl => rfl
  | expr e x => rfl
  | var e name initializer => rfl

theorem specifiers_of_isLeaf {s : Stmt} (h : s.IsLeaf) : s.specifiers = s.specifier?.toList := by
  unfold specifiers
  rw [preorder_of_isLeaf h, List.filterMap_cons]
  cases s.specifier? <;> rfl

/-- A declaration that can be completed is one whose specifier can. -/
theorem map_specifier_completable? (s : Stmt) :
    s.completable?.map Completable.specifier = s.specifier?.filter Specifier.isCompletable := by
  have htext (kind : DeclarationKind) (v : String) :
      (Relink.completable? (some kind) (some (.text v))).map Completable.specifier =
        (some v).filter Specifier.isCompletable := by
    cases h : Specifier.isCompletable v <;> simp [Relink.completable?, Option.filter, h]
  unfold completable? specifier?
  cases s with
  | importing e decl =>
    dsimp only [declarationKind?, form?]
    rcases decl.module.form with v | _
    · exact htext _ v
    · rfl
  | exporting e decl =>
    dsimp only [declarationKind?, form?]
    rcases decl.source.map Expr.form with _ | v | _
    · rfl
    · exact htext _ v
    · rfl
  | _ => rfl

/-- The specifier of a declaration that can be completed, and that it can. -/
theorem specifier?_of_completable? {s : Stmt} {decl : Completable} (h : s.completable? = some decl) :
    s.specifier? = some decl.specifier ∧ Specifier.isCompletable decl.specifier = true := by
  have hmap := map_specifier_completable? s
  rw [h, Option.map_some] at hmap
  exact Option.filter_eq_some_iff.mp hmap.symm

/-- A declaration that cannot be completed has no specifier that can. -/
theorem isCompletable_of_completable?_eq_none {s : Stmt} {v : String} (h : s.completable? = none)
    (hv : s.specifier? = some v) : Specifier.isCompletable v = false := by
  have hmap := map_specifier_completable? s
  rw [h, hv, Option.map_none, eq_comm, Option.filter_eq_none_iff] at hmap
  simpa using hmap v rfl

theorem isLeaf_of_completable? {s : Stmt} {decl : Completable} (h : s.completable? = some decl) :
    s.IsLeaf := by
  rintro e kind body rfl
  cases h

end Stmt

/-! ## Exchanges in one declaration -/

/-- An exchange in an expression takes a text if a declaration of the expression can be completed. -/
theorem Expr.exchange_eq (kind : DeclarationKind) (x : Expr) (texts : List String) :
    x.exchange texts =
      match Relink.completable? (some kind) (some x.form), texts with
      | some _, text :: rest => ((literal text).withOuter x.extent.outer, rest)
      | _, _ => (x, texts) := by
  cases x with
  | string e v =>
    cases texts with
    | nil => cases h : Specifier.isCompletable v <;> simp [exchange, form, Relink.completable?, h]
    | cons text rest =>
      cases h : Specifier.isCompletable v <;>
        simp [exchange, form, Relink.completable?, h, literal, withOuter, extent]
  | _ => rfl

namespace Stmt

/-- An exchange in a declaration takes a text if the declaration can be completed. -/
theorem exchange_of_isLeaf {s : Stmt} (h : s.IsLeaf) (texts : List String) :
    s.exchange texts =
      match s.completable?, texts with
      | some _, text :: rest => (s.withSpecifier (.literal text), rest)
      | _, _ => (s, texts) := by
  cases s with
  | scope e kind body => exact absurd rfl (h e kind body)
  | expr e x => rfl
  | var e name initializer => rfl
  | importing e decl =>
    unfold exchange completable?
    rw [Expr.exchange_eq .importing]
    dsimp only [declarationKind?, form?]
    cases Relink.completable? (some .importing) (some decl.module.form) <;> cases texts <;> rfl
  | exporting e decl =>
    obtain ⟨typeOnly, names, _ | source⟩ := decl
    · rfl
    · unfold exchange completable?
      dsimp only [declarationKind?, form?, Option.map_some]
      rw [Expr.exchange_eq .exporting]
      cases Relink.completable? (some .exporting) (some source.form) <;> cases texts <;> rfl

theorem exchange_of_not_completable {s : Stmt} (h : s.IsLeaf) (hs : s.completable? = none)
    (texts : List String) : s.exchange texts = (s, texts) := by
  rw [exchange_of_isLeaf h, hs]

theorem exchange_of_completable {s : Stmt} {decl : Completable} (h : s.completable? = some decl)
    (text : String) (texts : List String) :
    s.exchange (text :: texts) = (s.withSpecifier (.literal text), texts) := by
  rw [exchange_of_isLeaf (isLeaf_of_completable? h), h]

theorem exchange_nil {s : Stmt} (h : s.IsLeaf) : s.exchange [] = (s, []) := by
  rw [exchange_of_isLeaf h]
  cases s.completable? <;> rfl

theorem isLeaf_withSpecifier {s : Stmt} (h : s.IsLeaf) (x : Expr) : (s.withSpecifier x).IsLeaf := by
  cases s with
  | scope e kind body => exact absurd rfl (h e kind body)
  | _ => intro e kind body he; cases he

theorem specifier?_withSpecifier {s : Stmt} {decl : Completable} (h : s.completable? = some decl)
    (text : String) : (s.withSpecifier (.literal text)).specifier? = some text := by
  cases s with
  | importing e d => rfl
  | exporting e d =>
    obtain ⟨typeOnly, names, _ | source⟩ := d
    · cases h
    · rfl
  | _ => cases h

end Stmt

/-! ## Exchanges in a tree -/

namespace Stmt

theorem exchange_specifiers_of_isLeaf {s : Stmt} (h : s.IsLeaf) (texts : List String) :
    Specifier.exchange s.specifiers texts =
      ((s.exchange texts).1.specifiers, (s.exchange texts).2) := by
  rw [specifiers_of_isLeaf h]
  cases hs : s.completable? with
  | none =>
    rw [exchange_of_not_completable h hs, specifiers_of_isLeaf h]
    cases hv : s.specifier? with
    | none => rfl
    | some v =>
      have hnot := isCompletable_of_completable?_eq_none hs hv
      cases texts <;> simp [Specifier.exchange, carry, Specifier.takeNext, hnot]
  | some decl =>
    obtain ⟨hv, hc⟩ := specifier?_of_completable? hs
    cases texts with
    | nil => rw [exchange_nil h, specifiers_of_isLeaf h, hv]; rfl
    | cons text rest =>
      rw [exchange_of_completable hs, specifiers_of_isLeaf (isLeaf_withSpecifier h _),
        specifier?_withSpecifier hs, hv]
      simp [Specifier.exchange, carry, Specifier.takeNext, hc]

mutual

/-- The specifiers after an exchange in a statement, and the texts left. -/
theorem exchange_specifiers (s : Stmt) (texts : List String) :
    Specifier.exchange s.specifiers texts =
      ((s.exchange texts).1.specifiers, (s.exchange texts).2) := by
  cases s with
  | scope e kind body => exact exchange_specifiersOf body texts
  | _ => exact exchange_specifiers_of_isLeaf (fun _ _ _ he => by cases he) texts

/-- The specifiers after an exchange in a list of statements, and the texts left. -/
theorem exchange_specifiersOf (body : List Stmt) (texts : List String) :
    Specifier.exchange (specifiersOf body) texts =
      (specifiersOf (exchangeOf body texts).1, (exchangeOf body texts).2) := by
  cases body with
  | nil => rfl
  | cons s rest =>
    rw [specifiersOf_cons, Specifier.exchange_append, exchange_specifiers s texts,
      exchange_specifiersOf rest _]
    dsimp only [exchangeOf]
    rw [specifiersOf_cons]

end

end Stmt

/-- The specifiers of a module after an exchange are those before it, exchanged. -/
theorem ModuleTree.specifiers_exchange (m : ModuleTree) (texts : List String) :
    (m.exchange texts).specifiers = (Specifier.exchange m.specifiers texts).1 := by
  have h := Stmt.exchange_specifiersOf m.body texts
  unfold Stmt.specifiersOf at h
  unfold ModuleTree.specifiers ModuleTree.statements
  rw [h]
  rfl

/-! ## Marks -/

theorem Expr.marks_exchange_congr (x : Expr) {texts texts' : List String}
    (h : texts.length = texts'.length) :
    (x.exchange texts).1.marks = (x.exchange texts').1.marks ∧
      (x.exchange texts).2.length = (x.exchange texts').2.length := by
  cases x with
  | string e v =>
    cases texts with
    | nil =>
      rw [List.eq_nil_of_length_eq_zero h.symm]
      exact ⟨rfl, rfl⟩
    | cons text rest =>
      obtain ⟨text', rest', rfl⟩ := List.exists_cons_of_length_eq_add_one h.symm
      rw [List.length_cons, List.length_cons, Nat.add_right_cancel_iff] at h
      cases hv : Specifier.isCompletable v <;>
        simp [exchange, hv, h, marks, mark, label, extent]
  | _ => exact ⟨rfl, h⟩

namespace Stmt

mutual

/-- Where the nodes of a statement lie after an exchange, and how many texts are left, depends on the
texts in nothing but their number. -/
theorem marks_exchange_congr (s : Stmt) {texts texts' : List String}
    (h : texts.length = texts'.length) :
    (s.exchange texts).1.marks = (s.exchange texts').1.marks ∧
      (s.exchange texts).2.length = (s.exchange texts').2.length := by
  cases s with
  | scope e kind body =>
    obtain ⟨hmarks, hleft⟩ := marksOf_exchangeOf_congr body h
    exact ⟨by cases kind <;> exact congrArg (List.cons _) hmarks, hleft⟩
  | importing e decl =>
    obtain ⟨hmarks, hleft⟩ := Expr.marks_exchange_congr decl.module h
    exact ⟨congrArg (List.cons _) hmarks, hleft⟩
  | exporting e decl =>
    obtain ⟨typeOnly, names, _ | source⟩ := decl
    · exact ⟨rfl, h⟩
    · obtain ⟨hmarks, hleft⟩ := Expr.marks_exchange_congr source h
      exact ⟨congrArg (List.cons _) hmarks, hleft⟩
  | expr e x => exact ⟨rfl, h⟩
  | var e name initializer => exact ⟨rfl, h⟩

/-- Where the nodes of a list of statements lie after an exchange, and how many texts are left, depends
on the texts in nothing but their number. -/
theorem marksOf_exchangeOf_congr (body : List Stmt) {texts texts' : List String}
    (h : texts.length = texts'.length) :
    marksOf (exchangeOf body texts).1 = marksOf (exchangeOf body texts').1 ∧
      (exchangeOf body texts).2.length = (exchangeOf body texts').2.length := by
  cases body with
  | nil => exact ⟨rfl, h⟩
  | cons s rest =>
    obtain ⟨hs, hleft⟩ := marks_exchange_congr s h
    obtain ⟨hrest, hlast⟩ := marksOf_exchangeOf_congr rest hleft
    refine ⟨?_, hlast⟩
    dsimp only [exchangeOf, marksOf]
    rw [hs, hrest]

end

end Stmt

/-- Where the nodes of a module lie after an exchange depends on the texts in nothing but their
number. -/
theorem ModuleTree.marks_exchange_congr (m : ModuleTree) {texts texts' : List String}
    (h : texts.length = texts'.length) : (m.exchange texts).marks = (m.exchange texts').marks :=
  (Stmt.marksOf_exchangeOf_congr m.body h).1

end Relink
