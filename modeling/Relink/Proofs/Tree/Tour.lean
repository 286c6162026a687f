import Mathlib.Data.List.Basic
import Relink.Proofs.Tree.Visits

/-!
# What a walk offers and what it replaces

`walk` offers the statements of a module to a visitor. Every statement has an address: its number in the
list it stands in, behind the address of the statement around it. Addresses are ordered like words, so a
statement comes before those inside it and behind those before it.

A `Tour` is an account of a walk by addresses: the statements that were offered, each with its address,
and the replacements. Nothing is offered twice, a statement is offered exactly where no statement around
it was replaced, and the visitor, shown what was offered one after another, answers with the
replacements and with nothing else. For a visitor whose answers hold no statements every walk has such an
account, and the tree that comes of it is the old one with the replacements put in.

Results:
* `Tour.alone`, `Tour.scope`, `Tour.nil`, `Tour.cons`: tours of statements and of lists of statements.
* `Stmt.exists_tour`: the walk through a statement has a tour, however far down it may go.
* `Stmt.walk_project`: a visitor that does the same with more in its state walks the same way.
* `ModuleTree.exists_tour_walk`: the walk through a module, and the specifiers that it comes past.
-/

namespace Relink

variable {σ τ α β : Type}

/-! ## Addresses -/

/-- Where a statement stands: its number in its list, behind the address of the statement around it. -/
abbrev Address := List Nat

/-- The address in a list that has one more statement in front. -/
def Address.next : Address → Address
  | [] => []
  | i :: a => (i + 1) :: a

/-- The statements that the statement holds. -/
def Stmt.children : Stmt → List Stmt
  | .scope _ _ body => body
  | _ => []

/-- The statement at an address in a statement. -/
def Stmt.stmtAt? : Stmt → Address → Option Stmt
  | s, [] => some s
  | s, i :: a => s.children[i]?.bind fun t => t.stmtAt? a

/-- The statement at an address in a list of statements. -/
def Stmt.listAt? (body : List Stmt) : Address → Option Stmt
  | [] => none
  | i :: a => body[i]?.bind fun t => t.stmtAt? a

/-- The statement at an address in a module. -/
def ModuleTree.stmtAt? (m : ModuleTree) : Address → Option Stmt :=
  Stmt.listAt? m.body

/-! ## Replacing by address -/

mutual

/-- The statement with replacements put in where they belong. What is replaced is gone with all that
was in it. -/
def Stmt.replace : (Address → Option Stmt) → Stmt → Stmt
  | replaced, .scope e kind body => (replaced []).getD (.scope e kind (replaceOf replaced body))
  | replaced, s => (replaced []).getD s

/-- The statements with replacements put in where they belong. -/
def Stmt.replaceOf : (Address → Option Stmt) → List Stmt → List Stmt
  | _, [] => []
  | replaced, s :: rest =>
    s.replace (fun a => replaced (0 :: a)) :: replaceOf (fun a => replaced a.next) rest

end

/-- The module with replacements put in where they belong. -/
def ModuleTree.replace (replaced : Address → Option Stmt) (m : ModuleTree) : ModuleTree :=
  { m with body := Stmt.replaceOf replaced m.body }

/-- No statement around the address is replaced. -/
def Reached (replaced : Address → Option Stmt) (a : Address) : Prop :=
  ∀ b, b <+: a → b ≠ a → replaced b = none

theorem reached_nil (replaced : Address → Option Stmt) : Reached replaced [] :=
  fun _ hb hne => absurd (List.prefix_nil.mp hb) hne

theorem reached_cons {replaced : Address → Option Stmt} {i : Nat} {a : Address} :
    Reached replaced (i :: a) ↔ replaced [] = none ∧ Reached (fun b => replaced (i :: b)) a := by
  constructor
  · intro h
    refine ⟨h [] List.nil_prefix (by simp), fun b hb hne => h (i :: b) ?_ (by simpa using hne)⟩
    exact List.cons_prefix_cons.mpr ⟨rfl, hb⟩
  · rintro ⟨hroot, h⟩ b hb hne
    cases b with
    | nil => exact hroot
    | cons j b =>
      obtain ⟨rfl, hprefix⟩ := List.cons_prefix_cons.mp hb
      exact h b hprefix fun e => hne (by rw [e])

/-! ## Tours -/

/-- An account of a walk: what was offered and where it stands, and what was replaced by what. -/
structure Tour (visit : Visitor σ) (stmtAt? : Address → Option Stmt) (st : σ)
    (offered : List (Address × Stmt)) (replaced : Address → Option Stmt) (st' : σ) : Prop where
  /-- One after another, each statement before those inside it and behind it. -/
  sorted : offered.Pairwise fun p q => p.1 < q.1
  /-- A statement is offered exactly where none around it was replaced. -/
  mem_iff : ∀ a s, (a, s) ∈ offered ↔ stmtAt? a = some s ∧ Reached replaced a
  /-- What is replaced was offered. -/
  only : ∀ a t, replaced a = some t → ∃ s, (a, s) ∈ offered
  /-- The replacements are what the visitor answers when it is shown what was offered. -/
  answers : carry visit (offered.map Prod.snd) st = (offered.map fun p => replaced p.1, st')

namespace Tour

variable {visit : Visitor σ} {st st' st'' : σ} {offered : List (Address × Stmt)}
  {replaced : Address → Option Stmt}

/-- Nothing stands at the empty address of a list. -/
theorem root {body : List Stmt} (h : Tour visit (Stmt.listAt? body) st offered replaced st') :
    replaced [] = none := by
  cases hr : replaced [] with
  | none => rfl
  | some t =>
    obtain ⟨s, hs⟩ := h.only [] t hr
    cases ((h.mem_iff [] s).mp hs).1

/-- A statement that is replaced or holds none is offered alone. -/
theorem alone {s : Stmt} (h : (visit s st).1 ≠ none ∨ s.children = []) :
    Tour visit s.stmtAt? st [([], s)] (fun a => if a = [] then (visit s st).1 else none)
      (visit s st).2 where
  sorted := List.pairwise_singleton _ _
  mem_iff a t := by
    rw [List.mem_singleton, Prod.mk.injEq]
    cases a with
    | nil => simp [Stmt.stmtAt?, reached_nil, eq_comm]
    | cons i a =>
      refine iff_of_false (by simp) ?_
      rintro ⟨hat, hreached⟩
      have hroot := (reached_cons.mp hreached).1
      rw [if_pos rfl] at hroot
      rcases h with h | h
      · exact h hroot
      · simp [Stmt.stmtAt?, h] at hat
  only a t ht := by
    by_cases ha : a = []
    · exact ⟨s, by simp [ha]⟩
    · simp [ha] at ht
  answers := rfl

/-- A scope that is not replaced is offered before what it holds. -/
theorem scope {e : Extent} {kind : Scope} {body : List Stmt}
    (hvisit : visit (.scope e kind body) st = (none, st'))
    (h : Tour visit (Stmt.listAt? body) st' offered replaced st'') :
    Tour visit (Stmt.scope e kind body).stmtAt? st (([], .scope e kind body) :: offered) replaced
      st'' where
  sorted := by
    refine List.pairwise_cons.mpr ⟨fun p hp => ?_, h.sorted⟩
    obtain ⟨a, s⟩ := p
    cases a with
    | nil => cases ((h.mem_iff [] s).mp hp).1
    | cons i a => exact List.nil_lt_cons i a
  mem_iff a s := by
    rw [List.mem_cons, Prod.mk.injEq, h.mem_iff a s]
    cases a with
    | nil => simp [Stmt.stmtAt?, Stmt.listAt?, reached_nil, eq_comm]
    | cons i a => simp [Stmt.stmtAt?, Stmt.listAt?, Stmt.children]
  only a t ht := (h.only a t ht).imp fun s hs => List.mem_cons_of_mem _ hs
  answers := by
    rw [List.map_cons, carry, hvisit]
    dsimp only
    rw [h.answers, List.map_cons, h.root]

theorem nil : Tour visit (Stmt.listAt? []) st [] (fun _ => none) st where
  sorted := List.Pairwise.nil
  mem_iff a s := by cases a <;> simp [Stmt.listAt?]
  only a t ht := by cases ht
  answers := rfl

end Tour

/-! ## Tours of a list -/

/-- The same statements at other addresses. -/
def moved (f : Address → Address) (offered : List (Address × Stmt)) : List (Address × Stmt) :=
  offered.map fun p => (f p.1, p.2)

theorem mem_moved {f : Address → Address} {offered : List (Address × Stmt)} {a : Address} {s : Stmt} :
    (a, s) ∈ moved f offered ↔ ∃ b, f b = a ∧ (b, s) ∈ offered := by
  simp [moved, and_comm]

theorem map_snd_moved (f : Address → Address) (offered : List (Address × Stmt)) :
    (moved f offered).map Prod.snd = offered.map Prod.snd :=
  List.map_map

/-- The replacements in a statement and those in the list behind it. -/
def joined (first later : Address → Option Stmt) : Address → Option Stmt
  | [] => none
  | 0 :: a => first a
  | (i + 1) :: a => later (i :: a)

theorem joined_next {first later : Address → Option Stmt} (h : later [] = none) (a : Address) :
    joined first later a.next = later a := by
  cases a with
  | nil => exact h.symm
  | cons i a => rfl

theorem Address.next_lt_next {a b : Address} (h : a < b) : a.next < b.next := by
  cases a with
  | nil =>
    cases b with
    | nil => exact absurd h (List.lt_irrefl [])
    | cons j b => exact List.nil_lt_cons _ b
  | cons i a =>
    cases b with
    | nil => exact absurd h (List.not_lt_nil _)
    | cons j b =>
      rw [List.cons_lt_cons_iff] at h
      exact List.cons_lt_cons_iff.mpr (h.imp Nat.succ_lt_succ (And.imp_left (congrArg _)))

namespace Tour

variable {visit : Visitor σ} {st st' st'' : σ} {s : Stmt} {body : List Stmt}
  {offered offered' : List (Address × Stmt)} {replaced replaced' : Address → Option Stmt}

/-- A list is offered statement by statement. -/
theorem cons (hs : Tour visit s.stmtAt? st offered replaced st')
    (hbody : Tour visit (Stmt.listAt? body) st' offered' replaced' st'') :
    Tour visit (Stmt.listAt? (s :: body)) st
      (moved (0 :: ·) offered ++ moved Address.next offered') (joined replaced replaced') st'' where
  sorted := by
    unfold moved
    rw [List.pairwise_append, List.pairwise_map, List.pairwise_map]
    refine ⟨hs.sorted.imp fun h => List.cons_lt_cons_iff.mpr (Or.inr ⟨rfl, h⟩),
      hbody.sorted.imp Address.next_lt_next, ?_⟩
    rintro p hp q hq
    obtain ⟨-, -, rfl⟩ := List.mem_map.mp hp
    obtain ⟨⟨b, t⟩, hb, rfl⟩ := List.mem_map.mp hq
    cases b with
    | nil => cases ((hbody.mem_iff [] t).mp hb).1
    | cons j b => exact List.cons_lt_cons_iff.mpr (Or.inl (Nat.succ_pos j))
  mem_iff a t := by
    rw [List.mem_append, mem_moved, mem_moved]
    match a with
    | [] =>
      refine iff_of_false ?_ (by simp [Stmt.listAt?])
      rintro (⟨b, hb, -⟩ | ⟨b, hb, hmem⟩)
      · cases hb
      · cases b with
        | nil => cases ((hbody.mem_iff [] t).mp hmem).1
        | cons j b => cases hb
    | 0 :: a =>
      have hno : ∀ b : Address, b.next ≠ 0 :: a := by rintro (_ | _) <;> simp [Address.next]
      simp [hno, hs.mem_iff, reached_cons, joined, Stmt.listAt?]
    | (i + 1) :: a =>
      have hnext : ∀ b : Address, b.next = (i + 1) :: a ↔ b = i :: a := by
        rintro (_ | _) <;> simp [Address.next]
      simp [hnext, hbody.mem_iff, reached_cons, joined, Stmt.listAt?, hbody.root]
  only a t ht := by
    match a, ht with
    | 0 :: a, ht =>
      obtain ⟨u, hu⟩ := hs.only a t ht
      exact ⟨u, List.mem_append_left _ (mem_moved.mpr ⟨a, rfl, hu⟩)⟩
    | (i + 1) :: a, ht =>
      obtain ⟨u, hu⟩ := hbody.only (i :: a) t ht
      exact ⟨u, List.mem_append_right _ (mem_moved.mpr ⟨i :: a, rfl, hu⟩)⟩
  answers := by
    rw [List.map_append, map_snd_moved, map_snd_moved, carry_append, hs.answers, hbody.answers,
      List.map_append]
    unfold moved
    rw [List.map_map, List.map_map]
    refine Prod.ext (congrArg (_ ++ ·) (List.map_congr_left fun p _ => ?_)) rfl
    exact (joined_next hbody.root p.1).symm

end Tour

/-! ## Walks have tours -/

/-- The visitor answers with statements that hold none. -/
def Visitor.Bare (visit : Visitor σ) : Prop :=
  ∀ s st answer, (visit s st).1 = some answer → answer.children = []

namespace Stmt

variable {visit : Visitor σ}

/-- A walk that may go down as far as a statement goes may offer it. -/
theorem exists_succ_of_height_le {s : Stmt} {levels : Nat} (h : s.height ≤ levels) :
    ∃ lower, levels = lower + 1 := by
  have hpos : 0 < s.height := by cases s <;> simp [height]
  exact ⟨levels - 1, by omega⟩

/-- What holds no statements is replaced as a whole. -/
theorem replace_of_alone {replaced : Address → Option Stmt} {s : Stmt}
    (h : replaced [] ≠ none ∨ s.children = []) : s.replace replaced = (replaced []).getD s := by
  cases s with
  | scope e kind body =>
    rcases h with h | h
    · obtain ⟨answer, hanswer⟩ := Option.ne_none_iff_exists'.mp h
      rw [replace, hanswer, Option.getD_some, Option.getD_some]
    · rw [show body = [] from h, replace, replaceOf]
  | _ => rfl

/-- A walk ends at a statement that is replaced or holds none. -/
theorem walk_of_alone (hbare : visit.Bare) {s : Stmt} {st : σ}
    (h : (visit s st).1 ≠ none ∨ s.children = []) (levels : Nat) :
    s.walk visit (levels + 1) st = ((visit s st).1.getD s, (visit s st).2) := by
  have hchildren : ((visit s st).1.getD s).children = [] := by
    cases hanswer : (visit s st).1 with
    | none => exact h.resolve_left fun hne => hne hanswer
    | some answer => exact hbare s st answer hanswer
  unfold walk
  dsimp only
  split
  · next e kind body hscope =>
    rw [hscope] at hchildren ⊢
    rw [show body = [] from hchildren, carry]
  · rfl

mutual

/-- The walk through a statement has a tour, and it is the same however far down it may go. -/
theorem exists_tour (hbare : visit.Bare) (s : Stmt) (st : σ) : ∃ offered replaced st',
      Tour visit s.stmtAt? st offered replaced st' ∧
        ∀ levels, s.height ≤ levels → s.walk visit levels st = (s.replace replaced, st') := by
  by_cases h : (visit s st).1 ≠ none ∨ s.children = []
  · refine ⟨_, _, _, Tour.alone h, fun levels hlevels => ?_⟩
    obtain ⟨levels, rfl⟩ := exists_succ_of_height_le hlevels
    rw [walk_of_alone hbare h, replace_of_alone (by rwa [if_pos rfl]), if_pos rfl]
  · obtain ⟨hnone, hchildren⟩ := not_or.mp h
    cases s with
    | scope e kind body =>
      have hvisit : visit (.scope e kind body) st = (none, (visit (.scope e kind body) st).2) :=
        Prod.ext (not_not.mp hnone) rfl
      obtain ⟨offered, replaced, st', htour, hwalk⟩ := exists_tourOf hbare body (visit _ st).2
      refine ⟨_, _, _, Tour.scope hvisit htour, fun levels hlevels => ?_⟩
      obtain ⟨levels, rfl⟩ := exists_succ_of_height_le hlevels
      unfold walk
      rw [hvisit]
      dsimp only [Option.getD_none]
      rw [hwalk levels (Nat.le_of_succ_le_succ hlevels), replace, htour.root, Option.getD_none]
    | _ => exact absurd rfl hchildren

/-- The walk through a list of statements has a tour. -/
theorem exists_tourOf (hbare : visit.Bare) (body : List Stmt) (st : σ) : ∃ offered replaced st',
      Tour visit (listAt? body) st offered replaced st' ∧
        ∀ levels, heightOf body ≤ levels →
          carry (walk visit levels) body st = (replaceOf replaced body, st') := by
  cases body with
  | nil => exact ⟨_, _, _, Tour.nil, fun _ _ => rfl⟩
  | cons s rest =>
    obtain ⟨offered, replaced, st₁, hs, hwalk⟩ := exists_tour hbare s st
    obtain ⟨offered', replaced', st', hrest, hwalkOf⟩ := exists_tourOf hbare rest st₁
    refine ⟨_, _, _, Tour.cons hs hrest, fun levels hlevels => ?_⟩
    rw [heightOf, Nat.max_le] at hlevels
    have hnext : (fun a => joined replaced replaced' (Address.next a)) = replaced' :=
      funext (joined_next hrest.root)
    rw [carry, hwalk levels hlevels.1]
    dsimp only
    rw [hwalkOf levels hlevels.2, replaceOf, hnext]
    rfl

end

end Stmt

/-! ## Notes beside a visitor -/

theorem carry_project (π : τ → σ) {f : α → τ → β × τ} {g : α → σ → β × σ}
    (h : ∀ a t, (f a t).map id π = g a (π t)) (xs : List α) (t : τ) :
    (carry f xs t).map id π = carry g xs (π t) := by
  induction xs generalizing t with
  | nil => rfl
  | cons x rest ih =>
    rw [carry, carry, ← h]
    dsimp only [Prod.map_fst, Prod.map_snd, id]
    rw [← ih]
    rfl

/-- A visitor that does the same with more in its state walks the same way. -/
theorem Stmt.walk_project (π : τ → σ) {f : Visitor τ} {g : Visitor σ}
    (h : ∀ s t, (f s t).map id π = g s (π t)) (levels : Nat) (s : Stmt) (t : τ) :
    (s.walk f levels t).map id π = s.walk g levels (π t) := by
  induction levels generalizing s t with
  | zero => rfl
  | succ levels ih =>
    unfold walk
    rw [← h]
    dsimp only [Prod.map_fst, Prod.map_snd, id]
    split
    · next e kind body _ => rw [← carry_project π ih body]; rfl
    · rfl

/-- The visitor, with a note of what it has been offered. -/
def Visitor.noting (visit : Visitor σ) : Visitor (σ × List Stmt) := fun s st =>
  ((visit s st.1).1, (visit s st.1).2, st.2 ++ [s])

theorem carry_noting (visit : Visitor σ) (stmts : List Stmt) (st : σ) (seen : List Stmt) :
    carry visit.noting stmts (st, seen) =
      ((carry visit stmts st).1, (carry visit stmts st).2, seen ++ stmts) := by
  induction stmts generalizing st seen with
  | nil => rw [List.append_nil]; rfl
  | cons s rest ih =>
    rw [carry, Visitor.noting]
    dsimp only
    rw [ih, List.append_assoc]
    rfl

/-- A tour of the visitor that notes is one of the visitor, and what is noted is what was offered. -/
theorem Tour.of_noting {visit : Visitor σ} {stmtAt? : Address → Option Stmt} {st st' : σ}
    {seen seen' : List Stmt} {offered : List (Address × Stmt)} {replaced : Address → Option Stmt}
    (h : Tour visit.noting stmtAt? (st, seen) offered replaced (st', seen')) :
    Tour visit stmtAt? st offered replaced st' ∧ seen' = seen ++ offered.map Prod.snd := by
  have hanswers := (carry_noting visit (offered.map Prod.snd) st seen).symm.trans h.answers
  obtain ⟨hreplaced, hst, hseen⟩ := by simpa only [Prod.mk.injEq] using hanswers
  exact ⟨⟨h.sorted, h.mem_iff, h.only, Prod.ext hreplaced hst⟩, hseen.symm⟩

theorem ModuleTree.walkWithin_noting (visit : Visitor σ) (m : ModuleTree) (levels : Nat) (st : σ)
    (seen : List Stmt) :
    (m.walkWithin levels visit.noting (st, seen)).map id Prod.fst = m.walkWithin levels visit st := by
  have hnoting : ∀ s t, (visit.noting s t).map id Prod.fst = visit s t.1 := fun _ _ => rfl
  have h := carry_project Prod.fst (Stmt.walk_project Prod.fst hnoting levels) m.body (st, seen)
  unfold walkWithin
  rw [← h]
  rfl

/-! ## Visitors that never replace -/

mutual

/-- A statement in which nothing is replaced stays as it was. -/
theorem Stmt.replace_none (s : Stmt) : s.replace (fun _ => none) = s := by
  cases s with
  | scope e kind body => exact congrArg (Stmt.scope e kind) (replaceOf_none body)
  | _ => rfl

/-- Statements in which nothing is replaced stay as they were. -/
theorem Stmt.replaceOf_none (body : List Stmt) : replaceOf (fun _ => none) body = body := by
  cases body with
  | nil => rfl
  | cons s rest => exact congrArg₂ List.cons (replace_none s) (replaceOf_none rest)

end

namespace Visitor

variable {visit : Visitor σ}

theorem carry_none (hnone : ∀ s st, (visit s st).1 = none) (stmts : List Stmt) (st : σ) :
    ∀ answer ∈ (carry visit stmts st).1, answer = none := by
  induction stmts generalizing st with
  | nil => simp [carry]
  | cons s rest ih => exact List.forall_mem_cons.mpr ⟨hnone s st, ih (visit s st).2⟩

theorem showAll_noting (stmts : List Stmt) (st : σ) (seen : List Stmt) :
    (visit.noting.showAll stmts (st, seen)).2 = seen ++ stmts := by
  induction stmts generalizing st seen with
  | nil => exact (List.append_nil seen).symm
  | cons s rest ih => exact (ih _ _).trans (List.append_assoc ..)

end Visitor

/-- In a tour of a visitor that never replaces nothing is replaced. -/
theorem Tour.replaced_eq_none {visit : Visitor σ} {stmtAt? : Address → Option Stmt} {st st' : σ}
    {offered : List (Address × Stmt)} {replaced : Address → Option Stmt}
    (h : Tour visit stmtAt? st offered replaced st') (hnone : ∀ s st, (visit s st).1 = none) :
    replaced = fun _ => none := by
  funext a
  cases ha : replaced a with
  | none => rfl
  | some t =>
    obtain ⟨s, hs⟩ := h.only a t ha
    refine ha.symm.trans (Visitor.carry_none hnone (offered.map Prod.snd) st _ ?_)
    rw [h.answers]
    exact List.mem_map_of_mem hs

/-- A visitor that never replaces is offered all statements of a module. -/
theorem ModuleTree.noting_walk_of_none {visit : Visitor σ} (hnone : ∀ s st, (visit s st).1 = none)
    (m : ModuleTree) (st : σ) : (m.walk visit.noting (st, [])).2.2 = m.statements := by
  have hflat : visit.noting.Flat :=
    { scope := fun _ _ _ _ => hnone _ _
      isLeaf := fun s st answer hanswer => by cases (hnone s st.1).symm.trans hanswer }
  rw [state_walk hflat]
  exact Visitor.showAll_noting m.statements st []

/-! ## Modules -/

/-- **A walk and its tour.** The walk through a module offers the statements of the tour, and the tree
that comes of it is the old one with the replacements of the tour put in; a walk that may go further
down is no different. A visitor that never replaces leaves the module as it was, and the specifiers of
the module are those of the statements that it was offered. -/
theorem ModuleTree.exists_tour_walk {visit : Visitor σ} (hbare : visit.Bare) (m : ModuleTree)
    (st : σ) : ∃ offered replaced st',
      Tour visit m.stmtAt? st offered replaced st' ∧
        m.walk visit st = (m.replace replaced, st') ∧
        m.walk visit.noting (st, []) = (m.replace replaced, st', offered.map Prod.snd) ∧
        (∀ levels, Stmt.heightOf m.body ≤ levels → m.walkWithin levels visit st = m.walk visit st) ∧
        ((∀ s st, (visit s st).1 = none) →
          (m.walk visit st).1 = m ∧
            m.specifiers = (offered.map Prod.snd).filterMap Stmt.specifier?) := by
  have hbare' : visit.noting.Bare := fun s st => hbare s st.1
  obtain ⟨offered, replaced, ⟨st', seen⟩, hnoted, hwalk⟩ :=
    Stmt.exists_tourOf hbare' m.body (st, [])
  obtain ⟨htour, rfl⟩ : Tour visit m.stmtAt? st offered replaced st' ∧ seen = offered.map Prod.snd :=
    hnoted.of_noting
  have hnoting : ∀ levels, Stmt.heightOf m.body ≤ levels →
      m.walkWithin levels visit.noting (st, []) =
        (m.replace replaced, st', offered.map Prod.snd) := by
    intro levels hlevels
    unfold walkWithin
    rw [hwalk levels hlevels]
    rfl
  have hvisit : ∀ levels, Stmt.heightOf m.body ≤ levels →
      m.walkWithin levels visit st = (m.replace replaced, st') := by
    intro levels hlevels
    rw [← walkWithin_noting visit m levels st [], hnoting levels hlevels]
    rfl
  have hwhole : m.walk visit st = (m.replace replaced, st') := hvisit _ (Nat.le_refl _)
  refine ⟨offered, replaced, st', htour, hwhole, hnoting _ (Nat.le_refl _),
    fun levels hlevels => (hvisit levels hlevels).trans hwhole.symm, fun hnone => ⟨?_, ?_⟩⟩
  · rw [hwhole, htour.replaced_eq_none hnone, replace, Stmt.replaceOf_none]
  · have hstatements : offered.map Prod.snd = m.statements := by
      rw [← noting_walk_of_none hnone m st, walk, hnoting _ (Nat.le_refl _)]
    rw [hstatements, specifiers]

/-- A visitor that empties blocks is not offered what was in them. One that only counts is offered all
there is. -/
theorem ModuleTree.exists_tour_walk_of_blocks :
    let importOf (text : String) := Stmt.importing {} ⟨false, none, none, .string {} text⟩
    let m := ModuleTree.mk {}
      [.scope {} (.function "f")
        [importOf "./a", .scope {} .block [importOf "./b"], importOf "./c"], importOf "./d"]
    let emptying : Visitor Nat := fun s n =>
      (match s with | .scope e .block _ => some (.scope e .block []) | _ => none, n + 1)
    let counting : Visitor Nat := fun _ n => (none, n + 1)
    (emptying.Bare ∧ counting.Bare) ∧
      (∃ offered replaced,
        Tour emptying m.stmtAt? 0 offered replaced 5 ∧
          m.walk emptying 0 = (m.replace replaced, 5) ∧
          offered.map (fun p => p.2.specifier?) =
            [none, some "./a", none, some "./c", some "./d"]) ∧
      (m.walk emptying 0).1.specifiers = ["./a", "./c", "./d"] ∧
      (∃ offered replaced,
        Tour counting m.stmtAt? 0 offered replaced 6 ∧ (m.walk counting 0).1 = m ∧
          (offered.map Prod.snd).filterMap Stmt.specifier? = ["./a", "./b", "./c", "./d"]) := by
  intro importOf m emptying counting
  have hemptying : emptying.Bare := by
    intro s n answer h
    dsimp only [emptying] at h
    split at h
    · exact Option.some.inj h ▸ rfl
    · cases h
  have hcounting : counting.Bare := by
    intro s n answer h
    cases h
  refine ⟨⟨hemptying, hcounting⟩, ?_, by decide +kernel, ?_⟩
  · obtain ⟨offered, replaced, n, htour, hwalk, hnoting, -⟩ := exists_tour_walk hemptying m 0
    obtain rfl : 5 = n := congrArg Prod.snd hwalk
    refine ⟨offered, replaced, htour, hwalk, ?_⟩
    have hoffered := congrArg (fun r => r.2.2.map Stmt.specifier?) hnoting
    exact List.map_map.symm.trans (hoffered.symm.trans (by decide +kernel))
  · obtain ⟨offered, replaced, n, htour, hwalk, -, -, hreading⟩ := exists_tour_walk hcounting m 0
    obtain rfl : 6 = n := congrArg Prod.snd hwalk
    obtain ⟨hsame, hspecifiers⟩ := hreading fun _ _ => rfl
    exact ⟨offered, replaced, htour, hsame, hspecifiers.symm.trans (by decide +kernel)⟩

end Relink
