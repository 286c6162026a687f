import Relink.Path.Containing
import Relink.Proofs.Path.Segments

/-!
# Routes and normal paths

A path and its normal form (`normalize_lexical`) lead the same way, and two paths lead the same way
exactly when their normal forms are spelled alike. `Route.Proper` is what makes that so: the names of a
route are plain, and nothing lies above the root.

Results:
* `proper_route`: every path has a proper route.
* `route_toPath`: spelling a proper route and reading it again gives the route.
* `route_normal`, `normal_eq_iff`: the normal form is canonical.
* `route_join`: reading `q` from `p` walks the steps of `q` behind the route of `p`.
* `walk_up_down`: going up and then down replaces the end of a route.
-/

namespace Relink

/-- A component that moves: to the parent or to a plain name. -/
def Component.Moves (c : Component) : Prop :=
  c = .parent ∨ ∃ n, c = .name n ∧ Path.Plain n

theorem Path.moves_of_mem_steps {bs : Bytes} {c : Component} (h : c ∈ Path.steps bs) :
    c.Moves := by
  rcases Path.mem_steps h with h | ⟨n, -, h, hn⟩
  · exact Or.inl h
  · exact Or.inr ⟨n, h, hn⟩

namespace Route

/-- The names of the route are plain, and nothing lies above the root. -/
structure Proper (r : Route) : Prop where
  plain : ∀ n ∈ r.names, Path.Plain n
  ups_eq_zero : r.rooted = true → r.ups = 0

/-! ## Walking -/

theorem walk_cons (r : Route) (c : Component) (cs : List Component) :
    r.walk (c :: cs) = (r.step c).walk cs := rfl

theorem names_step {P : Bytes → Prop} {r : Route} (h : ∀ n ∈ r.names, P n) {c : Component}
    (hc : ∀ n, c = .name n → P n) : ∀ n ∈ (r.step c).names, P n := by
  cases c with
  | root => intro n hn; exact absurd hn List.not_mem_nil
  | current => exact h
  | parent =>
    obtain ⟨rooted, ups, names⟩ := r
    cases names with
    | nil => cases rooted <;> exact h
    | cons m rest => intro n hn; exact h n (List.mem_cons_of_mem m hn)
  | name m =>
    intro n hn
    rcases List.mem_cons.mp hn with rfl | hn
    · exact hc n rfl
    · exact h n hn

/-- What holds of the names of a route and of a way holds of the names of the route behind it. -/
theorem names_walk {P : Bytes → Prop} {cs : List Component} {r : Route}
    (h : ∀ n ∈ r.names, P n) (hcs : ∀ n, .name n ∈ cs → P n) : ∀ n ∈ (r.walk cs).names, P n := by
  induction cs generalizing r with
  | nil => exact h
  | cons c cs ih =>
    refine ih (names_step h fun n hn => hcs n ?_) fun n hn => hcs n (List.mem_cons_of_mem c hn)
    exact hn ▸ List.mem_cons_self

theorem rooted_step (r : Route) {c : Component} (hc : c.Moves) :
    (r.step c).rooted = r.rooted := by
  rcases hc with rfl | ⟨n, rfl, -⟩
  · obtain ⟨rooted, ups, names⟩ := r
    cases names <;> cases rooted <;> rfl
  · rfl

theorem rooted_walk {cs : List Component} (r : Route) (h : ∀ c ∈ cs, c.Moves) :
    (r.walk cs).rooted = r.rooted := by
  induction cs generalizing r with
  | nil => rfl
  | cons c cs ih =>
    rw [walk_cons, ih _ fun d hd => h d (List.mem_cons_of_mem c hd),
      rooted_step r (h c List.mem_cons_self)]

theorem ups_step {r : Route} (hr : r.rooted = true) {c : Component} (hc : c.Moves) :
    (r.step c).ups = r.ups := by
  rcases hc with rfl | ⟨n, rfl, -⟩
  · obtain ⟨rooted, ups, names⟩ := r
    cases hr
    cases names <;> rfl
  · rfl

/-- Walking from the root never counts a level above it. -/
theorem ups_walk {cs : List Component} {r : Route} (hr : r.rooted = true)
    (h : ∀ c ∈ cs, c.Moves) : (r.walk cs).ups = r.ups := by
  induction cs generalizing r with
  | nil => rfl
  | cons c cs ih =>
    have hc := h c List.mem_cons_self
    rw [walk_cons, ih ((rooted_step r hc).trans hr) fun d hd => h d (List.mem_cons_of_mem c hd),
      ups_step hr hc]

theorem Proper.walk {r : Route} (hr : r.Proper) {cs : List Component} (h : ∀ c ∈ cs, c.Moves) :
    (r.walk cs).Proper where
  plain := by
    refine names_walk hr.plain fun n hn => ?_
    rcases h _ hn with e | ⟨m, e, hm⟩
    · cases e
    · cases e; exact hm
  ups_eq_zero hroot := by
    rw [rooted_walk r h] at hroot
    rw [ups_walk hroot h, hr.ups_eq_zero hroot]

/-- Going up drops as many names as there are. -/
theorem walk_replicate_parent (r : Route) (k : Nat) (hk : k ≤ r.names.length) :
    r.walk (List.replicate k .parent) = { r with names := r.names.drop k } := by
  induction k generalizing r with
  | zero => rfl
  | succ k ih =>
    obtain ⟨rooted, ups, names⟩ := r
    cases names with
    | nil => exact absurd hk (Nat.not_succ_le_zero k)
    | cons n rest =>
      rw [List.replicate_succ, walk_cons]
      exact ih ⟨rooted, ups, rest⟩ (Nat.le_of_succ_le_succ hk)

/-- Going up only drops names. -/
theorem names_walk_suffix {r : Route} {cs : List Component} (h : ∀ c ∈ cs, c = .parent) :
    (r.walk cs).names <:+ r.names := by
  induction cs generalizing r with
  | nil => exact List.suffix_rfl
  | cons c cs ih =>
    rw [walk_cons, h c List.mem_cons_self]
    refine (ih fun d hd => h d (List.mem_cons_of_mem c hd)).trans ?_
    obtain ⟨rooted, ups, names⟩ := r
    cases names with
    | nil => cases rooted <;> exact List.suffix_rfl
    | cons n rest => exact List.suffix_cons n rest

/-- Going up and then down replaces the end of a route. The names are listed from the top here. -/
theorem walk_up_down (rooted : Bool) (ups : Nat) (shared up down : List Bytes) :
    (Route.mk rooted ups (shared ++ up).reverse).walk
        (List.replicate up.length .parent ++ down.map .name) =
      ⟨rooted, ups, (shared ++ down).reverse⟩ := by
  rw [walk_append, walk_replicate_parent _ _ (by simp), walk_names]
  simp

end Route

namespace Path

/-! ## Absolute paths -/

theorem isAbsolute_iff {p : Path} : p.isAbsolute = true ↔ ∃ bs, p.bytes = slash :: bs := by
  unfold isAbsolute
  rw [beq_iff_eq]
  cases p.bytes with
  | nil => simp
  | cons b bs => simp

theorem isAbsolute_slash_cons (bs : Bytes) : (Path.mk (slash :: bs)).isAbsolute = true :=
  isAbsolute_iff.mpr ⟨bs, rfl⟩

theorem isAbsolute_append {p : Path} (h : p.isAbsolute = true) (bs : Bytes) :
    (Path.mk (p.bytes ++ bs)).isAbsolute = true := by
  obtain ⟨rest, hp⟩ := isAbsolute_iff.mp h
  rw [hp]
  exact isAbsolute_slash_cons _

theorem opening_of_isAbsolute {p : Path} (h : p.isAbsolute = true) : p.opening = some .root := by
  unfold opening
  rw [if_pos h]

theorem components_of_isAbsolute {p : Path} (h : p.isAbsolute = true) :
    p.components = .root :: steps p.bytes := by
  rw [components_eq, opening_of_isAbsolute h]
  rfl

/-! ## The route of a path -/

/-- Paths that are the same lead the same way. -/
theorem route_eq_of_same {p q : Path} (h : p.Same q) : p.route = q.route :=
  congrArg (Route.here.walk ·) h

/-- A path starts at the root or at an unnamed directory and goes its steps. -/
theorem route_eq (p : Path) : p.route = (Route.mk p.isAbsolute 0 []).walk (steps p.bytes) := by
  unfold route
  rw [components_eq, Route.walk_append]
  congr 1
  unfold opening
  by_cases h : p.isAbsolute = true
  · rw [if_pos h, h]
    rfl
  · rw [if_neg h, Bool.not_eq_true _ |>.mp h]
    split <;> rfl

theorem proper_route (p : Path) : p.route.Proper := by
  rw [route_eq]
  refine Route.Proper.walk ⟨fun n hn => absurd hn List.not_mem_nil, fun _ => rfl⟩ ?_
  exact fun c hc => moves_of_mem_steps hc

theorem rooted_route (p : Path) : p.route.rooted = p.isAbsolute := by
  rw [route_eq, Route.rooted_walk _ fun c hc => moves_of_mem_steps hc]

theorem valid_of_mem_route {p : Path} (h : Utf8.Valid p.bytes) :
    ∀ n ∈ p.route.names, Utf8.Valid n := by
  rw [route_eq]
  refine Route.names_walk (fun n hn => absurd hn List.not_mem_nil) fun n hn => ?_
  rcases mem_steps hn with e | ⟨m, hm, e, -⟩
  · cases e
  · cases e; exact valid_of_mem_segments h hm

/-! ## Spelling a route -/

theorem head?_unsegments_ne {segs : List Bytes} (h : ∀ s ∈ segs, s ≠ [] ∧ slash ∉ s) :
    (unsegments segs).head? ≠ some slash := by
  cases segs with
  | nil => simp [unsegments]
  | cons s rest =>
    obtain ⟨hne, hs⟩ := h s List.mem_cons_self
    cases s with
    | nil => exact absurd rfl hne
    | cons b bs =>
      have hb : slash ≠ b := fun e => hs (e ▸ List.mem_cons_self)
      cases rest with
      | nil => exact fun e => hb (Option.some.inj e).symm
      | cons t rest => exact fun e => hb (Option.some.inj e).symm

/-- The segments that a proper route is spelled with are neither empty nor a dot. -/
theorem spelled_segments {r : Route} (h : r.Proper) :
    ∀ s ∈ List.replicate r.ups dotDot ++ r.names.reverse, s ≠ [] ∧ s ≠ dot ∧ slash ∉ s := by
  intro s hs
  rcases List.mem_append.mp hs with hs | hs
  · rw [List.eq_of_mem_replicate hs]
    exact ⟨by decide, by decide, by decide⟩
  · have := h.plain s (List.mem_reverse.mp hs)
    exact ⟨this.ne_nil, this.ne_dot, this.slash_notMem⟩

theorem isAbsolute_toPath {r : Route} (h : r.Proper) : r.toPath.isAbsolute = r.rooted := by
  cases hr : r.rooted with
  | true => simp [Route.toPath, hr, isAbsolute]
  | false =>
    have := head?_unsegments_ne fun s hs => ⟨(spelled_segments h s hs).1,
      (spelled_segments h s hs).2.2⟩
    simpa [Route.toPath, hr, isAbsolute] using this

theorem steps_toPath {r : Route} (h : r.Proper) :
    steps r.toPath.bytes = List.replicate r.ups .parent ++ r.names.reverse.map .name := by
  have hbody : steps r.toPath.bytes =
      steps (unsegments (List.replicate r.ups dotDot ++ r.names.reverse)) := by
    unfold Route.toPath
    cases r.rooted with
    | true => exact steps_slash_cons _
    | false => rfl
  rw [hbody, steps_unsegments fun s hs => (spelled_segments h s hs).2.2, List.filterMap_append,
    filterMap_plain fun n hn => h.plain n (List.mem_reverse.mp hn),
    List.filterMap_replicate_of_some ofSegment?_dotDot]

theorem opening_toPath {r : Route} (h : r.Proper) :
    r.toPath.opening = if r.rooted then some .root else none := by
  unfold opening
  rw [isAbsolute_toPath h]
  cases hr : r.rooted with
  | true => rfl
  | false =>
    rw [if_neg Bool.false_ne_true, if_neg Bool.false_ne_true, if_neg]
    -- No spelled segment is a dot, and the empty path has only the empty segment.
    have hspell := spelled_segments h
    simp only [Route.toPath, hr, Bool.false_eq_true, if_false, List.nil_append]
    cases hs : List.replicate r.ups dotDot ++ r.names.reverse with
    | nil => decide
    | cons s rest =>
      rw [hs] at hspell
      rw [segments_unsegments (by simp) fun t ht => (hspell t ht).2.2]
      exact fun e => (hspell s List.mem_cons_self).2.1 (Option.some.inj e)

theorem components_toPath {r : Route} (h : r.Proper) : r.toPath.components = r.components := by
  rw [components_eq, opening_toPath h, steps_toPath h]
  unfold Route.components
  cases r.rooted <;> simp

/-- Spelling a proper route and reading it again gives the route. -/
theorem route_toPath {r : Route} (h : r.Proper) : r.toPath.route = r := by
  rw [route_eq, isAbsolute_toPath h, steps_toPath h, Route.walk_append]
  obtain ⟨rooted, ups, names⟩ := r
  have hup : (Route.mk rooted 0 []).walk (List.replicate ups .parent) = ⟨rooted, ups, []⟩ := by
    cases rooted with
    | true => rw [show ups = 0 from h.ups_eq_zero rfl]; rfl
    | false => rw [Route.walk_parents, Nat.zero_add]
  rw [hup, Route.walk_names]
  simp

/-! ## Normal forms -/

theorem components_normal (p : Path) : p.normal.components = p.route.components :=
  components_toPath (proper_route p)

theorem route_normal (p : Path) : p.normal.route = p.route :=
  route_toPath (proper_route p)

/-- **The normal form is canonical**: it is spelled alike exactly where the routes agree. -/
theorem normal_eq_iff {p q : Path} : p.normal = q.normal ↔ p.route = q.route := by
  constructor
  · intro h
    rw [← route_normal p, h, route_normal]
  · intro h
    unfold normal
    rw [h]

theorem normal_normal (p : Path) : p.normal.normal = p.normal :=
  normal_eq_iff.mpr (route_normal p)

theorem isAbsolute_normal (p : Path) : p.normal.isAbsolute = p.isAbsolute := by
  rw [normal, isAbsolute_toPath (proper_route p), rooted_route]

theorem valid_normal {p : Path} (h : Utf8.Valid p.bytes) : Utf8.Valid p.normal.bytes := by
  have hbody : Utf8.Valid
      (unsegments (List.replicate p.route.ups dotDot ++ p.route.names.reverse)) := by
    refine valid_unsegments fun s hs => ?_
    rcases List.mem_append.mp hs with hs | hs
    · rw [List.eq_of_mem_replicate hs]
      exact ⟨['.', '.'], rfl⟩
    · exact valid_of_mem_route h s (List.mem_reverse.mp hs)
  unfold normal Route.toPath
  cases p.route.rooted with
  | true => exact valid_slash_cons hbody
  | false => exact hbody

/-! ## Joining -/

theorem steps_append_of_getLast? {a : Bytes} (h : a.getLast? = some slash) (b : Bytes) :
    steps (a ++ b) = steps a ++ steps b := by
  obtain ⟨init, rfl⟩ := List.getLast?_eq_some_iff.mp h
  rw [List.append_assoc, List.singleton_append, steps_append_slash, steps_append_slash, steps_nil,
    List.append_nil]

theorem join_of_isAbsolute (p : Path) {q : Path} (h : q.isAbsolute = true) : p.join q = q := by
  unfold join
  rw [if_pos h]

theorem steps_join (p : Path) {q : Path} (h : q.isAbsolute = false) :
    steps (p.join q).bytes = steps p.bytes ++ steps q.bytes := by
  unfold join
  rw [if_neg (by simp [h])]
  split
  · next hp =>
    rcases hp with hp | hp
    · rw [hp]; rfl
    · exact steps_append_of_getLast? hp _
  · exact steps_append_slash _ _

theorem isAbsolute_join {p : Path} (h : p.isAbsolute = true) (q : Path) :
    (p.join q).isAbsolute = true := by
  unfold join
  split
  · assumption
  · split <;> exact isAbsolute_append h _

theorem isAbsolute_normal_join {p : Path} (h : p.isAbsolute = true) (q : Path) :
    (p.join q).normal.isAbsolute = true := by
  rw [isAbsolute_normal]
  exact isAbsolute_join h q

/-- The specifiers of a module are read from an absolute path, however its file is spelled. -/
theorem isAbsolute_containingDir (file : Path) : file.containingDir.isAbsolute = true := by
  unfold containingDir
  dsimp only
  split
  · assumption
  · exact isAbsolute_normal_join rfl _

theorem isAbsolute_join_eq (p : Path) {q : Path} (hp : p.isAbsolute = false)
    (hq : q.isAbsolute = false) : (p.join q).isAbsolute = false := by
  unfold join
  rw [if_neg (by simp [hq])]
  obtain ⟨bytes⟩ := p
  cases bytes with
  | nil => exact hq
  | cons b bs =>
    split <;> exact hp

/-- Reading `q` from `p` walks the steps of `q` behind the route of `p`. -/
theorem route_join (p : Path) {q : Path} (h : q.isAbsolute = false) :
    (p.join q).route = p.route.walk (steps q.bytes) := by
  rw [route_eq, steps_join p h, Route.walk_append, route_eq p]
  congr 2
  cases hp : p.isAbsolute with
  | true => rw [isAbsolute_join hp]
  | false => rw [isAbsolute_join_eq p hp h]

/-- What is read from a directory depends on where the directory leads, not on its spelling. -/
theorem route_join_congr {p p' : Path} (h : p.route = p'.route) (q : Path) :
    (p.join q).route = (p'.join q).route := by
  cases hq : q.isAbsolute with
  | true => rw [join_of_isAbsolute p hq, join_of_isAbsolute p' hq]
  | false => rw [route_join p hq, route_join p' hq, h]

theorem valid_join {p q : Path} (hp : Utf8.Valid p.bytes) (hq : Utf8.Valid q.bytes) :
    Utf8.Valid (p.join q).bytes := by
  unfold join
  split
  · exact hq
  · split
    · exact Utf8.valid_append hp hq
    · exact Utf8.valid_append hp (valid_slash_cons hq)

theorem valid_ofText (text : String) : Utf8.Valid (Path.ofText text).bytes :=
  ⟨text.toList, rfl⟩

/-- A path is a text when its bytes are well-formed. -/
theorem text?_isSome_iff {p : Path} : p.text?.isSome = true ↔ Utf8.Valid p.bytes := by
  rw [Utf8.valid_iff_decode?, text?, Option.isSome_map]

end Path

end Relink
