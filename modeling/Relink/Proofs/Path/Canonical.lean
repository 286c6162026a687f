import Relink.Proofs.Path.Editing

/-!
# The normal form and joining

Normal forms (`normalize_lexical`) can be taken before two paths are joined or after. What makes that so
is a law of routes: reading one route behind another and then going a step further is the same as going
the step on the second route first (`Route.andThen_step`). A name that the second route enters and
leaves again cancels there as it does behind the first. A `..` that finds no name to leave is kept by
the second route, and meets behind the first what it would have met without the detour: a name, nothing,
or the root.

Results:
* `Route.andThen_walk`, `route_join_eq_andThen`: reading `q` from `p` puts the route of `q` behind that
  of `p`, for absolute `q` too.
* `isReduced_normal`, `same_normal_iff`: in the normal form no step could be left out, and the paths of
  which this is true are those that are the same as their normal form.
* `normal_canonical`: how the normal form comes about, which shape it has, and how it goes with joining.
-/

namespace Relink

namespace Route

/-! ## One route behind another -/

theorem components_step_name (r : Route) (n : Bytes) :
    (r.step (.name n)).components = r.components ++ [.name n] := by
  unfold components step
  rw [List.reverse_cons, List.map_append, ← List.append_assoc]
  rfl

/-- A `..` that finds no name to leave is kept, below the root. -/
theorem components_step_parent {r : Route} (hr : r.rooted = false) (hnames : r.names = []) :
    (r.step .parent).components = r.components ++ [.parent] := by
  obtain ⟨rooted, ups, names⟩ := r
  cases hr
  cases hnames
  simp [components, step, List.replicate_succ']

/-- A route that ends in `c` goes there and then goes `c`. -/
theorem andThen_of_components_eq (r : Route) {s t : Route} {c : Component}
    (h : t.components = s.components ++ [c]) : r.andThen t = (r.andThen s).step c := by
  unfold andThen
  rw [h, walk_append]
  rfl

/-- **One step further on the second route** is one step further behind the first. -/
theorem andThen_step (r : Route) {s : Route} (hs : s.rooted = false) {c : Component} (hc : c.Moves) :
    r.andThen (s.step c) = (r.andThen s).step c := by
  rcases hc with rfl | ⟨n, rfl, -⟩
  · obtain ⟨rooted, ups, names⟩ := s
    cases names with
    | nil => exact r.andThen_of_components_eq (components_step_parent hs rfl)
    | cons m rest =>
      -- The second route entered `m` last, and leaves it behind the first as well.
      have henter := r.andThen_of_components_eq (components_step_name ⟨rooted, ups, rest⟩ m)
      exact (congrArg (·.step .parent) henter).symm
  · exact r.andThen_of_components_eq (components_step_name s n)

/-- **A whole way further on the second route** is the same way further behind the first. -/
theorem andThen_walk (r : Route) {s : Route} (hs : s.rooted = false) {cs : List Component}
    (hcs : ∀ c ∈ cs, c.Moves) : r.andThen (s.walk cs) = (r.andThen s).walk cs := by
  induction cs generalizing s with
  | nil => rfl
  | cons c cs ih =>
    have hc := hcs c List.mem_cons_self
    rw [walk_cons, walk_cons, ih ((s.rooted_step hc).trans hs) fun d hd =>
      hcs d (List.mem_cons_of_mem c hd), andThen_step r hs hc]

/-- Steps of which none could be left out are added to the route one by one. -/
theorem components_walk (r : Route) {cs : List Component} (hcs : ∀ c ∈ cs, c.Moves)
    (hpairwise : (r.components ++ cs).Pairwise fun c d => ∀ n, c = .name n → d ≠ .parent)
    (hroot : r.rooted = true → .parent ∉ cs) : (r.walk cs).components = r.components ++ cs := by
  induction cs generalizing r with
  | nil => exact (List.append_nil _).symm
  | cons c cs ih =>
    have hc := hcs c List.mem_cons_self
    have hstep : (r.step c).components = r.components ++ [c] := by
      rcases hc with rfl | ⟨n, rfl, -⟩
      · -- Neither the root nor a name stands before a `..` that could not be left out.
        have hr : r.rooted = false :=
          Bool.eq_false_iff.mpr fun hr => hroot hr List.mem_cons_self
        refine components_step_parent hr (List.eq_nil_iff_forall_not_mem.mpr fun n hn => ?_)
        have hname : .name n ∈ r.components :=
          List.mem_append_right _ (List.mem_map_of_mem (List.mem_reverse.mpr hn))
        exact (List.pairwise_append.mp hpairwise).2.2 _ hname _ List.mem_cons_self n rfl rfl
      · exact components_step_name r n
    have hrest : (r.step c).components ++ cs = r.components ++ c :: cs := by
      rw [hstep, List.append_assoc, List.singleton_append]
    rw [walk_cons, ih (r.step c) (fun d hd => hcs d (List.mem_cons_of_mem c hd)) (hrest ▸ hpairwise)
      fun hr hmem => hroot ((r.rooted_step hc).symm.trans hr) (List.mem_cons_of_mem c hmem), hrest]

/-- A route from the root stands alone. -/
theorem andThen_of_rooted (r : Route) {s : Route} (h : s.Proper) (hs : s.rooted = true) :
    r.andThen s = s := by
  have hups := h.ups_eq_zero hs
  obtain ⟨rooted, ups, names⟩ := s
  cases hs
  cases hups
  have hwalk := walk_names ⟨true, 0, []⟩ names.reverse
  rw [List.reverse_reverse, List.append_nil] at hwalk
  exact hwalk

end Route

namespace Path

/-- **Reading `q` from `p` puts the route of `q` behind the route of `p`.** -/
theorem route_join_eq_andThen (p q : Path) : (p.join q).route = p.route.andThen q.route := by
  cases hq : q.isAbsolute with
  | true =>
    rw [join_of_isAbsolute p hq, p.route.andThen_of_rooted (proper_route q) ((rooted_route q).trans hq)]
  | false =>
    rw [route_join p hq, route_eq q, hq,
      p.route.andThen_walk rfl fun c hc => moves_of_mem_steps hc]
    rfl

/-- **Normal forms may be taken before joining**: what they are joined to leads the same way. -/
theorem normal_join_normal (p q : Path) : (p.normal.join q.normal).normal = (p.join q).normal := by
  rw [normal_eq_iff, route_join_eq_andThen, route_join_eq_andThen, route_normal, route_normal]

/-- Paths that are the same have one normal form. -/
theorem Same.normal_eq {p q : Path} (h : p.Same q) : p.normal = q.normal :=
  normal_eq_iff.mpr (route_eq_of_same h)

/-- In normal form, to be the same is to be spelled alike. -/
theorem same_iff_eq {p q : Path} (hp : p.normal = p) (hq : q.normal = q) : p.Same q ↔ p = q := by
  constructor
  · intro h
    rw [← hp, h.normal_eq, hq]
  · rintro rfl
    exact (rfl : p.components = p.components)

/-! ## The shape of a normal form -/

/-- No step of the path could be left out: there is no `.`, no `..` stands after a name, and none after
the root. -/
structure IsReduced (p : Path) : Prop where
  current_notMem : .current ∉ p.components
  no_parent_after_name : p.components.Pairwise fun c d => ∀ n, c = .name n → d ≠ .parent
  parent_notMem : p.isAbsolute = true → .parent ∉ p.components

theorem isReduced_normal (p : Path) : p.normal.IsReduced where
  current_notMem := by
    rw [components_normal, Route.components]
    cases p.route.rooted <;> simp
  no_parent_after_name := by
    -- What leads up holds no name, and what follows holds nothing else.
    rw [components_normal, Route.components, List.pairwise_append]
    refine ⟨?_, ?_, ?_⟩
    · refine List.pairwise_of_forall_mem_list fun c hc d _ n e => ?_
      cases hr : p.route.rooted <;> simp [hr, e] at hc
    · refine List.pairwise_of_forall_mem_list fun c _ d hd n _ e => ?_
      simp [e] at hd
    · intro c _ d hd n _ e
      simp [e] at hd
  parent_notMem h := by
    rw [isAbsolute_normal, ← rooted_route] at h
    rw [components_normal, Route.components, (proper_route p).ups_eq_zero h, h]
    simp

/-- **A path is the same as its normal form** exactly if no step of it could be left out. -/
theorem same_normal_iff (p : Path) : p.normal.Same p ↔ p.IsReduced := by
  constructor
  · intro h
    have hcomponents : p.normal.components = p.components := h
    obtain ⟨hcurrent, hpairwise, hparent⟩ := isReduced_normal p
    rw [hcomponents] at hcurrent hpairwise hparent
    rw [isAbsolute_normal] at hparent
    exact ⟨hcurrent, hpairwise, hparent⟩
  · intro h
    have hopening : (Route.mk p.isAbsolute 0 []).components = p.opening.toList := by
      rcases opening_cases p with ⟨ho, habs, -⟩ | ⟨ho, -⟩ | ⟨ho, habs, -⟩
      · rw [ho, habs]; rfl
      · exact absurd (by rw [components_eq, ho]; exact List.mem_cons_self) h.current_notMem
      · rw [ho, habs]; rfl
    have hmoves : ∀ c ∈ steps p.bytes, c.Moves := fun c hc => moves_of_mem_steps hc
    have hwalk := (Route.mk p.isAbsolute 0 []).components_walk hmoves
    rw [hopening, ← components_eq, ← route_eq, ← components_normal] at hwalk
    refine hwalk h.no_parent_after_name fun habs hmem => h.parent_notMem habs ?_
    rw [components_eq]
    exact List.mem_append_right _ hmem

/-- **The normal form is canonical and goes with joining.** It is what editing the empty path, component
by component, ends in. No step of it could be left out, it starts where the path starts, and it is its
own normal form. Two spellings of one path have it in common, and it may be taken before joining: of
either path, whether they are empty, absolute, or lead above each other or above the root. -/
theorem normal_canonical (p q : Path) :
    p.normal = p.components.foldl edit ⟨[]⟩ ∧
      p.normal.IsReduced ∧
      p.normal.isAbsolute = p.isAbsolute ∧
      p.normal.normal = p.normal ∧
      (p.Same q → p.normal = q.normal) ∧
      (p.join q).normal = (p.normal.join q.normal).normal :=
  ⟨(foldl_edit_components p).symm, isReduced_normal p, isAbsolute_normal p, normal_normal p,
    Same.normal_eq, (normal_join_normal p q).symm⟩

/-- One path in two spellings, with a `..` above the root and a slash at the end. -/
theorem normal_canonical_of_spellings :
    let p := Path.ofText "/a//b/./../../../c"
    let q := Path.ofText "//a/b/../.././../c/"
    (p.isAbsolute = true ∧ p.Same q) ∧
      p.normal = q.normal ∧ .parent ∉ p.normal.components ∧ p.normal = Path.ofText "/c" := by
  intro p q
  have habs : p.isAbsolute = true := by decide
  have hsame : p.Same q := by decide +kernel
  obtain ⟨-, hreduced, hstart, -, hspelling, -⟩ := normal_canonical p q
  exact ⟨⟨habs, hsame⟩, hspelling hsame, hreduced.parent_notMem (hstart.trans habs),
    by decide +kernel⟩

end Path

end Relink
