import Relink.Proofs.Path.Way

/-!
# The way is a shortest one

`Path.wayTo` (`relative_path`) goes up as often as there are steps of the source that the target does
not share, and then down what is left of the target. Read from the source it leads to the target: what
goes up undoes names only, provided the source does not itself begin by going up from an unnamed
directory.

No other text that leads there has fewer segments. `apart` counts what two lists do not share. A step
up or down adds one name at the end of a route or takes one away, or does nothing at the root, and so
changes what the route and the target do not share by one at most (`Route.apart_le_step`). A whole way
has to use it up (`Route.apart_le_walk`).

Results:
* `normal_join_wayTo`: read from the source, the way leads to the target.
* `apart_le_of_join`: a relative path that leads there has at least as many steps as are apart.
* `wayTo_shortest`: what the way denotes, how it is written, and that no other is shorter.
-/

namespace Relink

/-! ## What two lists do not share -/

/-- How many entries two lists have behind what they share. -/
def apart {α : Type} [DecidableEq α] (xs ys : List α) : Nat :=
  (dropShared xs ys).1.length + (dropShared xs ys).2.length

section Apart

variable {α : Type} [DecidableEq α]

theorem apart_self (xs : List α) : apart xs xs = 0 := by
  have h := dropShared_shared xs [] []
  rw [List.append_nil] at h
  unfold apart
  rw [h]
  rfl

theorem apart_nil (ys : List α) : apart [] ys = ys.length := by
  cases ys <;> simp [apart, dropShared]

theorem apart_cons_nil (x : α) (xs : List α) : apart (x :: xs) [] = (x :: xs).length := rfl

theorem apart_cons_cons (x y : α) (xs ys : List α) :
    apart (x :: xs) (y :: ys) =
      if x = y then apart xs ys else (x :: xs).length + (y :: ys).length := by
  unfold apart
  rw [dropShared]
  split <;> rfl

/-- One more entry at the end of a list takes it one step nearer to another or one step away. -/
theorem apart_concat (xs ys : List α) (x : α) :
    apart (xs ++ [x]) ys ≤ apart xs ys + 1 ∧ apart xs ys ≤ apart (xs ++ [x]) ys + 1 := by
  induction xs generalizing ys with
  | nil =>
    cases ys with
    | nil => exact ⟨Nat.le_refl _, Nat.zero_le _⟩
    | cons y ys =>
      rw [List.nil_append, apart_cons_cons, apart_nil, apart_nil]
      simp only [List.length_cons, List.length_nil]
      split <;> omega
  | cons a xs ih =>
    cases ys with
    | nil =>
      rw [List.cons_append, apart_cons_nil, apart_cons_nil]
      simp
    | cons y ys =>
      rw [List.cons_append, apart_cons_cons, apart_cons_cons]
      split
      · exact ih ys
      · simp only [List.length_cons, List.length_append, List.length_nil]
        omega

end Apart

namespace Route

/-- **One step** changes what a route does not share with other names by one at most. -/
theorem apart_le_step (r : Route) {c : Component} (hc : c.Moves) (names : List Bytes) :
    apart r.names.reverse names ≤ apart (r.step c).names.reverse names + 1 := by
  rcases hc with rfl | ⟨n, rfl, -⟩
  · obtain ⟨rooted, ups, inner⟩ := r
    cases inner with
    | nil => cases rooted <;> exact Nat.le_succ _
    | cons n rest =>
      rw [List.reverse_cons]
      exact (apart_concat rest.reverse names n).1
  · rw [show (r.step (.name n)).names = n :: r.names from rfl, List.reverse_cons]
    exact (apart_concat r.names.reverse names n).2

/-- **A whole way** has at least as many steps as it takes off. -/
theorem apart_le_walk (r : Route) {cs : List Component} (h : ∀ c ∈ cs, c.Moves)
    (names : List Bytes) :
    apart r.names.reverse names ≤ apart (r.walk cs).names.reverse names + cs.length := by
  induction cs generalizing r with
  | nil => exact Nat.le_refl _
  | cons c cs ih =>
    have hstep := r.apart_le_step (h c List.mem_cons_self) names
    have hrest := ih (r.step c) fun d hd => h d (List.mem_cons_of_mem c hd)
    rw [walk_cons, List.length_cons]
    omega

/-- Names that were entered are left again. -/
theorem walk_names_parents (r : Route) (ns : List Bytes) :
    (r.walk (ns.map .name)).walk (List.replicate ns.length .parent) = r := by
  rw [walk_names, walk_replicate_parent _ _ (by simp)]
  simp

end Route

namespace Path

/-! ## The moves of a path -/

/-- The steps of a path's normal form behind its root: up first, then down. -/
def moves (p : Path) : List Component :=
  List.replicate p.route.ups .parent ++ p.names.map .name

theorem components_normal_eq (p : Path) :
    p.normal.components = (if p.isAbsolute then [.root] else []) ++ p.moves := by
  rw [components_normal, Route.components, rooted_route, List.append_assoc]
  rfl

theorem walk_moves (p : Path) : (Route.mk p.isAbsolute 0 []).walk p.moves = p.route := by
  have h := route_eq p.normal
  rw [route_normal, isAbsolute_normal, normal, steps_toPath (proper_route p)] at h
  exact h.symm

theorem moves_of_mem_moves {p : Path} {c : Component} (h : c ∈ p.moves) : c.Moves := by
  rcases List.mem_append.mp h with h | h
  · exact Or.inl (List.eq_of_mem_replicate h)
  · obtain ⟨n, hn, rfl⟩ := List.mem_map.mp h
    exact Or.inr ⟨n, rfl, plain_of_mem_names hn⟩

/-- The moves of a text are texts. -/
theorem valid_of_mem_moves {p : Path} (hp : Utf8.Valid p.bytes) {c : Component} (h : c ∈ p.moves) :
    Utf8.Valid c.spelling := by
  rcases List.mem_append.mp h with h | h
  · rw [List.eq_of_mem_replicate h]
    exact ⟨['.', '.'], rfl⟩
  · obtain ⟨n, hn, rfl⟩ := List.mem_map.mp h
    exact valid_of_mem_route hp n (List.mem_reverse.mp hn)

/-- A path that does not begin by going up from an unnamed directory only goes down. -/
theorem moves_eq_names {p : Path}
    (h : p.isAbsolute = true ∨ p.normal.components.head? ≠ some .parent) :
    p.moves = p.names.map .name := by
  have hups : p.route.ups = 0 := by
    cases habs : p.isAbsolute with
    | true => exact (proper_route p).ups_eq_zero (by rw [rooted_route, habs])
    | false =>
      rw [habs] at h
      have hhead := h.resolve_left Bool.false_ne_true
      rw [components_normal_eq, habs] at hhead
      cases hups : p.route.ups with
      | zero => rfl
      | succ n =>
        unfold moves at hhead
        rw [hups, List.replicate_succ] at hhead
        exact absurd rfl hhead
  unfold moves
  rw [hups]
  rfl

/-! ## The way, read again -/

section Way

variable {source target : Path}

/-- The way is made of what the two do not share behind their root. -/
theorem waySegments_eq_moves (h : source.isAbsolute = target.isAbsolute) :
    waySegments source target =
      List.replicate (dropShared source.moves target.moves).1.length ['.', '.'] ++
        (dropShared source.moves target.moves).2.map Component.text := by
  unfold waySegments
  rw [components_normal_eq, components_normal_eq, h, dropShared_shared]

/-- The way is relative, and goes up and down as it should. -/
theorem steps_wayTo (h : source.isAbsolute = target.isAbsolute) (hvalid : Utf8.Valid target.bytes) :
    (Path.ofText (source.wayTo target)).isAbsolute = false ∧
      steps (Path.ofText (source.wayTo target)).bytes =
        List.replicate (dropShared source.moves target.moves).1.length .parent ++
          (dropShared source.moves target.moves).2 := by
  obtain ⟨shared, -, htarget⟩ := dropShared_append source.moves target.moves
  have hmem {c : Component} (hc : c ∈ (dropShared source.moves target.moves).2) :
      c ∈ target.moves := htarget ▸ List.mem_append_right shared hc
  have hmoves := fun c hc => moves_of_mem_moves (@hmem c hc)
  have hspelled := fun c hc => valid_of_mem_moves hvalid (@hmem c hc)
  unfold Path.ofText wayTo
  rw [String.toList_ofList, waySegments_eq_moves h]
  exact ⟨isAbsolute_slashed hmoves hspelled, steps_slashed hmoves hspelled⟩

/-- **Read from the source, the way leads to the target**, if the target is a text and both are absolute
or both relative. A relative source must not begin by going up. -/
theorem normal_join_wayTo (h : source.isAbsolute = target.isAbsolute)
    (hdown : source.isAbsolute = true ∨ source.normal.components.head? ≠ some .parent)
    (hvalid : Utf8.Valid target.bytes) :
    (source.join (Path.ofText (source.wayTo target))).normal = target.normal := by
  obtain ⟨habs, hsteps⟩ := steps_wayTo h hvalid
  obtain ⟨shared, hsource, htarget⟩ := dropShared_append source.moves target.moves
  generalize (dropShared source.moves target.moves).1 = up at hsteps hsource
  generalize (dropShared source.moves target.moves).2 = down at hsteps htarget
  obtain ⟨-, ns, -, -, rfl⟩ := List.map_eq_append_iff.mp ((moves_eq_names hdown).symm.trans hsource)
  let start : Route := ⟨target.isAbsolute, 0, []⟩
  have hfrom : source.route = (start.walk shared).walk (ns.map .name) := by
    rw [← walk_moves source, hsource, h, Route.walk_append]
  have hto : target.route = (start.walk shared).walk down := by
    rw [← walk_moves target, htarget, Route.walk_append]
  rw [normal_eq_iff, route_join source habs, hsteps, Route.walk_append, hfrom, hto, List.length_map,
    Route.walk_names_parents]

/-! ## No way is shorter -/

/-- **A relative path that leads to the target** has at least as many steps as the two are apart. -/
theorem apart_le_of_join {q : Path} (hq : q.isAbsolute = false)
    (h : (source.join q).normal = target.normal) :
    apart source.names target.names ≤ (steps q.bytes).length := by
  have hroute := normal_eq_iff.mp h
  rw [route_join source hq] at hroute
  have hmoves : ∀ c ∈ steps q.bytes, c.Moves := fun c hc => moves_of_mem_steps hc
  have hwalk := source.route.apart_le_walk hmoves target.names
  rwa [hroute, show target.route.names.reverse = target.names from rfl, apart_self,
    Nat.zero_add] at hwalk

/-- Segments that all go up or to a name, written with slashes, are that many steps of a relative
path. -/
theorem steps_of_segments {segs : List Bytes} (h : ∀ s ∈ segs, s = dotDot ∨ Plain s) :
    (Path.mk (unsegments segs)).isAbsolute = false ∧ (steps (unsegments segs)).length ≤ segs.length := by
  have hplain : ∀ s ∈ segs, s ≠ [] ∧ slash ∉ s := by
    intro s hs
    rcases h s hs with rfl | hn
    · decide
    · exact ⟨hn.ne_nil, hn.slash_notMem⟩
  constructor
  · simpa [isAbsolute] using head?_unsegments_ne hplain
  · rw [steps_unsegments fun s hs => (hplain s hs).2]
    exact List.length_filterMap_le _ _

end Way

/-- **The way denotes its target and is shortest.** Let both paths be absolute, or both relative and the
source not begin by going up in normal form, and let the target be a text. Read from the source, the
way leads to the target. If they are absolute, the way is written as so many `..` and then names, no
segments that go up or to a name and lead to the target are fewer, and the way is empty exactly where
the normal forms are equal. -/
theorem wayTo_shortest {source target : Path}
    (hboth : source.isAbsolute = true ∧ target.isAbsolute = true ∨
      source.isAbsolute = false ∧ target.isAbsolute = false ∧
        source.normal.components.head? ≠ some .parent)
    (htext : target.text?.isSome = true) :
    (source.join (Path.ofText (source.wayTo target))).normal = target.normal ∧
      (source.isAbsolute = true →
        (∃ ups names,
          (source.wayTo target).toList = slashed (List.replicate ups ['.', '.'] ++ names) ∧
            (∀ n ∈ names, Plain (Utf8.encode n)) ∧
            ∀ segs : List Bytes, (∀ s ∈ segs, s = dotDot ∨ Plain s) →
              (source.join ⟨unsegments segs⟩).normal = target.normal →
              ups + names.length ≤ segs.length) ∧
          (source.wayTo target = "" ↔ source.normal = target.normal)) := by
  have hvalid : Utf8.Valid target.bytes := text?_isSome_iff.mp htext
  have hsame : source.isAbsolute = target.isAbsolute := by
    rcases hboth with ⟨hs, ht⟩ | ⟨hs, ht, -⟩ <;> rw [hs, ht]
  have hjoin : (source.join (Path.ofText (source.wayTo target))).normal = target.normal :=
    normal_join_wayTo hsame (hboth.imp And.left fun h => h.2.2) hvalid
  refine ⟨hjoin, fun hs => ?_⟩
  have ht : target.isAbsolute = true := hsame.symm.trans hs
  have hwritten : (source.wayTo target).toList = slashed
      (List.replicate (up source target).length ['.', '.'] ++ (down source target).map Utf8.lossy) := by
    rw [← waySegments_eq hs ht]
    exact String.toList_ofList
  have hshortest : ∀ segs : List Bytes, (∀ s ∈ segs, s = dotDot ∨ Plain s) →
      (source.join ⟨unsegments segs⟩).normal = target.normal →
      (up source target).length + (down source target).length ≤ segs.length := by
    intro segs hsegs hleads
    obtain ⟨habs, hlength⟩ := steps_of_segments hsegs
    exact Nat.le_trans (apart_le_of_join habs hleads) hlength
  have hplain : ∀ n ∈ (down source target).map Utf8.lossy, Plain (Utf8.encode n) := by
    refine List.forall_mem_map.mpr fun n hn => ?_
    obtain ⟨shared, -, hnames⟩ := exists_shared source target
    have hmem : n ∈ target.names := hnames ▸ List.mem_append_right shared hn
    rw [Utf8.encode_lossy (valid_of_mem_route hvalid n (List.mem_reverse.mp hmem))]
    exact plain_of_mem_names hmem
  refine ⟨⟨(up source target).length, (down source target).map Utf8.lossy, hwritten, hplain, ?_⟩, ?_⟩
  · rw [List.length_map]
    exact hshortest
  · have hhere : (source.join ⟨[]⟩).normal = source.normal := by
      rw [normal_eq_iff, route_join source rfl]
      rfl
    constructor
    · intro hempty
      rw [hempty] at hjoin
      exact hhere.symm.trans hjoin
    · intro hequal
      -- Nothing at all leads there, and the way is no longer than that.
      have hnone := hshortest [] nofun (hhere.trans hequal)
      rw [List.length_nil, Nat.le_zero, Nat.add_eq_zero_iff, List.length_eq_zero_iff,
        List.length_eq_zero_iff] at hnone
      rw [hnone.1, hnone.2] at hwritten
      exact String.toList_inj.mp hwritten

/-- From one absolute path to another, a detour over the root that absorbs a `..` is no shorter. Between
relative paths the way goes up behind where both start. -/
theorem wayTo_shortest_of_detour :
    let source := Path.ofText "/a/./b"
    let target := Path.ofText "/c/../a/x/y"
    let detour := [dotDot, dotDot, dotDot] ++ ["a", "x", "y"].map fun n => Utf8.encode n.toList
    let source' := Path.ofText "lib/./x"
    let target' := Path.ofText "../src/y"
    (source.isAbsolute = true ∧ target.isAbsolute = true ∧ target.text?.isSome = true) ∧
      (source.join (Path.ofText (source.wayTo target))).normal = target.normal ∧
      (∀ s ∈ detour, s = dotDot ∨ Plain s) ∧
      (source.join ⟨unsegments detour⟩).normal = target.normal ∧
      (∃ ups names,
        (source.wayTo target).toList = slashed (List.replicate ups ['.', '.'] ++ names) ∧
          ups + names.length ≤ detour.length) ∧
      (source'.isAbsolute = false ∧ target'.isAbsolute = false ∧
        source'.normal.components.head? ≠ some .parent ∧ target'.text?.isSome = true) ∧
      source'.wayTo target' = "../../../src/y" ∧
      (source'.join (Path.ofText (source'.wayTo target'))).normal = target'.normal := by
  intro source target detour source' target'
  have habs : source.isAbsolute = true ∧ target.isAbsolute = true := by decide
  have htext : target.text?.isSome = true := by decide +kernel
  have hdetour : ∀ s ∈ detour, s = dotDot ∨ Plain s := by decide +kernel
  have hleads : (source.join ⟨unsegments detour⟩).normal = target.normal := by decide +kernel
  have hrelative : source'.isAbsolute = false ∧ target'.isAbsolute = false ∧
      source'.normal.components.head? ≠ some .parent := by decide +kernel
  have htext' : target'.text?.isSome = true := by decide +kernel
  obtain ⟨hjoin, hshortest⟩ := wayTo_shortest (Or.inl habs) htext
  obtain ⟨⟨ups, names, hwritten, -, hleast⟩, -⟩ := hshortest habs.1
  exact ⟨⟨habs.1, habs.2, htext⟩, hjoin, hdetour, hleads,
    ⟨ups, names, hwritten, hleast detour hdetour hleads⟩,
    ⟨hrelative.1, hrelative.2.1, hrelative.2.2, htext'⟩, by decide +kernel,
    (wayTo_shortest (Or.inr hrelative) htext').1⟩

end Path

end Relink
