import Mathlib.Data.List.Basic
import Relink.Extension.Output
import Relink.Proofs.Path.Route
import Relink.Proofs.Specifier

/-!
# The way from a directory to a file

A relative specifier (`relativize`) is the way that leads from a directory to a file: up past the names
the two do not share, then down through the names that are left. `Path.names` lists the names of an
absolute path from the root on, and `up` and `down` are the two halves of the way.

Results:
* `down_eq_nil_iff`: nothing is to be entered where the file lies at the directory or above it.
* `waySegments_eq`: the way is written as that many `..` and the names down.
* `route_join_relativeSpecifier`: read from the directory, the specifier leads to the file, provided
  the names down are texts. The names that are shared may be any bytes.
* `branches_join`, `valid_of_mem_down`: reading texts from a directory enters no other names.
* `exists_down_of_entersName`, `startsWith_of_not_entersName`: a specifier that enters a name enters
  a last one, and any other leads to the directory or above it.
-/

namespace Relink

/-! ## What two lists share -/

theorem dropShared_map {α β : Type} [DecidableEq α] [DecidableEq β] {f : α → β}
    (hf : ∀ a b, f a = f b → a = b) (xs ys : List α) :
    dropShared (xs.map f) (ys.map f) = ((dropShared xs ys).1.map f, (dropShared xs ys).2.map f) := by
  fun_induction dropShared xs ys with
  | case1 x xs ys ih => rw [List.map_cons, List.map_cons, dropShared, if_pos rfl, ih]
  | case2 x xs y ys h =>
    rw [List.map_cons, List.map_cons, dropShared, if_neg fun e => h (hf x y e)]
  | case3 xs ys h =>
    cases xs with
    | nil => cases ys <;> rfl
    | cons x xs =>
      cases ys with
      | nil => rfl
      | cons y ys => exact absurd rfl (h x xs y ys rfl)

/-- Nothing is left of a list that the other begins with. -/
theorem dropShared_snd_eq_nil_iff {α : Type} [DecidableEq α] {xs ys : List α} :
    (dropShared xs ys).2 = [] ↔ ys <+: xs := by
  fun_induction dropShared xs ys with
  | case1 x xs ys ih => rw [ih, List.cons_prefix_cons, and_iff_right rfl]
  | case2 x xs y ys h =>
    rw [List.cons_prefix_cons]
    exact ⟨fun e => absurd e (List.cons_ne_nil y ys), fun e => absurd e.1.symm h⟩
  | case3 xs ys h =>
    cases ys with
    | nil => exact iff_of_true rfl List.nil_prefix
    | cons y ys =>
      cases xs with
      | nil => simp
      | cons x xs => exact absurd rfl (h x xs y ys rfl)

/-- What is known to be shared is dropped. -/
theorem dropShared_shared {α : Type} [DecidableEq α] (shared xs ys : List α) :
    dropShared (shared ++ xs) (shared ++ ys) = dropShared xs ys := by
  induction shared with
  | nil => rfl
  | cons a rest ih => rw [List.cons_append, List.cons_append, dropShared, if_pos rfl, ih]

namespace Path

/-- The names of a path from its start on. -/
def names (p : Path) : List Bytes :=
  p.route.names.reverse

/-- The names of `source` that `target` does not share, each to be left by going up. -/
def up (source target : Path) : List Bytes :=
  (dropShared source.names target.names).1

/-- The names of `target` that `source` does not share, each to be entered. -/
def down (source target : Path) : List Bytes :=
  (dropShared source.names target.names).2

theorem plain_of_mem_names {p : Path} {n : Bytes} (h : n ∈ p.names) : Plain n :=
  (proper_route p).plain n (List.mem_reverse.mp h)

/-- An absolute path is where its names lead from the root. -/
theorem route_of_isAbsolute {p : Path} (h : p.isAbsolute = true) :
    p.route = ⟨true, 0, p.names.reverse⟩ := by
  have hr : p.route.rooted = true := by rw [rooted_route, h]
  have hu := (proper_route p).ups_eq_zero hr
  unfold names
  rw [List.reverse_reverse, ← hr, ← hu]

theorem names_normal (p : Path) : p.normal.names = p.names := by
  unfold names
  rw [route_normal]

/-- Absolute paths have one normal form exactly where their names agree. -/
theorem normal_eq_iff_names {p q : Path} (hp : p.isAbsolute = true)
    (hq : q.isAbsolute = true) : p.normal = q.normal ↔ p.names = q.names := by
  rw [normal_eq_iff]
  constructor
  · intro h
    unfold names
    rw [h]
  · intro h
    rw [route_of_isAbsolute hp, route_of_isAbsolute hq, h]

/-- Names that are shared stand before the two halves of the way. -/
theorem exists_shared (source target : Path) :
    ∃ shared, source.names = shared ++ up source target ∧
      target.names = shared ++ down source target :=
  dropShared_append source.names target.names

theorem plain_of_mem_down {source target : Path} {n : Bytes} (h : n ∈ down source target) :
    Plain n := by
  obtain ⟨shared, -, ht⟩ := exists_shared source target
  exact plain_of_mem_names (ht ▸ List.mem_append_right shared h)

theorem components_normal_of_isAbsolute {p : Path} (h : p.isAbsolute = true) :
    p.normal.components = .root :: p.names.map .name := by
  rw [components_normal, route_of_isAbsolute h]
  simp [Route.components]

/-- Lying at or below a directory is to go on from its names. -/
theorem startsWith_normal_iff {p dir : Path} (hp : p.isAbsolute = true)
    (hd : dir.isAbsolute = true) :
    p.normal.startsWith dir.normal = true ↔ dir.names <+: p.names := by
  unfold startsWith
  rw [components_normal_of_isAbsolute hp, components_normal_of_isAbsolute hd,
    List.isPrefixOf_iff_prefix, List.cons_prefix_cons, and_iff_right rfl,
    List.prefix_map_iff_of_injective fun a b e => Component.name.inj e]

/-- What lies at or below an absolute path is absolute. -/
theorem isAbsolute_of_startsWith {p dir : Path} (hd : dir.isAbsolute = true)
    (h : p.startsWith dir = true) : p.isAbsolute = true := by
  unfold startsWith at h
  rw [components_of_isAbsolute hd, components_eq p, List.isPrefixOf_iff_prefix] at h
  rcases opening_cases p with ⟨-, habs, -⟩ | ⟨ho, -⟩ | ⟨ho, -⟩
  · exact habs
  · rw [ho] at h
    cases (List.cons_prefix_cons.mp h).1
  · rw [ho] at h
    rcases mem_steps (h.subset List.mem_cons_self) with e | ⟨_, _, e, _⟩ <;> cases e

/-- No name is to be entered exactly where the target is the source or lies above it. -/
theorem down_eq_nil_iff {source target : Path} (hs : source.isAbsolute = true)
    (ht : target.isAbsolute = true) :
    down source target = [] ↔ source.normal.startsWith target.normal = true := by
  rw [startsWith_normal_iff hs ht]
  exact dropShared_snd_eq_nil_iff

/-- The way is written as one `..` for each name up and then the names down. -/
theorem waySegments_eq {source target : Path} (hs : source.isAbsolute = true)
    (ht : target.isAbsolute = true) :
    waySegments source target =
      List.replicate (up source target).length ['.', '.'] ++ (down source target).map Utf8.lossy := by
  unfold waySegments up down
  rw [components_normal_of_isAbsolute hs, components_normal_of_isAbsolute ht, dropShared,
    if_pos rfl, dropShared_map fun a b e => Component.name.inj e]
  simp only [List.length_map, List.map_map]
  rfl

/-! ## The way as a text -/

theorem encode_slashed (segs : List (List Char)) :
    Utf8.encode (slashed segs) = unsegments (segs.map Utf8.encode) := by
  induction segs with
  | nil => rfl
  | cons s rest ih =>
    cases rest with
    | nil => rfl
    | cons t rest =>
      rw [slashed, Utf8.encode_append]
      · exact congrArg (Utf8.encode s ++ slash :: ·) ih
      · simp

/-- Moves written with slashes: so many `..`, and then each by its spelling. -/
theorem encode_slashed_moves {k : Nat} {cs : List Component}
    (hvalid : ∀ c ∈ cs, Utf8.Valid c.spelling) :
    Utf8.encode (slashed (List.replicate k ['.', '.'] ++ cs.map Component.text)) =
      unsegments (List.replicate k dotDot ++ cs.map Component.spelling) := by
  have hspell : ∀ c ∈ cs, (Utf8.encode ∘ Component.text) c = c.spelling :=
    fun c hc => Utf8.encode_lossy (hvalid c hc)
  rw [encode_slashed, List.map_append, List.map_replicate, List.map_map, List.map_congr_left hspell]
  rfl

/-- A move is spelled as a segment that is not empty. -/
theorem spelling_of_moves {k : Nat} {cs : List Component} (hmoves : ∀ c ∈ cs, c.Moves) :
    ∀ s ∈ List.replicate k dotDot ++ cs.map Component.spelling, s ≠ [] ∧ slash ∉ s := by
  intro s hs
  rcases List.mem_append.mp hs with hs | hs
  · rw [List.eq_of_mem_replicate hs]
    decide
  · obtain ⟨c, hc, rfl⟩ := List.mem_map.mp hs
    rcases hmoves c hc with rfl | ⟨n, rfl, hn⟩
    · decide
    · exact ⟨hn.ne_nil, hn.slash_notMem⟩

section Slashed

variable {k : Nat} {cs : List Component} (hmoves : ∀ c ∈ cs, c.Moves)
  (hvalid : ∀ c ∈ cs, Utf8.Valid c.spelling)

include hmoves hvalid

/-- Moves written with slashes are read as the same moves. -/
theorem steps_slashed :
    steps (Utf8.encode (slashed (List.replicate k ['.', '.'] ++ cs.map Component.text))) =
      List.replicate k .parent ++ cs := by
  have hread : ∀ c ∈ cs, (Component.ofSegment? ∘ Component.spelling) c = some c := by
    intro c hc
    rcases hmoves c hc with rfl | ⟨n, rfl, hn⟩
    · rfl
    · exact hn.ofSegment?
  rw [encode_slashed_moves hvalid, steps_unsegments fun s hs => (spelling_of_moves hmoves s hs).2,
    List.filterMap_append, List.filterMap_replicate_of_some ofSegment?_dotDot, List.filterMap_map,
    List.filterMap_congr hread, List.filterMap_some]

theorem isAbsolute_slashed :
    (Path.mk (Utf8.encode (slashed
      (List.replicate k ['.', '.'] ++ cs.map Component.text)))).isAbsolute = false := by
  rw [encode_slashed_moves hvalid]
  simpa [isAbsolute] using head?_unsegments_ne (spelling_of_moves (k := k) hmoves)

end Slashed

/-- Written and read again, the way goes up and down as it should. -/
theorem steps_slashed_waySegments {source target : Path} (hs : source.isAbsolute = true)
    (ht : target.isAbsolute = true) (hvalid : ∀ n ∈ down source target, Utf8.Valid n) :
    steps (Utf8.encode (slashed (waySegments source target))) =
      List.replicate (up source target).length .parent ++ (down source target).map .name := by
  have htext : (down source target).map Utf8.lossy =
      ((down source target).map Component.name).map Component.text := by
    rw [List.map_map]
    rfl
  rw [waySegments_eq hs ht, htext]
  refine steps_slashed (List.forall_mem_map.mpr fun n hn => Or.inr ⟨n, rfl, plain_of_mem_down hn⟩)
    (List.forall_mem_map.mpr fun n hn => hvalid n hn)

/-- A specifier is the way itself, which then starts with a dot, or the way behind `./`. -/
theorem toList_relativeSpecifier (dir : Path) {file : Path} (h : file.isAbsolute = true) :
    ((relativeSpecifier dir file).toList = slashed (waySegments dir file) ∧
        ∃ rest, slashed (waySegments dir file) = '.' :: rest) ∨
      (relativeSpecifier dir file).toList = '.' :: '/' :: slashed (waySegments dir file) := by
  have hway : (dir.wayTo file).toList = slashed (waySegments dir file) := String.toList_ofList
  have hprefix : ∀ t : List Char, ('.' :: t).isPrefixOf (slashed (waySegments dir file)) = true →
      ∃ rest, slashed (waySegments dir file) = '.' :: rest := by
    intro t ht
    obtain ⟨rest, hrest⟩ := List.isPrefixOf_iff_prefix.mp ht
    exact ⟨t ++ rest, hrest.symm⟩
  unfold relativeSpecifier
  rw [if_pos h]
  dsimp only
  split
  · next hkept =>
    refine Or.inl ⟨hway, ?_⟩
    rw [hway] at hkept
    rcases hkept with e | hp | hp
    · rw [← hway, e]
      exact ⟨['.'], rfl⟩
    · exact hprefix ['.', '/'] hp
    · exact hprefix ['/'] hp
  · right
    rw [String.toList_append, hway]
    rfl

/-- The last of several segments stands behind a slash or alone. -/
theorem exists_slashed_concat (segs : List (List Char)) (last : List Char) :
    ∃ before, slashed (segs ++ [last]) = before ++ last ∧ Specifier.EndsSegment before := by
  induction segs with
  | nil => exact ⟨[], rfl, Or.inl rfl⟩
  | cons s rest ih =>
    obtain ⟨before, hb, hends⟩ := ih
    refine ⟨s ++ '/' :: before, ?_, Specifier.endsSegment_append_slash s hends⟩
    rw [List.append_assoc, List.cons_append, List.cons_append, ← hb]
    cases rest <;> rfl

/-- A specifier ends in the last name to be entered, if there is one. -/
theorem exists_relativeSpecifier_of_down {dir file : Path} (hd : dir.isAbsolute = true)
    (hf : file.isAbsolute = true) {init : List Bytes} {n : Bytes} (h : down dir file = init ++ [n]) :
    ∃ before, (relativeSpecifier dir file).toList = before ++ Utf8.lossy n ∧
      Specifier.EndsSegment before := by
  have hway := waySegments_eq hd hf
  rw [h, List.map_append, List.map_singleton, ← List.append_assoc] at hway
  obtain ⟨before, hb, hends⟩ := exists_slashed_concat _ (Utf8.lossy n)
  rw [← hway] at hb
  rcases toList_relativeSpecifier dir hf with ⟨e, -⟩ | e
  · exact ⟨before, e.trans hb, hends⟩
  · exact ⟨'.' :: '/' :: before, e.trans (congrArg ('.' :: '/' :: ·) hb),
      Specifier.endsSegment_append_slash ['.'] hends⟩

theorem isAbsolute_relativeSpecifier (dir : Path) {file : Path} (h : file.isAbsolute = true) :
    (Path.ofText (relativeSpecifier dir file)).isAbsolute = false := by
  unfold Path.ofText isAbsolute
  rcases toList_relativeSpecifier dir h with ⟨e, rest, hr⟩ | e
  · rw [e, hr]; rfl
  · rw [e]; rfl

theorem steps_relativeSpecifier (dir : Path) {file : Path} (h : file.isAbsolute = true) :
    steps (Path.ofText (relativeSpecifier dir file)).bytes =
      steps (Utf8.encode (slashed (waySegments dir file))) := by
  unfold Path.ofText
  rcases toList_relativeSpecifier dir h with ⟨e, -⟩ | e
  · rw [e]
  · have hdot : ∀ text, Utf8.encode ('.' :: '/' :: text) = dot ++ slash :: Utf8.encode text :=
      fun _ => rfl
    rw [e, hdot, steps_append_slash, show steps dot = [] from rfl, List.nil_append]

/-- **Read from the directory, a relative specifier leads to the file**, provided the names to be
entered are texts. -/
theorem route_join_relativeSpecifier {dir file : Path} (hd : dir.isAbsolute = true)
    (hf : file.isAbsolute = true) (hvalid : ∀ n ∈ down dir file, Utf8.Valid n) :
    (dir.join (Path.ofText (relativeSpecifier dir file))).route = file.route := by
  obtain ⟨shared, hdir, hfile⟩ := exists_shared dir file
  rw [route_join dir (isAbsolute_relativeSpecifier dir hf), steps_relativeSpecifier dir hf,
    steps_slashed_waySegments hd hf hvalid, route_of_isAbsolute hd, route_of_isAbsolute hf, hfile]
  rw [hdir, Route.walk_up_down]

/-! ## Names that branch off -/

/-- Names that follow `known` for a while and go on with texts. -/
def Branches (known names : List Bytes) : Prop :=
  ∃ shared rest, names = shared ++ rest ∧ shared <+: known ∧ ∀ n ∈ rest, Utf8.Valid n

variable {known names : List Bytes}

theorem branches_self (names : List Bytes) : Branches names names :=
  ⟨names, [], (List.append_nil names).symm, List.prefix_rfl, by simp⟩

theorem branches_of_valid (h : ∀ n ∈ names, Utf8.Valid n) : Branches known names :=
  ⟨[], names, rfl, List.nil_prefix, h⟩

theorem Branches.dropLast (h : Branches known names) : Branches known names.dropLast := by
  obtain ⟨shared, rest, rfl, hshared, hrest⟩ := h
  rcases List.eq_nil_or_concat' rest with rfl | ⟨rest, n, rfl⟩
  · rw [List.append_nil]
    exact ⟨_, [], (List.append_nil _).symm, (List.dropLast_prefix shared).trans hshared, by simp⟩
  · rw [← List.append_assoc, List.dropLast_concat]
    exact ⟨shared, rest, rfl, hshared, fun m hm => hrest m (List.mem_append_left [n] hm)⟩

theorem Branches.concat (h : Branches known names) {n : Bytes} (hn : Utf8.Valid n) :
    Branches known (names ++ [n]) := by
  obtain ⟨shared, rest, rfl, hshared, hrest⟩ := h
  refine ⟨shared, rest ++ [n], List.append_assoc shared rest [n], hshared, fun m hm => ?_⟩
  rcases List.mem_append.mp hm with hm | hm
  · exact hrest m hm
  · exact List.mem_singleton.mp hm ▸ hn

/-- Walking on with texts keeps names that branch off such. -/
theorem branches_walk {r : Route} {cs : List Component} (h : Branches known r.names.reverse)
    (hcs : ∀ n, .name n ∈ cs → Utf8.Valid n) : Branches known (r.walk cs).names.reverse := by
  induction cs generalizing r with
  | nil => exact h
  | cons c cs ih =>
    refine ih ?_ fun n hn => hcs n (List.mem_cons_of_mem c hn)
    cases c with
    | root => exact branches_of_valid fun n hn => absurd hn List.not_mem_nil
    | current => exact h
    | name n =>
      rw [show (r.step (.name n)).names = n :: r.names from rfl, List.reverse_cons]
      exact h.concat (hcs n List.mem_cons_self)
    | parent =>
      obtain ⟨rooted, ups, names⟩ := r
      cases names with
      | nil => cases rooted <;> exact h
      | cons n rest =>
        have hdrop := h.dropLast
        rw [List.reverse_cons, List.dropLast_concat] at hdrop
        exact hdrop

/-- A text read from a directory leads to names that branch off it. -/
theorem branches_join {dir : Path} (h : Branches known dir.names) (text : String) :
    Branches known (dir.join (Path.ofText text)).names := by
  have hvalid : ∀ n, .name n ∈ steps (Path.ofText text).bytes → Utf8.Valid n := by
    intro n hn
    rcases mem_steps hn with e | ⟨m, hm, e, -⟩
    · cases e
    · cases e; exact valid_of_mem_segments (valid_ofText text) hm
  cases ha : (Path.ofText text).isAbsolute with
  | true =>
    rw [join_of_isAbsolute dir ha]
    exact branches_of_valid fun n hn =>
      valid_of_mem_route (valid_ofText text) n (List.mem_reverse.mp hn)
  | false =>
    unfold names
    rw [route_join dir ha]
    exact branches_walk h hvalid

/-- The names to be entered are texts if the target branches off the source. -/
theorem valid_of_mem_down {source target : Path} (h : Branches source.names target.names) :
    ∀ n ∈ down source target, Utf8.Valid n := by
  obtain ⟨shared, rest, hnames, ⟨more, hmore⟩, hrest⟩ := h
  obtain ⟨common, -, hdown⟩ := dropShared_append more rest
  intro n hn
  unfold down at hn
  rw [hnames, ← hmore, dropShared_shared] at hn
  refine hrest n ?_
  rw [hdown]
  exact List.mem_append_right common hn

end Path

/-! ## Specifiers that enter a name -/

/-- Some segment is more than dots, so the specifier enters a directory or file by its name. -/
def Specifier.EntersName (specifier : String) : Prop :=
  ∃ s ∈ Path.segments (Path.ofText specifier).bytes, s ≠ [] ∧ s ≠ Path.dot ∧ s ≠ Path.dotDot

theorem Specifier.entersName_iff {specifier : String} :
    EntersName specifier ↔ ∃ n, .name n ∈ Path.steps (Path.ofText specifier).bytes := by
  constructor
  · rintro ⟨s, hs, hne, hdot, hdotDot⟩
    have hplain : Path.Plain s := ⟨hne, hdot, hdotDot, Path.slash_notMem_of_mem_segments hs⟩
    exact ⟨s, List.mem_filterMap.mpr ⟨s, hs, hplain.ofSegment?⟩⟩
  · rintro ⟨n, hn⟩
    rcases Path.mem_steps hn with e | ⟨m, hm, e, hplain⟩
    · cases e
    · exact ⟨m, hm, hplain.ne_nil, hplain.ne_dot, hplain.ne_dotDot⟩

namespace Path

variable {dir file : Path}

/-- A relative specifier that enters a name enters a last one. -/
theorem exists_down_of_entersName (hd : dir.isAbsolute = true) (hf : file.isAbsolute = true)
    (h : Specifier.EntersName (relativeSpecifier dir file)) :
    ∃ init n, down dir file = init ++ [n] := by
  refine (List.eq_nil_or_concat' (down dir file)).resolve_left fun hnil => ?_
  obtain ⟨n, hn⟩ := Specifier.entersName_iff.mp h
  rw [steps_relativeSpecifier dir hf, steps_slashed_waySegments hd hf (by simp [hnil]), hnil,
    List.map_nil, List.append_nil] at hn
  cases List.eq_of_mem_replicate hn

/-- The last name to be entered is the last name of the file. -/
theorem eq_of_down {init names : List Bytes} {n m : Bytes} (h : down dir file = init ++ [n])
    (hnames : file.names = names ++ [m]) : n = m := by
  obtain ⟨shared, -, hf⟩ := exists_shared dir file
  rw [hnames, h, ← List.append_assoc] at hf
  exact (List.singleton_inj.mp (List.append_inj' hf rfl).2).symm

theorem names_ne_nil_of_down {init : List Bytes} {n : Bytes} (h : down dir file = init ++ [n]) :
    file.names ≠ [] := by
  obtain ⟨shared, -, hf⟩ := exists_shared dir file
  rw [hf, h]
  simp

/-- A relative specifier that enters no name leads to the directory or above it. -/
theorem startsWith_of_not_entersName {dir : Path} (hd : dir.isAbsolute = true)
    {specifier : String} (hrelative : Specifier.isRelative specifier = true)
    (h : ¬ Specifier.EntersName specifier) :
    dir.normal.startsWith (dir.join (Path.ofText specifier)).normal = true := by
  obtain ⟨⟨rest, hrest⟩, -⟩ := Specifier.exists_of_isRelative hrelative
  have hnot : (Path.ofText specifier).isAbsolute = false := by
    unfold Path.ofText
    rw [hrest]
    rfl
  have hup : ∀ c ∈ steps (Path.ofText specifier).bytes, c = .parent := by
    intro c hc
    rcases mem_steps hc with e | ⟨n, -, e, -⟩
    · exact e
    · exact absurd (Specifier.entersName_iff.mpr ⟨n, e ▸ hc⟩) h
  refine (startsWith_normal_iff hd (isAbsolute_join hd _)).mpr ?_
  unfold names
  rw [route_join dir hnot, List.reverse_prefix]
  exact Route.names_walk_suffix hup

end Path

end Relink
