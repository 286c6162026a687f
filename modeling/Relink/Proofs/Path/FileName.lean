import Relink.Proofs.Path.Way

/-!
# The last component

`Path.parent?` (`parent`) cuts the spelling of a path before its last component and `Path.withFileName`
(`with_file_name`) writes another one there. Both keep the spelling before it, so this file says what
they do to the steps of a path and not how the result is spelled.

Results:
* `isAbsolute_withBody`, `steps_withBody`: the first segments of a path, behind its opening.
* `exists_parent?`: the parent of a path goes all its steps but the last.
* `fileName?_eq_some_iff`: a file name is the last step, if that goes down.
* `steps_withFileName`, `names_withFileName`: another plain file name leads to another entry of the
  same directory.
* `steps_append`: what is written behind a path becomes part of its last name.
-/

namespace Relink.Path

/-- Leading segments that stand for no step are dropped, and no step is lost. -/
theorem filterMap_dropWhile_isNone {α β : Type} (f : α → Option β) (xs : List α) :
    (xs.dropWhile fun x => (f x).isNone).filterMap f = xs.filterMap f := by
  induction xs with
  | nil => rfl
  | cons x rest ih =>
    rw [List.dropWhile_cons]
    cases hx : f x with
    | none => rw [List.filterMap_cons_none hx]; exact ih
    | some y => rfl

/-- The first segment that is kept stands for a step. -/
theorem isSome_of_dropWhile_eq_cons {α β : Type} {f : α → Option β} {xs rest : List α} {x : α}
    (h : (xs.dropWhile fun x => (f x).isNone) = x :: rest) : ∃ y, f x = some y := by
  have := List.head_dropWhile_not (fun x => (f x).isNone) (l := xs) (by rw [h]; simp)
  simp only [h, List.head_cons, Option.isNone_eq_false_iff] at this
  exact Option.isSome_iff_exists.mp this

theorem reversedSteps_suffix (segs : List Bytes) : reversedSteps segs <:+ segs.reverse :=
  List.dropWhile_suffix _

theorem filterMap_reversedSteps (segs : List Bytes) :
    (reversedSteps segs).reverse.filterMap Component.ofSegment? =
      segs.filterMap Component.ofSegment? := by
  unfold reversedSteps
  rw [List.filterMap_reverse, filterMap_dropWhile_isNone, List.filterMap_reverse,
    List.reverse_reverse]

/-- The segments before the last step, those cut off that stand for none. -/
theorem exists_reversedSteps {segs : List Bytes} {cs : List Component} {c : Component}
    (h : segs.filterMap Component.ofSegment? = cs ++ [c]) :
    ∃ last before, reversedSteps segs = last :: before ∧ before.reverse <+: segs ∧
      before.reverse.filterMap Component.ofSegment? = cs := by
  have hsegs := filterMap_reversedSteps segs
  rw [h] at hsegs
  cases hr : reversedSteps segs with
  | nil =>
    rw [hr] at hsegs
    simp at hsegs
  | cons last before =>
    obtain ⟨d, hd⟩ := isSome_of_dropWhile_eq_cons hr
    rw [hr, List.reverse_cons, List.filterMap_append, List.filterMap_cons_some hd] at hsegs
    have hsuffix : before <:+ segs.reverse :=
      (List.suffix_cons last before).trans (hr ▸ reversedSteps_suffix segs)
    refine ⟨last, before, rfl, ?_, (List.append_inj' hsegs rfl).1⟩
    rw [← List.reverse_suffix, List.reverse_reverse]
    exact hsuffix

/-! ## Another body -/

theorem unsegments_prefix {segs all : List Bytes} (h : segs <+: all) :
    unsegments segs <+: unsegments all := by
  obtain ⟨more, rfl⟩ := h
  induction segs with
  | nil => exact List.nil_prefix
  | cons s rest ih =>
    cases rest with
    | nil =>
      cases more with
      | nil => exact List.prefix_rfl
      | cons t more => exact List.prefix_append s _
    | cons t rest =>
      exact (List.prefix_append_right_inj s).mpr ((List.cons_prefix_cons).mpr ⟨rfl, ih⟩)

section Body

variable {p : Path} {segs : List Bytes}

theorem isAbsolute_withBody (h : segs <+: segments p.body) :
    (p.withBody segs).isAbsolute = p.isAbsolute := by
  unfold withBody
  rcases opening_cases p with ⟨ho, habs, -⟩ | ⟨ho, habs, -, -⟩ | ⟨ho, habs, hbytes⟩
  · rw [ho, habs]
    exact isAbsolute_slash_cons _
  · rw [ho, habs]
    rfl
  · -- What is left of a relative path begins as it does, or is empty.
    rw [ho]
    cases hq : (Path.mk (unsegments segs)).isAbsolute with
    | false => exact hq.trans habs.symm
    | true =>
      obtain ⟨bs, hbs⟩ := isAbsolute_iff.mp hq
      obtain ⟨more, hmore⟩ := unsegments_prefix h
      rw [unsegments_segments, ← hbytes, show unsegments segs = slash :: bs from hbs] at hmore
      rw [isAbsolute_iff.mpr ⟨bs ++ more, hmore.symm⟩] at habs
      cases habs

theorem steps_withBody (h : segs <+: segments p.body) :
    steps (p.withBody segs).bytes = segs.filterMap Component.ofSegment? := by
  have hbody : steps (unsegments segs) = segs.filterMap Component.ofSegment? :=
    steps_unsegments fun s hs => slash_notMem_of_mem_segments (h.subset hs)
  unfold withBody
  rcases opening_cases p with ⟨ho, -, -⟩ | ⟨ho, -, -, rest, hrest⟩ | ⟨ho, -, -⟩
  · rw [ho, ← hbody]
    exact steps_slash_cons _
  · rw [ho, ← hbody]
    cases segs with
    | nil => rfl
    | cons s tail =>
      have hs : s = [] := by
        rw [hrest] at h
        exact (List.cons_prefix_cons.mp h).1
      have hcut : segments (unsegments (s :: tail)) = [] :: tail := by
        rw [segments_unsegments (by simp) fun s hs => slash_notMem_of_mem_segments (h.subset hs), hs]
      exact steps_dot_append hcut
  · rw [ho, ← hbody]
    rfl

/-- The segments of the body of a text are texts. -/
theorem valid_of_mem_body (hp : Utf8.Valid p.bytes) {s : Bytes} (hs : s ∈ segments p.body) :
    Utf8.Valid s := by
  rcases opening_cases p with ⟨-, -, hbytes⟩ | ⟨-, -, hbytes, rest, hrest⟩ | ⟨-, -, hbytes⟩
  · refine valid_of_mem_segments hp ?_
    rw [hbytes, segments_slash_cons]
    exact List.mem_cons_of_mem _ hs
  · rw [hrest] at hs
    rcases List.mem_cons.mp hs with rfl | hs
    · exact Utf8.valid_nil
    · refine valid_of_mem_segments hp ?_
      rw [hbytes, segments_dot_append hrest]
      exact List.mem_cons_of_mem _ hs
  · exact valid_of_mem_segments hp (hbytes ▸ hs)

theorem valid_withBody (h : segs <+: segments p.body) (hp : Utf8.Valid p.bytes) :
    Utf8.Valid (p.withBody segs).bytes := by
  have hsegs : Utf8.Valid (unsegments segs) :=
    valid_unsegments fun s hs => valid_of_mem_body hp (h.subset hs)
  unfold withBody
  rcases opening_cases p with ⟨ho, -, -⟩ | ⟨ho, -, -, -⟩ | ⟨ho, -, -⟩
  · rw [ho]
    exact valid_slash_cons hsegs
  · rw [ho]
    exact Utf8.valid_append ⟨['.'], rfl⟩ hsegs
  · rw [ho]
    exact hsegs

end Body

/-! ## The parent -/

/-- **The parent of a path goes all its steps but the last**, from where the path starts. -/
theorem exists_parent? {p : Path} {cs : List Component} {c : Component}
    (hsteps : steps p.bytes = cs ++ [c]) :
    ∃ q, p.parent? = some q ∧ q.isAbsolute = p.isAbsolute ∧ steps q.bytes = cs ∧
      (Utf8.Valid p.bytes → Utf8.Valid q.bytes) := by
  obtain ⟨last, before, hr, hbefore, hcs⟩ := exists_reversedSteps ((steps_body p).trans hsteps)
  have hprefix : (reversedSteps before.reverse).reverse <+: segments p.body := by
    refine List.IsPrefix.trans ?_ hbefore
    rw [← List.reverse_suffix, List.reverse_reverse]
    exact reversedSteps_suffix before.reverse
  refine ⟨p.withBody (reversedSteps before.reverse).reverse, ?_, isAbsolute_withBody hprefix, ?_,
    valid_withBody hprefix⟩
  · unfold parent?
    rw [hr]
  · rw [steps_withBody hprefix, filterMap_reversedSteps, hcs]

/-- A file name is the last step, if that goes down. -/
theorem fileName?_eq_some_iff {p : Path} {n : Bytes} :
    p.fileName? = some n ↔ ∃ cs, steps p.bytes = cs ++ [.name n] := by
  have hlast : p.fileName? = some n ↔ (steps p.bytes).getLast? = some (.name n) := by
    unfold fileName?
    rw [components_eq]
    cases hs : (steps p.bytes).getLast? with
    | none =>
      rw [List.getLast?_eq_none_iff.mp hs]
      rcases opening_cases p with ⟨ho, -⟩ | ⟨ho, -⟩ | ⟨ho, -⟩ <;> rw [ho] <;> simp
    | some c =>
      rw [List.getLast?_append, hs, Option.some_or]
      cases c <;> simp
  rw [hlast, List.getLast?_eq_some_iff]

/-- A path with a file name ends in it, and it is plain. -/
theorem names_of_fileName? {p : Path} (h : p.isAbsolute = true) {cs : List Component} {n : Bytes}
    (hsteps : steps p.bytes = cs ++ [.name n]) :
    p.names = ((Route.mk true 0 []).walk cs).names.reverse ++ [n] := by
  unfold names
  rw [route_eq, h, hsteps, Route.walk_append]
  exact List.reverse_cons

/-- A file name is plain. -/
theorem plain_of_fileName? {p : Path} (h : p.isAbsolute = true) {n : Bytes}
    (hn : p.fileName? = some n) : Plain n := by
  obtain ⟨cs, hcs⟩ := fileName?_eq_some_iff.mp hn
  refine plain_of_mem_names (p := p) ?_
  rw [names_of_fileName? h hcs]
  exact List.mem_append_right _ List.mem_cons_self

/-- A path that only goes down has these names. -/
theorem names_of_steps {p : Path} (h : p.isAbsolute = true) {names : List Bytes}
    (hsteps : steps p.bytes = names.map .name) : p.names = names := by
  unfold Path.names
  rw [route_eq, h, hsteps, Route.walk_names, List.append_nil, List.reverse_reverse]

theorem fileName?_of_steps {p : Path} {names : List Bytes} {n : Bytes}
    (hsteps : steps p.bytes = (names ++ [n]).map .name) : p.fileName? = some n :=
  fileName?_eq_some_iff.mpr ⟨names.map .name, by rw [hsteps, List.map_append]; rfl⟩

theorem isAbsolute_withFileName {p : Path} (h : p.isAbsolute = true) (name : Bytes) :
    (p.withFileName name).isAbsolute = true := by
  unfold withFileName
  cases hn : p.fileName? with
  | none => exact isAbsolute_join h _
  | some n =>
    obtain ⟨cs, hcs⟩ := fileName?_eq_some_iff.mp hn
    obtain ⟨q, hq, habs, -⟩ := exists_parent? hcs
    rw [hq]
    exact isAbsolute_join (habs.trans h) _

theorem valid_withFileName {p : Path} {name : Bytes} (hp : Utf8.Valid p.bytes)
    (hname : Utf8.Valid name) : Utf8.Valid (p.withFileName name).bytes := by
  unfold withFileName
  cases hn : p.fileName? with
  | none => exact valid_join hp hname
  | some n =>
    obtain ⟨cs, hcs⟩ := fileName?_eq_some_iff.mp hn
    obtain ⟨q, hq, -, -, hvalid⟩ := exists_parent? hcs
    rw [hq]
    exact valid_join (hvalid hp) hname

/-- The steps of a plain name are the name. -/
theorem steps_plain {n : Bytes} (h : Plain n) : steps n = [.name n] := by
  rw [steps_of_notMem h.slash_notMem, h.ofSegment?]
  rfl

theorem isAbsolute_of_notMem {n : Bytes} (h : slash ∉ n) : (Path.mk n).isAbsolute = false := by
  cases hn : (Path.mk n).isAbsolute with
  | false => rfl
  | true =>
    obtain ⟨bs, hbs⟩ := isAbsolute_iff.mp hn
    have hn' : n = slash :: bs := hbs
    exact absurd (hn' ▸ List.mem_cons_self) h

theorem isAbsolute_plain {n : Bytes} (h : Plain n) : (Path.mk n).isAbsolute = false :=
  isAbsolute_of_notMem h.slash_notMem

/-- Another file name without slash takes the place of the last step. -/
theorem steps_withFileName {p : Path} {cs : List Component} {n : Bytes}
    (hsteps : steps p.bytes = cs ++ [.name n]) {name : Bytes} (hname : slash ∉ name) :
    steps (p.withFileName name).bytes = cs ++ steps name := by
  obtain ⟨q, hq, -, hqs, -⟩ := exists_parent? hsteps
  unfold withFileName
  rw [fileName?_eq_some_iff.mpr ⟨cs, hsteps⟩, hq, Option.isSome_some, if_pos rfl, Option.getD_some,
    steps_join q (isAbsolute_of_notMem hname), hqs]

/-- **Another plain file name leads to another entry of the same directory.** -/
theorem names_withFileName {p : Path} (h : p.isAbsolute = true) {n : Bytes}
    (hn : p.fileName? = some n) {name : Bytes} (hname : Plain name) :
    ∃ dir, p.names = dir ++ [n] ∧ (p.withFileName name).names = dir ++ [name] := by
  obtain ⟨cs, hcs⟩ := fileName?_eq_some_iff.mp hn
  refine ⟨_, names_of_fileName? h hcs, names_of_fileName? (isAbsolute_withFileName h name) ?_⟩
  rw [steps_withFileName hcs hname.slash_notMem, steps_plain hname]

/-! ## Suffixes -/

/-- A path in normal form goes down its names. -/
theorem steps_of_normal {p : Path} (h : p.isAbsolute = true) (hn : p.normal = p) :
    steps p.bytes = p.names.map .name := by
  have hc := components_normal_of_isAbsolute h
  rw [hn, components_of_isAbsolute h] at hc
  exact (List.cons.inj hc).2

theorem bytes_normal {p : Path} (h : p.isAbsolute = true) :
    p.normal.bytes = slash :: unsegments p.names := by
  unfold normal Route.toPath
  rw [route_of_isAbsolute h, List.reverse_reverse]
  rfl

theorem unsegments_concat_append (segs : List Bytes) (last suffix : Bytes) :
    unsegments (segs ++ [last]) ++ suffix = unsegments (segs ++ [last ++ suffix]) := by
  induction segs with
  | nil => rfl
  | cons s rest ih =>
    have hcons (t : Bytes) :
        unsegments (s :: rest ++ [t]) = s ++ slash :: unsegments (rest ++ [t]) := by
      cases rest <;> rfl
    rw [hcons, hcons, ← ih, List.append_assoc, List.cons_append]

/-- A suffix of the root is the only name below it, if it is one. -/
theorem fileName?_append_root {p : Path} (h : p.isAbsolute = true) (hn : p.normal = p)
    (hnames : p.names = []) {suffix : String} (hslash : '/' ∉ suffix.toList) :
    (p.append suffix).names = [] ∨
      (p.append suffix).fileName? = some (Utf8.encode suffix.toList) := by
  have habs : (p.append suffix).isAbsolute = true := isAbsolute_append h _
  have hplain := slash_notMem_encode hslash
  have hsteps : steps (p.append suffix).bytes =
      (Component.ofSegment? (Utf8.encode suffix.toList)).toList := by
    have hbytes := bytes_normal h
    rw [hn, hnames] at hbytes
    unfold append
    rw [hbytes, ← steps_of_notMem hplain]
    exact steps_slash_cons _
  cases hc : Component.ofSegment? (Utf8.encode suffix.toList) with
  | none =>
    rw [hc] at hsteps
    exact Or.inl (names_of_steps habs (hsteps.trans List.map_nil.symm))
  | some c =>
    rw [hc] at hsteps
    rcases ofSegment?_eq_some hplain hc with rfl | ⟨rfl, -⟩
    · left
      unfold names
      rw [route_eq, habs, hsteps]
      rfl
    · exact Or.inr (fileName?_eq_some_iff.mpr ⟨[], hsteps⟩)

/-- A suffix of a path belongs to its last name. -/
theorem steps_append {p : Path} (h : p.isAbsolute = true) (hn : p.normal = p) {init : List Bytes}
    {n : Bytes} (hnames : p.names = init ++ [n]) {suffix : String}
    (hplain : Plain (n ++ Utf8.encode suffix.toList)) :
    steps (p.append suffix).bytes = (init ++ [n ++ Utf8.encode suffix.toList]).map .name := by
  have hall : ∀ m ∈ init ++ [n ++ Utf8.encode suffix.toList], Plain m := by
    intro m hm
    rcases List.mem_append.mp hm with hm | hm
    · exact plain_of_mem_names (hnames ▸ List.mem_append_left [n] hm)
    · exact List.mem_singleton.mp hm ▸ hplain
  have hbytes := bytes_normal h
  rw [hn, hnames] at hbytes
  unfold append
  rw [hbytes, List.cons_append, unsegments_concat_append, steps_slash_cons,
    steps_unsegments fun m hm => (hall m hm).slash_notMem, filterMap_plain hall]

end Relink.Path
