import Relink.Proofs.Path.Editing

/-!
# Places below a directory

A place below a directory is told by the names that lead there. This file says how such names come out
of `join`, `with_suffix` and `with_file_name`, for whatever directory they are told from.

Results:
* `names_join_of_staysBelow`, `normal_join_eq_inside`: what a path gets to from below a directory,
  as long as it does not lead out of it.
* `normal_below`, `startsWith_normal_iff_below`: what lies below a normal path is spelled as that path
  with names put behind it.
* `LeadsDown`: a spelling that goes down its names and makes no detour; `LeadsDown.join`,
  `LeadsDown.append`, `LeadsDown.steps_withFileName` say what edits make of it.
* `relativeSpecifier_of_shared`, `relativeSpecifier_of_dropLast`: a specifier depends on the names
  that directory and file do not share.
-/

namespace Relink

/-- Steps taken that many levels below a directory never lead out of it; a step to the root does. -/
def staysBelow : Nat → List Component → Bool
  | _, [] => true
  | _, .root :: _ => false
  | depth, .current :: rest => staysBelow depth rest
  | 0, .parent :: _ => false
  | depth + 1, .parent :: rest => staysBelow depth rest
  | depth, .name _ :: rest => staysBelow (depth + 1) rest

/-- A way that stays below leaves alone what lies above. -/
theorem Route.walk_of_staysBelow {cs : List Component} {inner : List Bytes}
    (h : staysBelow inner.length cs = true) (rooted : Bool) (ups : Nat) (outer : List Bytes) :
    (Route.mk rooted ups (inner ++ outer)).walk cs =
      ⟨rooted, ups, ((Route.mk true 0 inner).walk cs).names ++ outer⟩ := by
  induction cs generalizing inner with
  | nil => rfl
  | cons c cs ih =>
    rw [walk_cons, walk_cons]
    cases c with
    | root => cases inner <;> cases h
    | current => exact ih (by cases inner <;> exact h)
    | name n => exact @ih (n :: inner) (by cases inner <;> exact h)
    | parent =>
      cases inner with
      | nil => cases h
      | cons n rest => exact ih h

namespace Path

/-- Names to be entered one after another. -/
structure Descent where
  names : List Bytes
  plain : ∀ n ∈ names, Plain n

/-- The path that enters the names of a descent. -/
def below (p : Path) (d : Descent) : Path :=
  d.names.foldl (fun p n => p.join ⟨n⟩) p

/-- The normal path to the end of a descent. -/
def inside (base : Path) (d : Descent) : Path :=
  (base.below d).normal

/-- Where a path gets to that is read at the end of a descent. -/
def Descent.andThen (d : Descent) (q : Path) : Descent where
  names := ((Route.mk true 0 d.names.reverse).walk (steps q.bytes)).names.reverse
  plain n hn := by
    have hproper : (Route.mk true 0 d.names.reverse).Proper :=
      ⟨fun m hm => d.plain m (List.mem_reverse.mp hm), fun _ => rfl⟩
    have hmoves : ∀ c ∈ steps q.bytes, c.Moves := fun c hc => moves_of_mem_steps hc
    exact (hproper.walk hmoves).plain n (List.mem_reverse.mp hn)

theorem names_join_plain (p : Path) {n : Bytes} (h : Plain n) :
    (p.join ⟨n⟩).names = p.names ++ [n] := by
  unfold names
  rw [route_join p (isAbsolute_plain h), steps_plain h]
  exact List.reverse_cons

theorem isAbsolute_below {p : Path} (h : p.isAbsolute = true) (d : Descent) :
    (p.below d).isAbsolute = true := by
  unfold below
  induction d.names generalizing p with
  | nil => exact h
  | cons n rest ih => exact ih (isAbsolute_join h _)

theorem names_below (p : Path) (d : Descent) : (p.below d).names = p.names ++ d.names := by
  obtain ⟨ns, hns⟩ := d
  unfold below
  induction ns generalizing p with
  | nil => exact (List.append_nil _).symm
  | cons n rest ih =>
    have hstep := ih (p.join ⟨n⟩) (fun m hm => hns m (List.mem_cons_of_mem n hm))
    rw [names_join_plain p (hns n List.mem_cons_self), List.append_assoc] at hstep
    exact hstep

/-- **Names entered from a normal form lead to a normal form.** -/
theorem normal_below (p : Path) (d : Descent) : p.normal.below d = p.inside d := by
  obtain ⟨ns, hns⟩ := d
  unfold inside below
  induction ns generalizing p with
  | nil => rfl
  | cons n rest ih =>
    rw [List.foldl_cons, List.foldl_cons, normal_join_plain p (hns n List.mem_cons_self)]
    exact ih (p.join ⟨n⟩) fun m hm => hns m (List.mem_cons_of_mem n hm)

/-- **What lies below a path**, but not at it, is got to by entering names. -/
theorem startsWith_normal_iff_below {p q : Path} (hp : p.isAbsolute = true) :
    q.normal ≠ p.normal ∧ q.normal.startsWith p.normal = true ↔
      ∃ d : Descent, d.names ≠ [] ∧ p.normal.below d = q.normal := by
  constructor
  · rintro ⟨hne, hstarts⟩
    have hp' : p.normal.isAbsolute = true := (isAbsolute_normal p).trans hp
    have hq : q.isAbsolute = true :=
      (isAbsolute_normal q).symm.trans (isAbsolute_of_startsWith hp' hstarts)
    obtain ⟨rest, hrest⟩ := (startsWith_normal_iff hq hp).mp hstarts
    have hplain : ∀ n ∈ rest, Plain n := fun n hn =>
      plain_of_mem_names (p := q) (hrest ▸ List.mem_append_right _ hn)
    refine ⟨⟨rest, hplain⟩, ?_, ?_⟩
    · rintro rfl
      exact hne ((normal_eq_iff_names hq hp).mpr (hrest.symm.trans (List.append_nil _)))
    · rw [normal_below]
      exact (normal_eq_iff_names (isAbsolute_below hp _) hq).mpr ((names_below p _).trans hrest)
  · rintro ⟨d, hd, hbelow⟩
    have hbase := isAbsolute_below hp d
    rw [← hbelow, normal_below]
    refine ⟨fun hsame => hd ?_, (startsWith_normal_iff hbase hp).mpr ?_⟩
    · have hnames := (normal_eq_iff_names hbase hp).mp hsame
      rw [names_below] at hnames
      exact List.append_right_eq_self.mp hnames
    · rw [names_below]
      exact List.prefix_append _ _

/-- A path that stays below is relative, and its opening is no step. -/
theorem staysBelow_steps {depth : Nat} {q : Path} (h : staysBelow depth q.components = true) :
    q.isAbsolute = false ∧ staysBelow depth (steps q.bytes) = true := by
  rw [components_eq] at h
  cases hq : q.isAbsolute with
  | true =>
    rw [opening_of_isAbsolute hq] at h
    cases depth <;> cases h
  | false =>
    refine ⟨rfl, ?_⟩
    unfold opening at h
    rw [if_neg (by simp [hq])] at h
    split at h
    · cases depth <;> exact h
    · exact h

/-- **Read below a directory, a path that stays there gets to names that do not depend on it.** -/
theorem names_join_of_staysBelow {p q : Path} {outer : List Bytes} {d : Descent}
    (hp : p.names = outer ++ d.names) (h : staysBelow d.names.length q.components = true) :
    (p.join q).names = outer ++ (d.andThen q).names := by
  obtain ⟨hq, hsteps⟩ := staysBelow_steps h
  have hroute : p.route = ⟨p.route.rooted, p.route.ups, d.names.reverse ++ outer.reverse⟩ := by
    rw [← List.reverse_append, ← hp, names, List.reverse_reverse]
  rw [← List.length_reverse] at hsteps
  unfold names Descent.andThen
  rw [route_join p hq, hroute, Route.walk_of_staysBelow hsteps, List.reverse_append,
    List.reverse_reverse]

/-- What stays below a directory is read inside it. -/
theorem normal_join_eq_inside {base p q : Path} {d : Descent} (hb : base.isAbsolute = true)
    (hp : p.isAbsolute = true) (hnames : p.names = base.names ++ d.names)
    (h : staysBelow d.names.length q.components = true) :
    (p.join q).normal = base.inside (d.andThen q) := by
  refine (normal_eq_iff_names (isAbsolute_join hp q) (isAbsolute_below hb _)).mpr ?_
  rw [names_join_of_staysBelow hnames h, names_below]

/-! ## Straight down -/

/-- The path is spelled as its names, one step for each. -/
structure LeadsDown (names : List Bytes) (p : Path) : Prop where
  isAbsolute : p.isAbsolute = true
  steps_eq : steps p.bytes = names.map .name

theorem leadsDown_of_normal {p : Path} (h : p.isAbsolute = true) (hn : p.normal = p) :
    LeadsDown p.names p :=
  ⟨h, steps_of_normal h hn⟩

theorem leadsDown_inside {base : Path} (hb : base.isAbsolute = true) (d : Descent) :
    LeadsDown (base.names ++ d.names) (base.inside d) := by
  have habs : (base.inside d).isAbsolute = true :=
    (isAbsolute_normal _).trans (isAbsolute_below hb d)
  have hnames : (base.inside d).names = base.names ++ d.names :=
    (names_normal _).trans (names_below base d)
  exact hnames ▸ leadsDown_of_normal habs (normal_normal _)

namespace LeadsDown

variable {names : List Bytes} {p : Path}

theorem names_eq (h : LeadsDown names p) : p.names = names :=
  names_of_steps h.isAbsolute h.steps_eq

theorem join (h : LeadsDown names p) {n : Bytes} (hn : Plain n) :
    LeadsDown (names ++ [n]) (p.join ⟨n⟩) := by
  refine ⟨isAbsolute_join h.isAbsolute _, ?_⟩
  rw [steps_join p (isAbsolute_plain hn), h.steps_eq, steps_plain hn, List.map_append]
  rfl

/-- What is written behind a normal path belongs to its last name. -/
theorem append {init : List Bytes} {n : Bytes} (h : LeadsDown (init ++ [n]) p)
    (hn : p.normal = p) {suffix : String} (hplain : Plain (n ++ Utf8.encode suffix.toList)) :
    LeadsDown (init ++ [n ++ Utf8.encode suffix.toList]) (p.append suffix) :=
  ⟨isAbsolute_append h.isAbsolute _, Path.steps_append h.isAbsolute hn h.names_eq hplain⟩

theorem fileName?_eq {init : List Bytes} {n : Bytes} (h : LeadsDown (init ++ [n]) p) :
    p.fileName? = some n :=
  fileName?_of_steps h.steps_eq

/-- Another file name without slash takes the place of the last step. -/
theorem steps_withFileName {init : List Bytes} {n : Bytes} (h : LeadsDown (init ++ [n]) p)
    {name : Bytes} (hname : slash ∉ name) :
    steps (p.withFileName name).bytes = init.map .name ++ steps name := by
  have hsteps : steps p.bytes = init.map .name ++ [.name n] := by
    rw [h.steps_eq, List.map_append]
    rfl
  exact Path.steps_withFileName hsteps hname

theorem names_withFileName {init : List Bytes} {n : Bytes} (h : LeadsDown (init ++ [n]) p)
    {name : Bytes} (hname : Plain name) : (p.withFileName name).names = init ++ [name] := by
  refine names_of_steps (isAbsolute_withFileName h.isAbsolute name) ?_
  rw [h.steps_withFileName hname.slash_notMem, steps_plain hname, List.map_append]
  rfl

/-- The file name `..` leads to what the directory of the path lies in. -/
theorem names_withFileName_dotDot {init : List Bytes} {n : Bytes}
    (h : LeadsDown (init ++ [n]) p) : (p.withFileName dotDot).names = init.dropLast := by
  have hsteps : steps dotDot = [.parent] := by decide
  unfold names
  rw [route_eq, isAbsolute_withFileName h.isAbsolute, h.steps_withFileName (by decide), hsteps,
    Route.walk_append, Route.walk_names, List.append_nil]
  rcases List.eq_nil_or_concat' init with rfl | ⟨before, last, rfl⟩
  · rfl
  · rw [List.dropLast_concat, List.reverse_append]
    exact List.reverse_reverse before

end LeadsDown

/-! ## Specifiers and what is shared -/

section Way

variable {dir dir' file file' : Path} (hd : dir.isAbsolute = true) (hd' : dir'.isAbsolute = true)
  (hf : file.isAbsolute = true) (hf' : file'.isAbsolute = true)

include hd hd' hf hf'

/-- A specifier depends on how far the way leads up and on the names down. -/
theorem relativeSpecifier_congr_way (hup : (up dir file).length = (up dir' file').length)
    (hdown : down dir file = down dir' file') :
    relativeSpecifier dir file = relativeSpecifier dir' file' := by
  have hway : dir.wayTo file = dir'.wayTo file' := by
    unfold wayTo
    rw [waySegments_eq hd hf, waySegments_eq hd' hf', hup, hdown]
  unfold relativeSpecifier
  rw [if_pos hf, if_pos hf', hway]

/-- A specifier depends on what directory and file do not share. -/
theorem relativeSpecifier_of_shared {outer outer' inner rest : List Bytes}
    (hdir : dir.names = outer ++ inner) (hdir' : dir'.names = outer' ++ inner)
    (hfile : file.names = outer ++ rest) (hfile' : file'.names = outer' ++ rest) :
    relativeSpecifier dir file = relativeSpecifier dir' file' := by
  refine relativeSpecifier_congr_way hd hd' hf hf' ?_ ?_
  · unfold up
    rw [hdir, hdir', hfile, hfile', dropShared_shared, dropShared_shared]
  · unfold down
    rw [hdir, hdir', hfile, hfile', dropShared_shared, dropShared_shared]

/-- What lies right above two directories is the same number of levels up. -/
theorem relativeSpecifier_of_dropLast {outer outer' inner : List Bytes} (hne : outer ≠ [])
    (hne' : outer' ≠ []) (hdir : dir.names = outer ++ inner) (hdir' : dir'.names = outer' ++ inner)
    (hfile : file.names = outer.dropLast) (hfile' : file'.names = outer'.dropLast) :
    relativeSpecifier dir file = relativeSpecifier dir' file' := by
  have hshared {xs : List Bytes} (hxs : xs ≠ []) :
      ∃ x, dropShared (xs ++ inner) xs.dropLast = (x :: inner, []) := by
    obtain ⟨init, x, rfl⟩ := (List.eq_nil_or_concat' xs).resolve_left hxs
    refine ⟨x, ?_⟩
    rw [List.dropLast_concat, List.append_assoc, ← List.append_nil init, List.append_assoc,
      dropShared_shared]
    rfl
  obtain ⟨x, hx⟩ := hshared hne
  obtain ⟨x', hx'⟩ := hshared hne'
  refine relativeSpecifier_congr_way hd hd' hf hf' ?_ ?_
  · unfold up
    rw [hdir, hdir', hfile, hfile', hx, hx']
    rfl
  · unfold down
    rw [hdir, hdir', hfile, hfile', hx, hx']

end Way

end Path

end Relink
