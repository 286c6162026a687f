import Relink.Proofs.Path.Editing

/-!
# The directory of a file

A module's directory (`source_dir`) is found by cutting the file's spelling, a relative file is taken to
lie below the root only after that, and an absolute one keeps its spelling. None of this matters to
where the directory lies: it is the parent of the file's place.

Results:
* `directoryPart_of_steps`: what is cut off, for relative files too.
* `route_containingDir`: the directory goes the file's steps from the root, all but the last.
* `parent?_normal`: the parent of a path in normal form is in normal form.
* `parent?_normal_eq_iff`: which place is the parent of another.
* `parent?_normal_join`: the normal form of the directory is the parent of the file's normal form.
-/

namespace Relink.Path

/-! ## Below the root -/

/-- Read from the root, every path goes its steps from there. -/
theorem route_root_join (p : Path) :
    (root.join p).route = (Route.mk true 0 []).walk (steps p.bytes) := by
  cases hp : p.isAbsolute with
  | true => rw [join_of_isAbsolute root hp, route_eq, hp]
  | false => rw [route_join root hp]; rfl

/-- The directory part of a file goes all its steps but the last, from where the file starts. -/
theorem directoryPart_of_steps {file : Path} {cs : List Component} {c : Component}
    (h : steps file.bytes = cs ++ [c]) :
    file.directoryPart.isAbsolute = file.isAbsolute ∧ steps file.directoryPart.bytes = cs := by
  obtain ⟨q, hq, habs, hsteps, -⟩ := exists_parent? h
  unfold directoryPart
  rw [hq]
  dsimp only
  split
  · -- The parent of a lone name is the empty path, which a dot stands for.
    next hempty =>
    obtain ⟨bytes⟩ := q
    cases hempty
    exact ⟨habs, hsteps⟩
  · exact ⟨habs, hsteps⟩

/-- The directory of a file lies where its directory part does, read from the root. -/
theorem route_containingDir_eq (file : Path) :
    file.containingDir.route = (root.join file.directoryPart).route := by
  unfold containingDir
  dsimp only
  split
  · next h => rw [join_of_isAbsolute root h]
  · exact route_normal _

/-- **The directory of a file** goes the file's steps from the root, all but the last. -/
theorem route_containingDir {file : Path} {cs : List Component} {c : Component}
    (h : steps file.bytes = cs ++ [c]) :
    file.containingDir.route = (Route.mk true 0 []).walk cs := by
  rw [route_containingDir_eq, route_root_join, (directoryPart_of_steps h).2]

/-! ## The parent of a normal form -/

/-- **The parent of a normal form is in normal form**: it has the same names but for the last. -/
theorem parent?_normal {p : Path} (h : p.isAbsolute = true) {init : List Bytes} {n : Bytes}
    (hnames : p.names = init ++ [n]) : p.normal.parent? = some ⟨slash :: unsegments init⟩ := by
  have hroute : p.route = ⟨true, 0, n :: init.reverse⟩ := by
    rw [route_of_isAbsolute h, hnames, List.reverse_concat]
  have hlast : p.route.names = n :: init.reverse := by rw [hroute]
  rw [normal, parent?_toPath (proper_route p) hlast, hroute]
  simp [Route.step, Route.toPath]

/-- **A place is the parent of another** exactly where its names go on there by one name. -/
theorem parent?_normal_eq_iff {p q : Path} (hp : p.isAbsolute = true) (hq : q.isAbsolute = true) :
    p.normal.parent? = some q.normal ↔ ∃ n, p.names = q.names ++ [n] := by
  have hplain {r : Path} : ∀ n ∈ r.names, Plain n := fun n hn => plain_of_mem_names hn
  have hsteps {ns : List Bytes} (h : ∀ n ∈ ns, Plain n) : steps (unsegments ns) = ns.map .name := by
    rw [steps_unsegments fun n hn => (h n hn).slash_notMem, filterMap_plain h]
  rcases List.eq_nil_or_concat' p.names with hnil | ⟨init, n, hnames⟩
  · have hroot : p.normal = ⟨[slash]⟩ := by
      have hbytes := bytes_normal hp
      rw [hnil] at hbytes
      exact congrArg Path.mk hbytes
    have hnone : (Path.mk [slash]).parent? = none := by decide
    rw [hroot, hnone, hnil]
    simp
  · have hinit : ∀ m ∈ init, Plain m := fun m hm =>
      hplain m (hnames ▸ List.mem_append_left [n] hm)
    have hbytes : q.normal = ⟨slash :: unsegments q.names⟩ := congrArg Path.mk (bytes_normal hq)
    rw [parent?_normal hp hnames, hbytes, hnames]
    constructor
    · intro h
      rw [Option.some.injEq, Path.mk.injEq, List.cons.injEq] at h
      have hread := congrArg steps h.2
      rw [hsteps hinit, hsteps hplain, List.map_inj_right fun _ _ e => Component.name.inj e] at hread
      exact ⟨n, by rw [hread]⟩
    · rintro ⟨m, h⟩
      rw [(List.append_inj' h rfl).1]

/-- **The directory of a file is the parent of its place**, however the file is spelled. -/
theorem parent?_normal_join {file : Path} (h : file.fileName?.isSome = true) :
    (root.join file).normal.parent? = some file.containingDir.normal := by
  obtain ⟨n, hn⟩ := Option.isSome_iff_exists.mp h
  obtain ⟨cs, hcs⟩ := fileName?_eq_some_iff.mp hn
  have hnames : (root.join file).names = file.containingDir.names ++ [n] := by
    unfold names
    rw [route_root_join, hcs, Route.walk_append, route_containingDir hcs]
    exact List.reverse_cons
  have hbytes := bytes_normal (isAbsolute_containingDir file)
  rw [parent?_normal (isAbsolute_join rfl file) hnames, ← hbytes]

end Relink.Path
