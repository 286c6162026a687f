import Relink.Proofs.Extension.Output
import Relink.Proofs.Files.Tree
import Relink.Proofs.Resolve.Candidates

/-!
# Searching files that were moved

The same files are put below one directory and below another. Every question that the search
(`FsResolver`) asks is about a place below the directory, told by the names that lead there from it, so
both searches get the same answers. The one question that leads out of the directory is about the
directory's own name with an extension, and there both find nothing.

`Alike` is what is kept: the two have found nothing, or files at the same names below the two
directories.

Results:
* `mainPath?_inside`: the main file of a place below the directory is one such place again.
* `alike_locate`: the two searches are alike.
* `alike_resolver`: so are their answers to a specifier that does not lead out of the directory.
-/

namespace Relink

/-- No manifest names a main file that lies outside the directory. -/
def FileTree.MainsStayBelow (files : List (Path.Descent × String)) : Prop :=
  ∀ (names : List Bytes) (contents main : String),
    contentsAt? files (names ++ [Utf8.encode Manifest.fileName.toList]) = some contents →
    Manifest.main? contents = some main →
    staysBelow names.length (Path.ofText main).components = true

namespace Search

/-- Two searches found nothing, or paths straight down the same names from two directories. -/
inductive Alike (base base' : Path) : Option Path → Option Path → Prop
  | none : Alike base base' none none
  | some {names : List Bytes} {p p' : Path} (hne : names ≠ [])
      (left : Path.LeadsDown (base.names ++ names) p)
      (right : Path.LeadsDown (base'.names ++ names) p') : Alike base base' (some p) (some p')

section Alike

variable {base base' : Path}

theorem Alike.or {a a' b b' : Option Path} (ha : Alike base base' a a')
    (hb : Alike base base' b b') : Alike base base' (a.or b) (a'.or b') := by
  cases ha with
  | none => exact hb
  | some hne left right => exact .some hne left right

theorem Alike.findSome? {α : Type} {f f' : α → Option Path} {xs : List α}
    (h : ∀ x ∈ xs, Alike base base' (f x) (f' x)) :
    Alike base base' (xs.findSome? f) (xs.findSome? f') := by
  induction xs with
  | nil => exact .none
  | cons x rest ih =>
    have hrest := ih fun y hy => h y (List.mem_cons_of_mem x hy)
    have hx := h x List.mem_cons_self
    rw [List.findSome?_cons, List.findSome?_cons]
    generalize f x = a at hx ⊢
    generalize f' x = a' at hx ⊢
    cases hx with
    | none => exact hrest
    | some hne left right => exact .some hne left right

end Alike

/-- The search among files that were put below a directory. -/
abbrev below (base : Path) (files : List (Path.Descent × String)) (keep : Bool) : Search :=
  ⟨(FileTree.below base files).store, keep⟩

/-! ## One directory -/

section Inside

variable {base : Path} (hb : base.isAbsolute = true) (files : List (Path.Descent × String))

include hb

theorem isFile_below {names : List Bytes} {p : Path}
    (h : Path.LeadsDown (base.names ++ names) p) :
    (FileTree.below base files).isFile p = (FileTree.contentsAt? files names).isSome := by
  unfold FileTree.isFile
  rw [FileTree.contents?_below hb h.isAbsolute files h.names_eq]

/-- The directory's own name with something behind it is the name of no file. -/
theorem isFile_append_base {d : Path.Descent} (hd : d.names = []) (hne : base.names ≠ [])
    {t : Extension.Table} (ht : t.Slashless) {ext : String} (hext : ext ∈ t.sources) :
    (FileTree.below base files).isFile ((base.inside d).append ext) = false := by
  obtain ⟨init, n, hnames⟩ := (List.eq_nil_or_concat' base.names).resolve_left hne
  have hn : Path.Plain n :=
    Path.plain_of_mem_names (hnames ▸ List.mem_append_right init List.mem_cons_self)
  have hdown := Path.leadsDown_inside hb d
  rw [hd, List.append_nil, hnames] at hdown
  have happend := hdown.append (Path.normal_normal _)
    (Extension.Table.plain_append_source ht hn hext)
  have hout : ¬ base.names <+: ((base.inside d).append ext).names := by
    rw [happend.names_eq, hnames]
    intro hbelow
    have hsame := List.append_cancel_left (hbelow.eq_of_length (by simp))
    obtain ⟨rest, hrest⟩ := Extension.Table.exists_of_mem_sources hext
    have hlength := congrArg List.length (List.singleton_inj.mp hsame)
    rw [hrest, List.length_append] at hlength
    have hpos : 0 < (Utf8.encode ('.' :: rest)).length := Nat.succ_pos _
    omega
  unfold FileTree.isFile
  rw [FileTree.contents?_below_of_not_prefix hb happend.isAbsolute files hout]
  rfl

/-- **The main file of a place below the directory is a place below the directory**, and which one
depends on the manifest alone. -/
theorem mainPath?_inside (hmains : FileTree.MainsStayBelow files) (keep : Bool)
    (d : Path.Descent) :
    (below base files keep).mainPath? (base.inside d) =
      ((FileTree.contentsAt? files (d.names ++ [Utf8.encode Manifest.fileName.toList])).bind
        Manifest.main?).map fun main => base.inside (d.andThen (Path.ofText main)) := by
  have hdir := Path.leadsDown_inside hb d
  have hmanifest := hdir.join plain_manifest
  rw [List.append_assoc] at hmanifest
  have hread : (FileTree.below base files).contents? (manifestPath (base.inside d)) = _ :=
    FileTree.contents?_below hb hmanifest.isAbsolute files hmanifest.names_eq
  have hfile : (FileTree.below base files).isFile (manifestPath (base.inside d)) = _ :=
    isFile_below hb files hmanifest
  simp only [mainPath?, FileTree.store, hread, hfile]
  cases hc : FileTree.contentsAt? files (d.names ++ [Utf8.encode Manifest.fileName.toList]) with
  | none =>
    rw [Option.isSome_none, if_neg Bool.false_ne_true, Option.bind_none, Option.map_none]
  | some contents =>
    rw [Option.isSome_some, if_pos rfl, Option.bind_some]
    refine Option.map_congr fun main hmain => ?_
    exact Path.normal_join_eq_inside hb hdir.isAbsolute hdir.names_eq
      (hmains _ _ _ hc (Option.mem_def.mp hmain))

end Inside

/-! ## Two directories -/

section Relocation

variable {base base' : Path} (hb : base.isAbsolute = true) (hb' : base'.isAbsolute = true)
  {files : List (Path.Descent × String)} (hfiles : ∀ file ∈ files, file.1.names ≠ [])

include hb hb' hfiles

/-- A place below is a file in both trees or in neither, and the directory itself is none. -/
theorem alike_guard {names : List Bytes} {p p' : Path}
    (left : Path.LeadsDown (base.names ++ names) p)
    (right : Path.LeadsDown (base'.names ++ names) p') :
    Alike base base' (Option.guard (FileTree.below base files).isFile p)
      (Option.guard (FileTree.below base' files).isFile p') := by
  unfold Option.guard
  rw [isFile_below hb files left, isFile_below hb' files right]
  cases hc : FileTree.contentsAt? files names with
  | none => exact .none
  | some contents =>
    obtain ⟨file, hfile, hnames, -⟩ := FileTree.mem_of_contentsAt? hc
    exact .some (fun hnil => hfiles file hfile (hnames.trans hnil)) left right

variable {t : Extension.Table} (ht : t.Slashless) (keep : Bool) (d : Path.Descent)

include ht

theorem alike_asIndex :
    Alike base base' ((below base files keep).asIndex (base.inside d) t.sources)
      ((below base' files keep).asIndex (base'.inside d) t.sources) := by
  refine Alike.findSome? fun ext hext => ?_
  have hplain := Extension.Table.plain_index ht hext
  have left := (Path.leadsDown_inside hb d).join hplain
  have right := (Path.leadsDown_inside hb' d).join hplain
  rw [List.append_assoc] at left right
  exact alike_guard hb hb' hfiles left right

variable (hne : base.names ≠ []) (hne' : base'.names ≠ [])

include hne hne'

theorem alike_asFile :
    Alike base base' ((below base files keep).asFile (base.inside d) t.sources)
      ((below base' files keep).asFile (base'.inside d) t.sources) := by
  have hsplit (s : Search) (path : Path) : s.asFile path t.sources =
      (Option.guard s.store.isFile path).or
        (t.sources.findSome? fun ext => Option.guard s.store.isFile (path.append ext)) := by
    unfold asFile Option.guard
    cases s.store.isFile path <;> rfl
  have left := Path.leadsDown_inside hb d
  have right := Path.leadsDown_inside hb' d
  rw [hsplit, hsplit]
  refine (alike_guard hb hb' hfiles left right).or (Alike.findSome? fun ext hext => ?_)
  rcases List.eq_nil_or_concat' d.names with hnil | ⟨init, n, hnames⟩
  · -- The extension goes to the name of the directory itself and leads out of it.
    have hfile := isFile_append_base hb files hnil hne ht hext
    have hfile' := isFile_append_base hb' files hnil hne' ht hext
    simp only [FileTree.store, Option.guard, hfile, hfile']
    exact .none
  · have hplain := Extension.Table.plain_append_source ht
      (d.plain n (hnames ▸ List.mem_append_right init List.mem_cons_self)) hext
    rw [hnames, ← List.append_assoc] at left right
    have left := left.append (Path.normal_normal _) hplain
    have right := right.append (Path.normal_normal _) hplain
    rw [List.append_assoc] at left right
    exact alike_guard hb hb' hfiles left right

variable (hmains : FileTree.MainsStayBelow files)

include hmains

theorem alike_asDirectory :
    Alike base base' ((below base files keep).asDirectory (base.inside d) t.sources)
      ((below base' files keep).asDirectory (base'.inside d) t.sources) := by
  unfold asDirectory
  rw [mainPath?_inside hb files hmains, mainPath?_inside hb' files hmains]
  refine Alike.or ?_ (alike_asIndex hb hb' hfiles ht keep d)
  cases (FileTree.contentsAt? files (d.names ++ [Utf8.encode Manifest.fileName.toList])).bind
    Manifest.main? with
  | none => exact .none
  | some main =>
    exact (alike_asFile hb hb' hfiles ht keep _ hne hne').or
      (alike_asIndex hb hb' hfiles ht keep _)

/-- **Two searches for one place below two directories are alike.** -/
theorem alike_locate (directoryOnly : Bool) :
    Alike base base' ((below base files keep).locate (base.inside d) directoryOnly t.sources)
      ((below base' files keep).locate (base'.inside d) directoryOnly t.sources) := by
  have left := Path.leadsDown_inside hb d
  have right := Path.leadsDown_inside hb' d
  have hdir : (FileTree.below base files).store.isDir (base.inside d) =
      (FileTree.below base' files).store.isDir (base'.inside d) := by
    unfold FileTree.store
    rw [Bool.eq_iff_iff, FileTree.isDir_below hb left.isAbsolute files left.names_eq,
      FileTree.isDir_below hb' right.isAbsolute files right.names_eq]
  unfold locate
  refine Alike.or ?_ ?_
  · cases directoryOnly with
    | true => exact .none
    | false => exact alike_asFile hb hb' hfiles ht keep d hne hne'
  · rw [hdir]
    cases (FileTree.below base' files).store.isDir (base'.inside d) with
    | true => exact alike_asDirectory hb hb' hfiles ht keep d hne hne' hmains
    | false => exact .none

/-- **Answers to a specifier that stays below are alike.** -/
theorem alike_resolver {specifier : String}
    (hstays : staysBelow d.names.length (Path.ofText specifier).components = true) :
    Alike base base'
      ((below base files keep).resolver (base.below d) specifier t.sources).toOption
      ((below base' files keep).resolver (base'.below d) specifier t.sources).toOption := by
  have htarget {b : Path} (hb : b.isAbsolute = true) :
      target (b.below d) specifier = b.inside (d.andThen (Path.ofText specifier)) :=
    Path.normal_join_eq_inside hb (Path.isAbsolute_below hb d) (Path.names_below b d) hstays
  have halike := alike_locate hb hb' hfiles ht keep (d.andThen (Path.ofText specifier)) hne hne'
    hmains (meansDirectory specifier)
  unfold resolver
  rw [htarget hb, htarget hb']
  split
  · exact .none
  · generalize (below base files keep).locate _ _ _ = found at halike ⊢
    generalize (below base' files keep).locate _ _ _ = found' at halike ⊢
    cases halike with
    | none => exact .none
    | some hnames left right =>
      simp only [answerFor_store]
      exact .some hnames left right

end Relocation

end Search

end Relink
