import Relink.Proofs.Resolve.Relocation
import Relink.Proofs.Session.Lookup

/-!
# Relinking files that were moved

Files keep what `rewrite_specifier` gives for their specifiers when all of them are moved from one
directory to another. The search finds files at the same names below the two directories. Their outputs
lie at the same names as well, or, where a new name is `..`, the same number of levels up, and a
specifier shows neither the directory nor how deep it lies.

Results:
* `names_outputPath`: where the output of a file lies, its name being `..` or not.
* `relativeSpecifier_outputPath_congr`: outputs of such files are written alike.
* `Alike.replacement_eq`: alike answers make one replacement.
* `relink_relocated`: a specifier that does not lead out of the directory becomes the same in both.
-/

namespace Relink

namespace Extension.Table

variable {t : Table}

/-- The name of the output of a file with this name. -/
def newName (t : Table) (n : Bytes) : Bytes :=
  (((Utf8.decode? n).bind t.outputName?).map Utf8.encode).getD n

/-- The output lies beside its file, unless its name is `..`. -/
theorem names_outputPath (ht : t.Slashless) {init : List Bytes} {n : Bytes} {p : Path}
    (h : Path.LeadsDown (init ++ [n]) p) :
    (t.outputPath p).names =
      if t.newName n = Path.dotDot then init.dropLast else init ++ [t.newName n] := by
  have hfile := h.fileName?_eq
  have hplain := Path.plain_of_fileName? h.isAbsolute hfile
  unfold newName
  cases hout : (Utf8.decode? n).bind t.outputName? with
  | none =>
    rw [t.outputPath_of_none (by rw [hfile]; exact hout), Option.map_none, Option.getD_none,
      if_neg hplain.ne_dotDot]
    exact h.names_eq
  | some out =>
    obtain ⟨name, hdecode, hrule⟩ := Option.bind_eq_some_iff.mp hout
    obtain rfl := Utf8.decode?_eq_some_iff.mp hdecode
    rw [t.outputPath_of_some h.isAbsolute hfile hrule, Option.map_some, Option.getD_some]
    by_cases hdots : Utf8.encode out = Path.dotDot
    · rw [if_pos hdots, hdots]
      exact h.names_withFileName_dotDot
    · rw [if_neg hdots]
      exact h.names_withFileName (plain_outputName? ht hrule hplain fun e => hdots (by rw [e]; rfl))

end Extension.Table

variable {base base' : Path}

/-- **Outputs at the same names below two directories are written alike**, also where a new name
leads up and out. -/
theorem Extension.Table.relativeSpecifier_outputPath_congr {t : Extension.Table} (ht : t.Slashless)
    (hb : base.isAbsolute = true) (hb' : base'.isAbsolute = true) (hne : base.names ≠ [])
    (hne' : base'.names ≠ []) (d : Path.Descent) {names : List Bytes} (hnames : names ≠ [])
    {p p' : Path} (left : Path.LeadsDown (base.names ++ names) p)
    (right : Path.LeadsDown (base'.names ++ names) p') :
    relativeSpecifier (base.below d) (t.outputPath p) =
      relativeSpecifier (base'.below d) (t.outputPath p') := by
  have hd := Path.isAbsolute_below hb d
  have hd' := Path.isAbsolute_below hb' d
  have hp := t.isAbsolute_outputPath left.isAbsolute
  have hp' := t.isAbsolute_outputPath right.isAbsolute
  have hdir := Path.names_below base d
  have hdir' := Path.names_below base' d
  obtain ⟨init, n, rfl⟩ := (List.eq_nil_or_concat' names).resolve_left hnames
  rw [← List.append_assoc] at left right
  have hout := names_outputPath ht left
  have hout' := names_outputPath ht right
  by_cases hdots : t.newName n = Path.dotDot
  · rw [if_pos hdots] at hout hout'
    rcases List.eq_nil_or_concat' init with rfl | ⟨before, last, rfl⟩
    · -- The file lies right in the directory, so its output lies above it.
      rw [List.append_nil] at hout hout'
      exact Path.relativeSpecifier_of_dropLast hd hd' hp hp' hne hne' hdir hdir' hout hout'
    · rw [← List.append_assoc, List.dropLast_concat] at hout hout'
      exact Path.relativeSpecifier_of_shared hd hd' hp hp' hdir hdir' hout hout'
  · rw [if_neg hdots, List.append_assoc] at hout hout'
    exact Path.relativeSpecifier_of_shared hd hd' hp hp' hdir hdir' hout hout'

/-- Alike answers make one replacement. -/
theorem Search.Alike.replacement_eq {t : Extension.Table} (ht : t.Slashless)
    (hb : base.isAbsolute = true) (hb' : base'.isAbsolute = true) (hne : base.names ≠ [])
    (hne' : base'.names ≠ []) (d : Path.Descent) {specifier : String} {resolve resolve' : Resolver}
    (h : Alike base base' (resolve (base.below d) specifier t.sources).toOption
      (resolve' (base'.below d) specifier t.sources).toOption) :
    resolve.replacement t (base.below d) specifier =
      resolve'.replacement t (base'.below d) specifier := by
  cases hr : resolve (base.below d) specifier t.sources with
  | error fault =>
    cases hr' : resolve' (base'.below d) specifier t.sources with
    | error fault' => rw [Resolver.replacement_of_error hr, Resolver.replacement_of_error hr']
    | ok p' => rw [hr, hr'] at h; cases h
  | ok p =>
    cases hr' : resolve' (base'.below d) specifier t.sources with
    | error fault' => rw [hr, hr'] at h; cases h
    | ok p' =>
      rw [hr, hr'] at h
      cases h with
      | some hnames left right =>
        rw [Resolver.replacement_of_isAbsolute hr left.isAbsolute,
          Resolver.replacement_of_isAbsolute hr' right.isAbsolute,
          t.relativeSpecifier_outputPath_congr ht hb hb' hne hne' d hnames left right]

/-- A directory other than the root has a name. -/
theorem Path.names_ne_nil {p : Path} (h : p.isAbsolute = true) (hroot : p.normal ≠ root) :
    p.names ≠ [] := by
  intro hnil
  have hsame : p.normal = root.normal := (normal_eq_iff_names h rfl).mpr hnil
  exact hroot hsame

namespace Session

/-- **Files keep their relinked specifiers when they are moved.** Take a list of files, and two
directories other than the root to put all of them below, one after another. For a table without
slashes, a specifier in any directory below them that does not lead out becomes the same in the two
trees, provided that no manifest names a main file outside. -/
theorem relink_relocated (options : Options) (ht : options.table.Slashless)
    (hb : base.isAbsolute = true) (hb' : base'.isAbsolute = true) (hroot : base.normal ≠ Path.root)
    (hroot' : base'.normal ≠ Path.root) {files : List (Path.Descent × String)}
    (hfiles : ∀ file ∈ files, file.1.names ≠ []) (hmains : FileTree.MainsStayBelow files)
    (keep : Bool) (d : Path.Descent) {specifier : String}
    (hstays : staysBelow d.names.length (Path.ofText specifier).components = true) :
    ((new options).relink (Search.below base files keep).resolver (base.below d) specifier).1 =
      ((new options).relink (Search.below base' files keep).resolver (base'.below d) specifier).1 := by
  have hne := Path.names_ne_nil hb hroot
  have hne' := Path.names_ne_nil hb' hroot'
  rw [relink_eq, relink_eq, replacement_new, replacement_new]
  exact (Search.alike_resolver hb hb' hfiles ht keep d hne hne' hmains hstays).replacement_eq ht hb
    hb' hne hne' d

/-- The main file of a sibling directory, below one directory and then two levels deep. -/
theorem relink_relocated_of_manifest :
    let base := Path.ofText "/a"
    let base' := Path.ofText "/x/y"
    let src : Path.Descent := ⟨Path.segments (Path.ofText "src").bytes, by decide⟩
    let util : Path.Descent := ⟨Path.segments (Path.ofText "src/util.ts").bytes, by decide⟩
    let manifest : Path.Descent :=
      ⟨Path.segments (Path.ofText "lib/package.json").bytes, by decide⟩
    let files := [(manifest, "\x7b\"main\": \"../src/util\"\x7d"), (util, "")]
    let relinked (p : Path) :=
      ((new {}).relink (Search.below p files true).resolver (p.below src) "../lib").1
    ({} : Options).table.Slashless ∧ base.isAbsolute = true ∧ base'.isAbsolute = true ∧
      base.normal ≠ Path.root ∧ base'.normal ≠ Path.root ∧
      (∀ file ∈ files, file.1.names ≠ []) ∧ FileTree.MainsStayBelow files ∧
      staysBelow src.names.length (Path.ofText "../lib").components = true ∧
      relinked base = .resolved "./util.js" ∧ relinked base' = .resolved "./util.js" := by
  intro base base' src util manifest files relinked
  have ht : ({} : Options).table.Slashless := by unfold Extension.Table.Slashless; decide
  have hroot : base.normal ≠ Path.root := by decide +kernel
  have hroot' : base'.normal ≠ Path.root := by decide +kernel
  have hfiles : ∀ file ∈ files, file.1.names ≠ [] := by decide
  have hmains : FileTree.MainsStayBelow files := by
    intro names contents main hcontents hmain
    obtain ⟨file, hfile, hnames, rfl⟩ := FileTree.mem_of_contentsAt? hcontents
    rcases List.mem_cons.mp hfile with rfl | hfile
    · have hlib : [Utf8.encode "lib".toList] = names := (List.append_inj' hnames rfl).1
      have hsame : Manifest.main? "\x7b\"main\": \"../src/util\"\x7d" = some "../src/util" := by
        decide +kernel
      cases hsame.symm.trans hmain
      rw [← hlib]
      decide
    · cases List.mem_singleton.mp hfile
      have hutil : [Utf8.encode "src".toList] ++ [Utf8.encode "util.ts".toList] =
        names ++ [Utf8.encode "package.json".toList] := hnames
      exact absurd (List.append_inj' hutil rfl).2 (by decide)
  have hstays : staysBelow src.names.length (Path.ofText "../lib").components = true := by decide
  have hmoved : relinked base = relinked base' :=
    relink_relocated {} ht rfl rfl hroot hroot' hfiles hmains true src hstays
  have hbase : relinked base = .resolved "./util.js" := by decide +kernel
  exact ⟨ht, rfl, rfl, hroot, hroot', hfiles, hmains, hstays, hbase, hmoved.symm.trans hbase⟩

/-- Behind the root's slash an extension is a name by itself, so the root is no such directory. -/
example :
    let file : Path.Descent := ⟨Path.segments (Path.ofText ".ts").bytes, by decide⟩
    let relinked (p : Path) :=
      ((new {}).relink (Search.below p [(file, "")] true).resolver p "./x/..").1
    relinked Path.root = .resolved "./.ts.js" ∧
      relinked (Path.ofText "/a") = .miss "./x/.." := by decide +kernel

end Session

end Relink
